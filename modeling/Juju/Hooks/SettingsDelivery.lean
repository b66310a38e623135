import Juju.Hooks.DeliveredSettings

namespace Juju.Hooks
open Juju.Base
open Juju.State (RelationUnitWatcher WatcherEvent WatcherRequest)

variable {U : Type}

/-- The unit whose name is to be read for a notification. -/
def nameFor : WatcherRequest U → Option U
  | .unitName u => some u
  | _ => none

/-- A request that is about the container alone. -/
def plain : WatcherRequest U → Bool
  | .children _ | .container => true
  | _ => false

theorem map_eq_getElem {α β γ : Type} (f : α → γ) (g : β → γ) (xs : List α) (ys : List β)
    (h : xs.map f = ys.map g) (i : Nat) (a : α) (ha : xs[i]? = some a) :
    ∃ b, ys[i]? = some b ∧ g b = f a := by
  have hget : (ys.map g)[i]? = some (f a) := by rw [← h, List.getElem?_map, ha, Option.map_some]
  rw [List.getElem?_map, Option.map_eq_some_iff] at hget
  exact hget

variable [LinearOrder U]

namespace WatchedRelation

/-- The lists kept beside the watcher's are of the same units, with versions that have been. -/
structure Passed (r : WatchedRelation U) : Prop where
  answered : r.watcher.answered.map (fun a => (a.1, a.2.2)) =
    r.answered.map fun a => (a.1, a.2.isSome)
  named : r.watcher.requests.filterMap nameFor = r.named.map Prod.fst
  notifying : r.watcher.notifying = r.notifying.map Prod.fst
  watched : r.watcher.settingsWatches = r.watched.map Prod.fst
  requestedHad : ∀ u task, .settings u task ∈ r.watcher.requests → r.Had u 0
  answeredHad : ∀ a ∈ r.answered, ∃ v : Nat, a.2 = some v ∧ r.Had a.1 v
  namedHad : ∀ a ∈ r.named, r.Had a.1 a.2
  notifyingHad : ∀ a ∈ r.notifying, r.Had a.1 a.2
  watchedHad : ∀ a ∈ r.watched, ∃ v : Nat, a.2 = some v ∧ r.Had a.1 v

/-- A unit's settings are on their way to the scheduler, or it knows those that are watched. -/
inductive Tracked (r : WatchedRelation U) (u : U) : Prop where
  | requested (task : Option Nat) (h : .settings u task ∈ r.watcher.requests)
  | answered (x : Option Nat) (h : (u, x) ∈ r.answered)
  | named (v : Nat) (h : (u, v) ∈ r.named)
  | told (v : Nat) (k : Int) (h : (u, v) ∈ r.notifying ∨ (u, some v) ∈ r.watched)
      (hk : r.session.scheduler.memberVersions.lookup u = some k) (hle : v ≤ k)

/-- A unit that has come is to be reported, before its settings are. -/
def Awaited (r : WatchedRelation U) (u : U) : Prop :=
  ∃ task oldUnits newUnits, .memberNames task oldUnits newUnits ∈ r.watcher.requests ∧
    u ∉ oldUnits ∧ (.settings u (some task) ∈ r.watcher.requests ∨
      ∃ stat, (u, some task, stat) ∈ r.watcher.answered)

def NamesPending (r : WatchedRelation U) : Prop :=
  ∃ task oldUnits newUnits, .memberNames task oldUnits newUnits ∈ r.watcher.requests

/-- The watcher's units are those of the container when it was read, and the scheduler's members
are the watcher's units or will be. -/
structure Followed (interested : U → Bool) (r : WatchedRelation U) : Prop where
  childrenHad : ∀ u ∈ r.children, r.Had u 0
  unitsHad : ∀ u ∈ r.watcher.units, r.Had u 0
  read : ∀ n, r.containerRead = some n → n ≤ r.changes ∧ (n = r.changes →
    ∀ u, u ∈ r.watcher.units ↔ u ∈ r.children ∧ interested u)
  absent : r.container = none → r.watcher.units = []
  naming : ∀ task oldUnits newUnits,
    .memberNames task oldUnits newUnits ∈ r.watcher.requests →
      r.watcher.units = newUnits ∧ ∀ u ∈ oldUnits, u ∈ r.session.current
  uncalled : ¬ r.NamesPending → r.watcher.calls = [] → r.watcher.units = []
  called : ¬ r.NamesPending → r.watcher.calls ≠ [] →
    ∀ u, u ∈ r.session.current ↔ u ∈ r.watcher.units

/-- What every run keeps. -/
structure Following (interested : U → Bool) (r : WatchedRelation U) : Prop where
  showing : r.Showing
  passed : r.Passed
  followed : r.Followed interested
  covered : ∀ u ∈ r.watcher.units, r.Awaited u ∨ u ∈ r.session.current ∧ r.Tracked u
  token : r.watcher = RelationUnitWatcher.constructed ∨
    r.watcher.stopped = some false ∧ r.watcher.containerTokens = 1

theorem fresh_following (interested : U → Bool) :
    (fresh : WatchedRelation U).Following interested := by
  refine ⟨⟨freshSession_inv, ?_, ?_, ?_⟩, ⟨rfl, rfl, rfl, rfl, ?_, ?_, ?_, ?_, ?_⟩,
    ⟨?_, ?_, ?_, fun _ => rfl, ?_, fun _ _ => rfl, ?_⟩, ?_, Or.inl rfl⟩
  all_goals simp [fresh, freshSession, createState, children, RelationUnitWatcher.constructed]

variable {interested : U → Bool} (r r' : WatchedRelation U)

omit [LinearOrder U] in
/-- The settings of every unit have at least the versions they had. -/
theorem had_mono (hv : ∀ u n, r.versions u = some n → ∃ n', r'.versions u = some n' ∧ n ≤ n')
    (u : U) (v : Int) (h : r.Had u v) : r'.Had u v := by
  obtain ⟨n, hn, hle⟩ := h
  obtain ⟨n', hn', hle'⟩ := hv u n hn
  exact ⟨n', hn', by omega⟩

/-- A unit is tracked for as long as nothing of it is taken away. -/
theorem tracked_mono (u : U) (h : r.Tracked u)
    (hrequests : ∀ t, .settings u t ∈ r.watcher.requests → .settings u t ∈ r'.watcher.requests)
    (hanswered : r.answered ⊆ r'.answered) (hnamed : r.named ⊆ r'.named)
    (hnotifying : r.notifying ⊆ r'.notifying) (hwatched : r.watched ⊆ r'.watched)
    (hversions : r'.session.scheduler.memberVersions.lookup u =
      r.session.scheduler.memberVersions.lookup u) : r'.Tracked u := by
  cases h with
  | requested t hway => exact .requested t (hrequests t hway)
  | answered x hx => exact .answered x (hanswered hx)
  | named v hv => exact .named v (hnamed hv)
  | told v k hv hk hle =>
    refine .told v k ?_ (hversions.trans hk) hle
    cases hv with
    | inl hv => exact Or.inl (hnotifying hv)
    | inr hv => exact Or.inr (hwatched hv)

/-- A unit on the other side sets its settings, joins or leaves. -/
theorem outside_following (h : r.Following interested) (container : Option (Finset U))
    (changes : Nat) (versions : U → Option Nat)
    (hv : ∀ u n, r.versions u = some n → ∃ n', versions u = some n' ∧ n ≤ n')
    (hchildren : ∀ u ∈ container.getD ∅, u ∈ r.children ∨ ∃ n, versions u = some n)
    (hchanges : container.getD ∅ = r.children ∧ changes = r.changes ∨ r.changes < changes)
    (habsent : container = none → r.container = none) :
    Following interested
      { r with container := container, changes := changes, versions := versions } := by
  obtain ⟨hshowing, hpassed, hfollowed, hcovered, htoken⟩ := h
  have hhad (u : U) (v : Int) (hu : r.Had u v) := had_mono r
    { r with container := container, changes := changes, versions := versions } hv u v hu
  refine ⟨⟨hshowing.inv, fun u k hk => hhad u k (hshowing.known u k hk),
      fun u v hu => hhad u v (hshowing.recent u v hu), hshowing.due⟩,
    ⟨hpassed.answered, hpassed.named, hpassed.notifying, hpassed.watched,
      fun u task hu => hhad u 0 (hpassed.requestedHad u task hu), ?_,
      fun a ha => hhad _ _ (hpassed.namedHad a ha), fun a ha => hhad _ _ (hpassed.notifyingHad a ha),
      ?_⟩,
    ⟨?_, fun u hu => hhad u 0 (hfollowed.unitsHad u hu), ?_,
      fun hnone => hfollowed.absent (habsent hnone), hfollowed.naming, hfollowed.uncalled,
      hfollowed.called⟩, ?_, htoken⟩
  · intro a ha
    obtain ⟨v, hav, hu⟩ := hpassed.answeredHad a ha
    exact ⟨v, hav, hhad _ _ hu⟩
  · intro a ha
    obtain ⟨v, hav, hu⟩ := hpassed.watchedHad a ha
    exact ⟨v, hav, hhad _ _ hu⟩
  · intro u hu
    rcases hchildren u hu with hin | ⟨n, hn⟩
    · exact hhad u 0 (hfollowed.childrenHad u hin)
    · exact ⟨n, hn, by omega⟩
  · intro n hn
    obtain ⟨hle, hread⟩ := hfollowed.read n hn
    rcases hchanges with ⟨hsame, rfl⟩ | hlt
    · refine ⟨hle, fun he u => ?_⟩
      rw [hread he u]
      simp only [children] at hsame ⊢
      rw [hsame]
    · exact ⟨by simp only; omega, fun he => absurd he (by simp only; omega)⟩
  · intro u hu
    rcases hcovered u hu with hawaited | ⟨hin, htracked⟩
    · exact Or.inl hawaited
    · exact Or.inr ⟨hin, tracked_mono r _ u htracked (fun _ => id) (List.Subset.refl _)
        (List.Subset.refl _) (List.Subset.refl _) (List.Subset.refl _) rfl⟩

/-- Requests about the container alone come and go. -/
theorem plain_following (w : RelationUnitWatcher U) (h : r.Following interested)
    (hreq : w.requests.filter (fun q => !plain q) =
      r.watcher.requests.filter (fun q => !plain q))
    (hunits : w.units = r.watcher.units) (hcalls : w.calls = r.watcher.calls)
    (hanswered : w.answered = r.watcher.answered) (hnotifying : w.notifying = r.watcher.notifying)
    (hwatches : w.settingsWatches = r.watcher.settingsWatches)
    (htoken : w.stopped = some false ∧ w.containerTokens = 1) :
    Following interested { r with watcher := w } := by
  obtain ⟨hshowing, hpassed, hfollowed, hcovered, -⟩ := h
  have hmem (q : WatcherRequest U) (hq : plain q = false) :
      q ∈ w.requests ↔ q ∈ r.watcher.requests := by
    have hin (l : List (WatcherRequest U)) : q ∈ l ↔ q ∈ l.filter fun q => !plain q := by
      simp [hq]
    rw [hin w.requests, hreq, ← hin]
  have hnames (l : List (WatcherRequest U)) :
      l.filterMap nameFor = (l.filter fun q => !plain q).filterMap nameFor := by
    rw [List.filterMap_filter]
    refine List.filterMap_congr fun q _ => ?_
    cases q <;> rfl
  have hpending : NamesPending { r with watcher := w } ↔ r.NamesPending := by
    simp only [NamesPending, hmem _ (show plain (.memberNames _ _ _) = false from rfl)]
  refine ⟨⟨hshowing.inv, hshowing.known, hshowing.recent, hshowing.due⟩,
    ⟨hanswered ▸ hpassed.answered, ?_, hnotifying.trans hpassed.notifying,
      hwatches.trans hpassed.watched, fun u task hu =>
        hpassed.requestedHad u task ((hmem (.settings u task) rfl).mp hu),
      hpassed.answeredHad, hpassed.namedHad, hpassed.notifyingHad, hpassed.watchedHad⟩,
    ⟨hfollowed.childrenHad, fun u hu => hfollowed.unitsHad u (hunits ▸ hu), ?_,
      fun hnone => hunits.trans (hfollowed.absent hnone), ?_, ?_, ?_⟩, ?_, Or.inr htoken⟩
  · rw [hnames, hreq, ← hnames]
    exact hpassed.named
  · simp only [hunits]
    exact hfollowed.read
  · intro task oldUnits newUnits hin
    simp only [hunits]
    exact hfollowed.naming task oldUnits newUnits ((hmem (.memberNames _ _ _) rfl).mp hin)
  · intro hnot hnil
    exact hunits.trans (hfollowed.uncalled (hpending.not.mp hnot) (hcalls ▸ hnil))
  · intro hnot hne
    simp only [hunits]
    exact hfollowed.called (hpending.not.mp hnot) (hcalls ▸ hne)
  · intro u hu
    rcases hcovered u (hunits ▸ hu) with
      ⟨task, oldUnits, newUnits, hin, hout, hway⟩ | ⟨hcurrent, htracked⟩
    · refine Or.inl ⟨task, oldUnits, newUnits, (hmem (.memberNames _ _ _) rfl).mpr hin, hout, ?_⟩
      rcases hway with hreq | ⟨stat, hans⟩
      · exact Or.inl ((hmem (.settings _ _) rfl).mpr hreq)
      · exact Or.inr ⟨stat, hanswered.symm ▸ hans⟩
    · exact Or.inr ⟨hcurrent, tracked_mono r _ u htracked
        (fun t => (hmem (.settings u t) rfl).mpr) (List.Subset.refl _) (List.Subset.refl _)
        (List.Subset.refl _) (List.Subset.refl _) rfl⟩

theorem restart_following (h : r.Following interested) : r.restart.Following interested := by
  have hshowing := restart_showing r h.showing
  refine ⟨hshowing, ⟨rfl, rfl, rfl, rfl, ?_, ?_, ?_, ?_, ?_⟩,
    ⟨h.followed.childrenHad, ?_, ?_, fun _ => rfl, ?_, fun _ _ => rfl, ?_⟩, ?_, Or.inl rfl⟩
  all_goals simp [restart, RelationUnitWatcher.constructed]

theorem loop_following (e : SessionEvent U) (h : r.Following interested) (he : ¬ e.isCallback)
    (hd : r.deliver e = .ok r') : r'.Following interested := by
  obtain ⟨hshowing, hcurrent, hversions⟩ := deliver_loop r r' e h.showing he hd
  obtain ⟨session, shown, -, rfl, -⟩ := deliver_cases r r' e hd
  obtain ⟨-, hpassed, hfollowed, hcovered, htoken⟩ := h
  have hcurrent : session.current = r.session.current := hcurrent
  refine ⟨hshowing, ⟨hpassed.answered, hpassed.named, hpassed.notifying, hpassed.watched,
      hpassed.requestedHad, hpassed.answeredHad, hpassed.namedHad, hpassed.notifyingHad,
      hpassed.watchedHad⟩,
    ⟨hfollowed.childrenHad, hfollowed.unitsHad, hfollowed.read, hfollowed.absent, ?_,
      hfollowed.uncalled, ?_⟩, ?_, htoken⟩
  · simp only [hcurrent]
    exact hfollowed.naming
  · simp only [hcurrent]
    exact hfollowed.called
  · intro u hu
    rcases hcovered u hu with hawaited | ⟨hin, htracked⟩
    · exact Or.inl hawaited
    · exact Or.inr ⟨hcurrent.symm ▸ hin, tracked_mono r _ u htracked (fun _ => id)
        (List.Subset.refl _) (List.Subset.refl _) (List.Subset.refl _) (List.Subset.refl _)
        (congrArg (fun versions => versions.lookup u) hversions)⟩

section calls

variable (r₁ : WatchedRelation U)

theorem callBack_none (hcalls : r₁.watcher.calls = r.watcher.calls)
    (hnotifying : r₁.notifying.length ≤ r.notifying.length) : r.callBack r₁ = .ok r₁ := by
  simp [callBack, called, membersCalled, settingsCalled, hcalls, List.drop_of_length_le hnotifying]

theorem callBack_settings (u : U) (v : Nat) (hcalls : r₁.watcher.calls = r.watcher.calls)
    (hnotifying : r₁.notifying = r.notifying ++ [(u, v)]) :
    r.called r₁ = some (.settings [(u, (v : Int))]) ∧
      r.callBack r₁ = r₁.deliver (.settings [(u, (v : Int))]) := by
  simp [callBack, called, membersCalled, settingsCalled, hcalls, hnotifying]

theorem callBack_members (oldUnits newUnits : List U)
    (hcalls : r₁.watcher.calls = r.watcher.calls ++ [(oldUnits, newUnits)]) :
    r.called r₁ = some (.members (sorted newUnits)) ∧ r.callBack r₁ =
      { r₁ with session := { r₁.session with current := sorted oldUnits } }.deliver
        (.members (sorted newUnits)) := by
  simp [callBack, called, membersCalled, hcalls]

/-- The scheduler is told of settings: it knows a version like theirs from now on. -/
theorem told_following (u : U) (v : Nat) (hshowing : r₁.Showing) (hpassed : r₁.Passed)
    (hfollowed : r₁.Followed interested) (hin : (u, v) ∈ r₁.notifying)
    (hcovered : ∀ w ∈ r₁.watcher.units,
      r₁.Awaited w ∨ w ∈ r₁.session.current ∧ (r₁.Tracked w ∨ w = u))
    (htoken : r₁.watcher.stopped = some false ∧ r₁.watcher.containerTokens = 1)
    (ht : Timely r₁.session (.settings [(u, (v : Int))]) ∧ r₁.session.InLoop)
    (hd : r₁.deliver (.settings [(u, (v : Int))]) = .ok r') : r'.Following interested := by
  obtain ⟨hshowing', hcurrent, hgrows, htold⟩ :=
    deliver_settings r₁ r' u v hshowing (hpassed.notifyingHad _ hin) ht.1 ht.2 hd
  obtain ⟨session, shown, -, rfl, -⟩ := deliver_cases r₁ r' _ hd
  have hcurrent : session.current = r₁.session.current := hcurrent
  refine ⟨hshowing', ⟨hpassed.answered, hpassed.named, hpassed.notifying, hpassed.watched,
      hpassed.requestedHad, hpassed.answeredHad, hpassed.namedHad, hpassed.notifyingHad,
      hpassed.watchedHad⟩,
    ⟨hfollowed.childrenHad, hfollowed.unitsHad, hfollowed.read, hfollowed.absent, ?_,
      hfollowed.uncalled, ?_⟩, ?_, Or.inr htoken⟩
  · simp only [hcurrent]
    exact hfollowed.naming
  · simp only [hcurrent]
    exact hfollowed.called
  · intro w hw
    rcases hcovered w hw with hawaited | ⟨hmember, htracked | rfl⟩
    · exact Or.inl hawaited
    · refine Or.inr ⟨hcurrent.symm ▸ hmember, ?_⟩
      cases htracked with
      | requested task hreq => exact .requested task hreq
      | answered x hx => exact .answered x hx
      | named v hv => exact .named v hv
      | told v k hv hk hle =>
        obtain ⟨k', hk', hle'⟩ := hgrows w k hk
        exact .told v k' hv hk' (hle.trans hle')
    · obtain ⟨k, hk, hle⟩ := htold hmember
      exact Or.inr ⟨hcurrent.symm ▸ hmember, .told v k (Or.inl hin) hk hle⟩

/-- The scheduler is told of the units: they are its members from now on. -/
theorem reported_following (oldUnits newUnits : List U) (hshowing : r₁.Showing)
    (hpassed : r₁.Passed) (hhad : ∀ u ∈ newUnits, r₁.Had u 0)
    (hchildren : ∀ u ∈ r₁.children, r₁.Had u 0) (hunits : r₁.watcher.units = newUnits)
    (hread : ∀ n, r₁.containerRead = some n → n ≤ r₁.changes ∧ (n = r₁.changes →
      ∀ u, u ∈ r₁.watcher.units ↔ u ∈ r₁.children ∧ interested u))
    (habsent : r₁.container = none → r₁.watcher.units = [])
    (hold : ∀ u ∈ oldUnits, u ∈ r₁.session.current) (hnames : ¬ r₁.NamesPending)
    (hcalls : r₁.watcher.calls ≠ [])
    (hcovered : ∀ u ∈ newUnits, (∃ task, .settings u task ∈ r₁.watcher.requests) ∨
      (∃ x, (u, x) ∈ r₁.answered) ∨ u ∈ r₁.session.current ∧ r₁.Tracked u)
    (htoken : r₁.watcher.stopped = some false ∧ r₁.watcher.containerTokens = 1)
    (ht : Timely r₁.session (.members (sorted newUnits)) ∧ r₁.session.InLoop)
    (hd : { r₁ with session := { r₁.session with current := sorted oldUnits } }.deliver
      (.members (sorted newUnits)) = .ok r') : r'.Following interested := by
  obtain ⟨hshowing', hcurrent, hsame⟩ :=
    deliver_members r₁ r' oldUnits newUnits hshowing hold hhad ht.1 ht.2 hd
  obtain ⟨session, shown, -, rfl, -⟩ := deliver_cases _ r' _ hd
  have hcurrent : session.current = sorted newUnits := hcurrent
  refine ⟨hshowing', ⟨hpassed.answered, hpassed.named, hpassed.notifying, hpassed.watched,
      hpassed.requestedHad, hpassed.answeredHad, hpassed.namedHad, hpassed.notifyingHad,
      hpassed.watchedHad⟩,
    ⟨hchildren, fun u hu => hhad u (hunits ▸ hu), hread, habsent, ?_,
      fun _ hnil => absurd hnil hcalls, ?_⟩, ?_, Or.inr htoken⟩
  · intro task oldUnits newUnits hin
    exact absurd ⟨task, oldUnits, newUnits, hin⟩ hnames
  · intro _ _ u
    simp only [hcurrent, mem_sorted, hunits]
  · intro u hu
    have hu : u ∈ newUnits := hunits ▸ hu
    refine Or.inr ⟨by simpa [hcurrent] using hu, ?_⟩
    rcases hcovered u hu with ⟨task, hreq⟩ | ⟨x, hx⟩ | ⟨hin, htracked⟩
    · exact .requested task hreq
    · exact .answered x hx
    · exact tracked_mono r₁ _ u htracked (fun _ => id) (List.Subset.refl _) (List.Subset.refl _)
        (List.Subset.refl _) (List.Subset.refl _) (hsame u hu hin)

end calls

end WatchedRelation

end Juju.Hooks

import Juju.Hooks.DeliveryRuns

namespace Juju.Hooks
open Juju.Base
open Juju.State (RelationUnitWatcher WatcherEvent WatcherRequest)

variable {U : Type} [LinearOrder U]

namespace WatchedRelation

variable {interested : U → Bool} (r r' : WatchedRelation U)

omit [LinearOrder U] in
/-- The one request about the container is answered. -/
theorem rest_settings (w : RelationUnitWatcher U) (q : WatcherRequest U)
    (rest : List (WatcherRequest U)) (hreq : w.requests = q :: rest) (hq : q.ofContainer = true)
    (htoken : w.containerTokens = 1) : ∀ p ∈ rest, p.ofContainer = false := by
  rw [RelationUnitWatcher.requests_tokens w q rest hreq, if_pos hq] at htoken
  have hnone : rest.countP WatcherRequest.ofContainer = 0 := by
    simp only [RelationUnitWatcher.containerTokens] at htoken
    omega
  rw [List.countP_eq_zero] at hnone
  intro p hp
  simpa using hnone p hp

/-- The names are read of the units that the scheduler is to be told of. -/
theorem names_following (h : r.Following interested) (task : Nat) (oldUnits newUnits : List U)
    (rest : List (WatcherRequest U)) (w : RelationUnitWatcher U)
    (hreq : r.watcher.requests = .memberNames task oldUnits newUnits :: rest)
    (hone : r.watcher.containerTokens = 1)
    (hw : w = { r.watcher with
      requests := rest
      unitNameMap := true
      calling := r.watcher.calling ++ [task]
      calls := r.watcher.calls ++ [(oldUnits, newUnits)] })
    (htoken : w.stopped = some false ∧ w.containerTokens = 1)
    (ht : ∀ c ∈ r.called { r.reads .namesAnswered with watcher := w },
      Timely r.session c ∧ r.session.InLoop)
    (hcall : r.callBack { r.reads .namesAnswered with watcher := w } = .ok r') :
    r'.Following interested := by
  obtain ⟨hshowing, hpassed, hfollowed, hcovered, -⟩ := h
  have hrest := rest_settings r.watcher _ rest hreq rfl hone
  have hrequests : w.requests = rest := by rw [hw]
  have hcalls : w.calls = r.watcher.calls ++ [(oldUnits, newUnits)] := by rw [hw]
  have hunits : w.units = r.watcher.units := by rw [hw]
  have hanswered : w.answered = r.watcher.answered := by rw [hw]
  obtain ⟨hnew, hold⟩ := hfollowed.naming task oldUnits newUnits (hreq ▸ List.mem_cons_self)
  simp only [reads, hreq] at ht hcall
  set r₁ : WatchedRelation U := { r with watcher := w } with hr₁
  obtain ⟨hcalled, hback⟩ := callBack_members r r₁ oldUnits newUnits hcalls
  rw [hback] at hcall
  have hin (q : WatcherRequest U) (hq : q ∈ r.watcher.requests) :
      q = .memberNames task oldUnits newUnits ∨ q ∈ w.requests := by
    rw [hreq] at hq
    rw [hrequests]
    exact List.mem_cons.mp hq
  have hpassed₁ : r₁.Passed := by
    refine ⟨?_, ?_, ?_, ?_, ?_, hpassed.answeredHad, hpassed.namedHad, hpassed.notifyingHad,
      hpassed.watchedHad⟩
    · simp only [hr₁, hanswered, hpassed.answered]
    · have hnamed := hpassed.named
      rw [hreq] at hnamed
      simp only [hr₁, hrequests]
      exact hnamed
    · simp only [hr₁, hw, hpassed.notifying]
    · simp only [hr₁, hw, hpassed.watched]
    · intro u t hu
      exact hpassed.requestedHad u t (hreq ▸ List.mem_cons_of_mem _ (hrequests ▸ hu))
  refine reported_following r' r₁ oldUnits newUnits
    ⟨hshowing.inv, hshowing.known, hshowing.recent, hshowing.due⟩ hpassed₁
    (fun u hu => hfollowed.unitsHad u (hnew ▸ hu)) hfollowed.childrenHad (hunits.trans hnew) ?_
    (fun hnone => hunits.trans (hfollowed.absent hnone)) hold ?_ (by simp [hr₁, hcalls]) ?_ htoken
    (ht _ hcalled) hcall
  · simp only [hr₁, hunits]
    exact hfollowed.read
  · rintro ⟨t, olds, news, hpending⟩
    exact absurd (hrest _ (hrequests ▸ hpending)) (by simp [WatcherRequest.ofContainer])
  · intro u hu
    rcases hcovered u (hnew ▸ hu) with ⟨t, olds, news, hpending, -, hway⟩ | ⟨hmember, htracked⟩
    · rcases hway with hway | ⟨stat, hway⟩
      · exact Or.inl ⟨some t, (hin _ hway).resolve_left (by simp)⟩
      · obtain ⟨i, hi⟩ := List.mem_iff_getElem?.mp hway
        obtain ⟨⟨u', x⟩, hx, hsame⟩ := map_eq_getElem _ _ _ _ hpassed.answered i _ hi
        obtain ⟨rfl, -⟩ := Prod.mk.inj hsame
        exact Or.inr (Or.inl ⟨x, List.mem_of_getElem? hx⟩)
    · cases htracked with
      | requested t hway => exact Or.inl ⟨t, (hin _ hway).resolve_left (by simp)⟩
      | answered y hy => exact Or.inr (Or.inl ⟨y, hy⟩)
      | named y hy => exact Or.inr (Or.inr ⟨hmember, .named y hy⟩)
      | told y k hy hk hle => exact Or.inr (Or.inr ⟨hmember, .told y k hy hk hle⟩)

omit [LinearOrder U] in
/-- Nothing is to be reported while the container is read. -/
theorem children_idle (b : Bool) (rest : List (WatcherRequest U))
    (hreq : r.watcher.requests = .children b :: rest) (hone : r.watcher.containerTokens = 1) :
    ¬ r.NamesPending := by
  rintro ⟨t, oldUnits, newUnits, hin⟩
  have hrest := rest_settings r.watcher _ rest hreq rfl hone
  rw [hreq] at hin
  have hin := (List.mem_cons.mp hin).resolve_left (by simp)
  exact absurd (hrest _ hin) (by simp [WatcherRequest.ofContainer])

section children

variable (h : r.Following interested) (b : Bool) (found : List U)
  (rest : List (WatcherRequest U)) (hreq : r.watcher.requests = .children b :: rest)

include h hreq

theorem children_named : rest.filterMap nameFor = r.named.map Prod.fst := by
  have hnamed := h.passed.named
  rw [hreq] at hnamed
  exact hnamed

variable (hone : r.watcher.containerTokens = 1) (w : RelationUnitWatcher U)
include hone

/-- Every unit that the watcher has is a member already. -/
theorem children_tracked (u : U) (hu : u ∈ r.watcher.units) :
    u ∈ r.session.current ∧ r.Tracked u := by
  rcases h.covered u hu with ⟨t, oldUnits, newUnits, hpending, -⟩ | hknown
  · exact absurd ⟨t, oldUnits, newUnits, hpending⟩ (children_idle r b rest hreq hone)
  · exact hknown

variable (htrue : r.container = some found.toFinset)
  (hanswered : w.answered = r.watcher.answered) (hnotifying : w.notifying = r.watcher.notifying)
  (hwatches : w.settingsWatches = r.watcher.settingsWatches)
  (htoken : w.stopped = some false ∧ w.containerTokens = 1)
include htrue hanswered hnotifying hwatches htoken

omit h hreq hone hanswered hnotifying hwatches htoken in
theorem children_interested (u : U) :
    u ∈ found.filter interested ↔ u ∈ r.children ∧ interested u := by
  rw [List.mem_filter]
  simp [children, htrue]

omit hone in
/-- The units are those that the watcher has. -/
theorem same_following (hunits : w.units = r.watcher.units)
    (hsame : r.watcher.units = found.filter interested) (hrequests : w.requests = rest)
    (hcalls : w.calls = r.watcher.calls) :
    Following interested { r with containerRead := some r.changes, watcher := w } := by
  obtain ⟨hshowing, hpassed, hfollowed, hcovered, -⟩ :=
    plain_following r w h (by simp [hrequests, hreq, plain]) hunits hcalls hanswered hnotifying
      hwatches htoken
  refine ⟨⟨hshowing.inv, hshowing.known, hshowing.recent, hshowing.due⟩,
    ⟨hpassed.answered, hpassed.named, hpassed.notifying, hpassed.watched, hpassed.requestedHad,
      hpassed.answeredHad, hpassed.namedHad, hpassed.notifyingHad, hpassed.watchedHad⟩,
    ⟨hfollowed.childrenHad, hfollowed.unitsHad, ?_, hfollowed.absent, hfollowed.naming,
      hfollowed.uncalled, hfollowed.called⟩, ?_, Or.inr htoken⟩
  · intro n hn
    obtain rfl := Option.some.inj hn
    refine ⟨le_refl _, fun _ u => ?_⟩
    simp only [hunits, hsame]
    exact children_interested r found htrue u
  · intro u hu
    rcases hcovered u hu with hawaited | ⟨hmember, htracked⟩
    · exact Or.inl hawaited
    · exact Or.inr ⟨hmember, tracked_mono _ _ u htracked (fun _ => id) (List.Subset.refl _)
        (List.Subset.refl _) (List.Subset.refl _) (List.Subset.refl _) rfl⟩

/-- Units have gone, or have come back, and the names are there: the scheduler is told. -/
theorem fewer_following (hunits : w.units = found.filter interested)
    (hsub : ∀ u ∈ found.filter interested, u ∈ r.watcher.units) (hrequests : w.requests = rest)
    (hcalls : w.calls = r.watcher.calls ++ [(r.watcher.units, found.filter interested)])
    (ht : ∀ c ∈ r.called { r with containerRead := some r.changes, watcher := w },
      Timely r.session c ∧ r.session.InLoop)
    (hcall : r.callBack { r with containerRead := some r.changes, watcher := w } = .ok r') :
    r'.Following interested := by
  have htracked := children_tracked r h b rest hreq hone
  have hnamed := children_named r h b rest hreq
  have hread (u : U) : u ∈ found.filter interested ↔ u ∈ r.children ∧ interested u :=
    children_interested r found htrue u
  have hrest := rest_settings r.watcher _ rest hreq rfl hone
  obtain ⟨hshowing, hpassed, hfollowed, -, -⟩ := h
  set r₁ : WatchedRelation U := { r with
    containerRead := some r.changes, watcher := w } with hr₁
  obtain ⟨hcalled, hback⟩ := callBack_members r r₁ _ _ hcalls
  rw [hback] at hcall
  have hpassed₁ : r₁.Passed := by
    refine ⟨?_, ?_, ?_, ?_, ?_, hpassed.answeredHad, hpassed.namedHad, hpassed.notifyingHad,
      hpassed.watchedHad⟩
    · simp only [hr₁, hanswered, hpassed.answered]
    · simp only [hr₁, hrequests, hnamed]
    · simp only [hr₁, hnotifying, hpassed.notifying]
    · simp only [hr₁, hwatches, hpassed.watched]
    · intro u t hu
      exact hpassed.requestedHad u t (hreq ▸ List.mem_cons_of_mem _ (hrequests ▸ hu))
  refine reported_following r' r₁ r.watcher.units (found.filter interested)
    ⟨hshowing.inv, hshowing.known, hshowing.recent, hshowing.due⟩ hpassed₁
    (fun u hu => hfollowed.childrenHad u ((hread u).mp hu).1) hfollowed.childrenHad hunits ?_ ?_
    (fun u hu => (htracked u hu).1) ?_ (by simp [hr₁, hcalls]) ?_ htoken (ht _ hcalled) hcall
  · intro n hn
    obtain rfl := Option.some.inj hn
    refine ⟨le_refl _, fun _ u => ?_⟩
    simp only [hr₁, hunits]
    exact hread u
  · intro hnone
    rw [htrue] at hnone
    cases hnone
  · rintro ⟨t, oldUnits, newUnits, hpending⟩
    exact absurd (hrest _ (hrequests ▸ hpending)) (by simp [WatcherRequest.ofContainer])
  · intro u hu
    obtain ⟨hmember, hknown⟩ := htracked u (hsub u hu)
    cases hknown with
    | requested t hway =>
      rw [hreq] at hway
      have hway := (List.mem_cons.mp hway).resolve_left (by simp)
      exact Or.inl ⟨t, hrequests.symm ▸ hway⟩
    | answered y hy => exact Or.inr (Or.inl ⟨y, hy⟩)
    | named y hy => exact Or.inr (Or.inr ⟨hmember, .named y hy⟩)
    | told y k hy hk hle => exact Or.inr (Or.inr ⟨hmember, .told y k hy hk hle⟩)

/-- The settings of the units that have come are asked for, and then the names. -/
theorem asked_following (task : Nat) (asked : List (WatcherRequest U))
    (hunits : w.units = found.filter interested)
    (hasked : asked = ((found.filter interested).filter fun u => u ∉ r.watcher.units).map
      fun u => .settings u (some task))
    (hrequests : w.requests = rest ++ asked ++
      [.memberNames task r.watcher.units (found.filter interested)]) :
    Following interested { r with containerRead := some r.changes, watcher := w } := by
  have htracked := children_tracked r h b rest hreq hone
  have hnamed := children_named r h b rest hreq
  have hread (u : U) : u ∈ found.filter interested ↔ u ∈ r.children ∧ interested u :=
    children_interested r found htrue u
  have hrest := rest_settings r.watcher _ rest hreq rfl hone
  obtain ⟨hshowing, hpassed, hfollowed, -, -⟩ := h
  have hhad (u : U) (hu : u ∈ found.filter interested) : r.Had u 0 :=
    hfollowed.childrenHad u ((hread u).mp hu).1
  have haskedNames : asked.filterMap nameFor = [] := by
    rw [hasked, List.filterMap_map, List.filterMap_eq_nil_iff]
    intro u _
    rfl
  have hask : .memberNames task r.watcher.units (found.filter interested) ∈ w.requests := by
    rw [hrequests]
    exact List.mem_append_right _ (List.mem_singleton_self _)
  have hpending : NamesPending { r with containerRead := some r.changes, watcher := w } :=
    ⟨_, _, _, hask⟩
  refine ⟨⟨hshowing.inv, hshowing.known, hshowing.recent, hshowing.due⟩,
    ⟨?_, ?_, ?_, ?_, ?_, hpassed.answeredHad, hpassed.namedHad, hpassed.notifyingHad,
      hpassed.watchedHad⟩,
    ⟨hfollowed.childrenHad, fun u hu => hhad u (hunits ▸ hu), ?_, ?_, ?_,
      fun hnot => absurd hpending hnot, fun hnot => absurd hpending hnot⟩, ?_, Or.inr htoken⟩
  · simp only [hanswered, hpassed.answered]
  · simp only [hrequests, List.filterMap_append, hnamed, haskedNames]
    simp [nameFor]
  · simp only [hnotifying, hpassed.notifying]
  · simp only [hwatches, hpassed.watched]
  · intro u t hu
    simp only [hrequests, hasked, List.mem_append, List.mem_singleton, reduceCtorEq,
      or_false] at hu
    rcases hu with hu | hu
    · exact hpassed.requestedHad u t (hreq ▸ List.mem_cons_of_mem _ hu)
    · obtain ⟨v, hv, hsame⟩ := List.mem_map.mp hu
      obtain ⟨rfl, -⟩ := WatcherRequest.settings.inj hsame
      exact hhad v (List.mem_of_mem_filter hv)
  · intro n hn
    obtain rfl := Option.some.inj hn
    refine ⟨le_refl _, fun _ u => ?_⟩
    simp only [hunits]
    exact hread u
  · intro hnone
    rw [htrue] at hnone
    cases hnone
  · intro t oldUnits newUnits hmember
    simp only [hrequests, hasked, List.mem_append, List.mem_singleton] at hmember
    rcases hmember with (hmember | hmember) | hmember
    · exact absurd (hrest _ hmember) (by simp [WatcherRequest.ofContainer])
    · obtain ⟨v, -, hsame⟩ := List.mem_map.mp hmember
      cases hsame
    · obtain ⟨-, rfl, rfl⟩ := WatcherRequest.memberNames.inj hmember
      exact ⟨hunits, fun u hu => (htracked u hu).1⟩
  · intro u hu
    have hu : u ∈ found.filter interested := hunits ▸ hu
    by_cases hknown : u ∈ r.watcher.units
    · obtain ⟨hmember, hway⟩ := htracked u hknown
      refine Or.inr ⟨hmember, tracked_mono r _ u hway (fun t hin => ?_) (List.Subset.refl _)
        (List.Subset.refl _) (List.Subset.refl _) (List.Subset.refl _) rfl⟩
      rw [hreq] at hin
      have hin := (List.mem_cons.mp hin).resolve_left (by simp)
      simp [hrequests, hin]
    · refine Or.inl ⟨task, r.watcher.units, found.filter interested, hask, hknown, Or.inl ?_⟩
      have hin : .settings u (some task) ∈ asked := by
        rw [hasked]
        exact List.mem_map.mpr ⟨u, List.mem_filter.mpr ⟨hu, by simpa using hknown⟩, rfl⟩
      simp [hrequests, hin]

omit hanswered hnotifying hwatches in
/-- The children of the container are read. -/
theorem children_following
    (hw : w = { r.watcher with requests := rest }.cbContainerChildren (found.filter interested))
    (ht : ∀ c ∈ r.called { r with containerRead := some r.changes, watcher := w },
      Timely r.session c ∧ r.session.InLoop)
    (hcall : r.callBack { r with containerRead := some r.changes, watcher := w } = .ok r') :
    r'.Following interested := by
  unfold RelationUnitWatcher.cbContainerChildren at hw
  split at hw
  · rename_i hsame
    have hcalls : w.calls = r.watcher.calls := by rw [hw]
    rw [callBack_none r { r with containerRead := some r.changes, watcher := w } hcalls
      (le_refl _)] at hcall
    obtain rfl := Except.ok.inj hcall
    exact same_following r h b found rest hreq w htrue (by rw [hw]) (by rw [hw])
      (by rw [hw]) htoken (by rw [hw]) hsame (by rw [hw]) hcalls
  · simp only at hw
    split at hw
    · rename_i hcached
      rw [Bool.and_eq_true, List.isEmpty_iff] at hcached
      have hnil := hcached.2
      have hsub (u : U) (hu : u ∈ found.filter interested) : u ∈ r.watcher.units := by
        have hin := List.filter_eq_nil_iff.mp hnil u hu
        simpa using hin
      have hrequests : w.requests = rest := by
        rw [hw, hnil]
        exact List.append_nil rest
      exact fewer_following r r' h b found rest hreq hone w htrue (by rw [hw]) (by rw [hw])
        (by rw [hw]) htoken (by rw [hw]) hsub hrequests (by rw [hw]) ht hcall
    · have hcalls : w.calls = r.watcher.calls := by
        rw [hw]
        rfl
      rw [callBack_none r { r with containerRead := some r.changes, watcher := w } hcalls
        (le_refl _)] at hcall
      obtain rfl := Except.ok.inj hcall
      exact asked_following r h b found rest hreq hone w htrue (by rw [hw]; rfl)
        (by rw [hw]; rfl) (by rw [hw]; rfl) htoken r.watcher.nextTask _ (by rw [hw]; rfl) rfl
        (by rw [hw]; rfl)

end children

theorem watcher_cases (e : WatcherEvent U) (hs : r.step interested (.watcher e) = some r') :
    r.Truthful e ∧ ∃ w, r.watcher.step interested e = some w ∧
      r.callBack { r.reads e with watcher := w } = .ok r' := by
  simp only [step] at hs
  split at hs
  · rename_i htrue
    refine ⟨htrue, ?_⟩
    split at hs
    · rename_i w hw
      refine ⟨w, hw, ?_⟩
      cases hcall : r.callBack { r.reads e with watcher := w } with
      | error err => simp [hcall, Except.toOption] at hs
      | ok r₁ =>
        obtain rfl : r₁ = r' := by simpa [hcall, Except.toOption] using hs
        rfl
    · cases hs
  · cases hs

/-- A watcher that has not been started waits for nothing. -/
theorem constructed_step (e : WatcherEvent U) (w : RelationUnitWatcher U)
    (hs : (RelationUnitWatcher.constructed : RelationUnitWatcher U).step interested e = some w) :
    e = .start ∨ e = .stop := by
  cases e with
  | start => exact Or.inl rfl
  | stop => exact Or.inr rfl
  | childrenAnswered children =>
    cases children <;> simp [RelationUnitWatcher.step, RelationUnitWatcher.constructed] at hs
  | _ => simp [RelationUnitWatcher.step, RelationUnitWatcher.constructed] at hs

theorem started_following (h : r.Following interested) (w : RelationUnitWatcher U)
    (hw : r.watcher.step interested .start = some w) (hcall : r.callBack { r with watcher := w } =
      .ok r') : r'.Following interested := by
  rcases h.token with hnew | ⟨hrun, -⟩
  · simp only [RelationUnitWatcher.step, hnew, RelationUnitWatcher.constructed, reduceCtorEq,
      if_false, Option.some.injEq] at hw
    rw [callBack_none r { r with watcher := w } (by rw [← hw, hnew]; rfl) (le_refl _)] at hcall
    obtain rfl := Except.ok.inj hcall
    refine plain_following r w h ?_ ?_ ?_ ?_ ?_ ?_ ?_
    all_goals rw [← hw]
    all_goals simp [hnew, RelationUnitWatcher.constructed, RelationUnitWatcher.request, plain,
      RelationUnitWatcher.containerTokens, WatcherRequest.ofContainer]
  · simp [RelationUnitWatcher.step, hrun] at hw

/-- An event of the watcher keeps the scheduler's members and versions on their way. -/
theorem watcher_following (h : r.Following interested) (e : WatcherEvent U)
    (hfine : Undisturbed interested r (.watcher e))
    (hs : r.step interested (.watcher e) = some r') : r'.Following interested := by
  obtain ⟨htrue, w, hw, hcall⟩ := watcher_cases r r' e hs
  by_cases hstart : e = .start
  · subst hstart
    exact started_following r r' h w hw hcall
  have hstop : e ≠ .stop := by
    rintro rfl
    exact absurd hfine.1 (by simp [stops])
  have hrunning : r.watcher.stopped = some false ∧ r.watcher.containerTokens = 1 := by
    rcases h.token with hnew | hrunning
    · rw [hnew] at hw
      rcases constructed_step e w hw with he | he
      · exact absurd he hstart
      · exact absurd he hstop
    · exact hrunning
  obtain ⟨hrun, hone⟩ := hrunning
  obtain ⟨htokens, hrun'⟩ :=
    RelationUnitWatcher.step_tokens interested r.watcher w e hrun hstop hw
  have htoken : w.stopped = some false ∧ w.containerTokens = 1 := ⟨hrun', htokens.trans hone⟩
  have ht := hfine.2 w hw
  -- requests that are about the container alone
  have hplain (hreads : r.reads e = r)
      (hreq : w.requests.filter (fun q => !plain q) =
        r.watcher.requests.filter (fun q => !plain q))
      (hunits : w.units = r.watcher.units) (hcalls : w.calls = r.watcher.calls)
      (hanswered : w.answered = r.watcher.answered)
      (hnotifying : w.notifying = r.watcher.notifying)
      (hwatches : w.settingsWatches = r.watcher.settingsWatches) : r'.Following interested := by
    rw [hreads, callBack_none r { r with watcher := w } hcalls (le_refl _)] at hcall
    obtain rfl := Except.ok.inj hcall
    exact plain_following r w h hreq hunits hcalls hanswered hnotifying hwatches htoken
  cases e with
  | start => exact absurd rfl hstart
  | stop => exact absurd rfl hstop
  | childrenAnswered children =>
    simp only [RelationUnitWatcher.step] at hw
    split at hw
    · rename_i b rest found hreq
      have hcontainer : r.container = some found.toFinset := htrue.2.symm
      exact children_following r r' h b found rest hreq hone w hcontainer htoken
        (Option.some.inj hw).symm ht hcall
    · rename_i rest hreq
      obtain rfl := Option.some.inj hw
      exact hplain rfl (by simp [RelationUnitWatcher.request, hreq, plain]) rfl rfl rfl rfl rfl
    · cases hw
  | existsAnswered stat =>
    simp only [RelationUnitWatcher.step] at hw
    split at hw
    · rename_i rest hreq
      have hreads : r.reads (.existsAnswered stat) = r := by simp [reads, hreq]
      obtain rfl := Option.some.inj hw
      cases stat with
      | true =>
        exact hplain hreads (by simp [RelationUnitWatcher.request, hreq, plain]) rfl rfl rfl rfl rfl
      | false => exact hplain hreads (by simp [hreq, plain]) rfl rfl rfl rfl rfl
    · rename_i u task rest hreq
      have hstat : stat = (r.versions u).isSome := by simpa [Truthful, hreq] using htrue
      subst hstat
      simp only [reads, hreq] at hcall
      rw [callBack_none r { r with
        answered := r.answered ++ [(u, r.versions u)], watcher := w }
        (by rw [← Option.some.inj hw]) (le_refl _)] at hcall
      obtain rfl := Except.ok.inj hcall
      exact answered_following r h u task rest w hreq (Option.some.inj hw).symm htoken
    · cases hw
  | namesAnswered =>
    simp only [RelationUnitWatcher.step] at hw
    split at hw
    · rename_i task oldUnits newUnits rest hreq
      exact names_following r r' h task oldUnits newUnits rest w hreq hone
        (Option.some.inj hw).symm htoken ht hcall
    · rename_i u rest hreq
      exact named_following r r' h u rest w hreq (Option.some.inj hw).symm htoken ht hcall
    · cases hw
  | membersDone i =>
    simp only [RelationUnitWatcher.step] at hw
    split at hw
    · obtain rfl := Option.some.inj hw
      exact hplain rfl rfl rfl rfl rfl rfl rfl
    · cases hw
  | settingsTracked i =>
    simp only [RelationUnitWatcher.step] at hw
    split at hw
    · cases hw
    · rename_i u task stat hi
      split at hw
      · cases hw
      · rename_i htask
        exact tracked_following r r' h i u task stat w hi htask (Option.some.inj hw).symm htoken ht
          hcall
  | settingsDone i =>
    simp only [RelationUnitWatcher.step] at hw
    split at hw
    · cases hw
    · rename_i u hi
      exact done_following r r' h i u w hi (Option.some.inj hw).symm htoken hcall
  | containerFired =>
    simp only [RelationUnitWatcher.step] at hw
    split at hw
    · cases hw
    · obtain rfl := Option.some.inj hw
      have hnot : ¬ r.watcher.stopped = some true := by simp [hrun]
      refine hplain rfl ?_ ?_ ?_ ?_ ?_ ?_
      all_goals rw [RelationUnitWatcher.cbContainerChildChange, if_neg hnot]
      all_goals simp [RelationUnitWatcher.request, plain]
  | containerCreated =>
    simp only [RelationUnitWatcher.step] at hw
    split at hw
    · cases hw
    · obtain rfl := Option.some.inj hw
      exact hplain rfl (by simp [RelationUnitWatcher.request, plain]) rfl rfl rfl rfl rfl
  | settingsFired i =>
    simp only [RelationUnitWatcher.step] at hw
    split at hw
    · cases hw
    · rename_i u hi
      exact fired_following r r' h i u w hrun hi (Option.some.inj hw).symm htoken hcall

theorem step_following (h : r.Following interested) (e : RelationEvent U)
    (hfine : Undisturbed interested r e) (hs : r.step interested e = some r') :
    r'.Following interested := by
  have hsame (u : U) (n : Nat) (hn : r.versions u = some n) :
      ∃ n', r.versions u = some n' ∧ n ≤ n' := ⟨n, hn, le_refl n⟩
  cases e with
  | container =>
    simp only [step] at hs
    split at hs
    · rename_i hnone
      obtain rfl := Option.some.inj hs
      refine outside_following r h (some ∅) r.changes r.versions hsame (by simp) ?_
        (fun hno => by cases hno)
      exact Or.inl ⟨by simp [children, hnone], rfl⟩
    · cases hs
  | writes u =>
    simp only [step] at hs
    obtain rfl := Option.some.inj hs
    refine outside_following r h r.container r.changes _ ?_ (fun v hv => Or.inl hv)
      (Or.inl ⟨rfl, rfl⟩) id
    intro v n hn
    by_cases hv : v = u
    · subst hv
      exact ⟨n + 1, by simp [hn, nextVersion], by omega⟩
    · exact ⟨n, by simp [hv, hn], le_refl n⟩
  | joins u =>
    simp only [step] at hs
    split at hs
    · rename_i hjoins
      obtain rfl := Option.some.inj hs
      refine outside_following r h _ (r.changes + 1) r.versions hsame ?_ (Or.inr (by omega))
        (fun hno => by cases hno)
      intro v hv
      rcases Finset.mem_insert.mp hv with rfl | hv
      · exact Or.inr (Option.isSome_iff_exists.mp hjoins.2.1)
      · exact Or.inl hv
    · cases hs
  | leaves u =>
    simp only [step] at hs
    split at hs
    · obtain rfl := Option.some.inj hs
      exact outside_following r h _ (r.changes + 1) r.versions hsame
        (fun v hv => Or.inl (Finset.mem_of_mem_erase hv)) (Or.inr (by omega))
        (fun hno => by cases hno)
    · cases hs
  | watcher e => exact watcher_following r r' h e hfine hs
  | scheduler e =>
    have hdelivered (he : ¬ e.isCallback) (hd : (r.deliver e).toOption = some r') :
        r'.Following interested := by
      cases hr : r.deliver e with
      | error err => simp [hr, Except.toOption] at hd
      | ok r₁ =>
        obtain rfl : r₁ = r' := by simpa [hr, Except.toOption] using hd
        exact loop_following r r₁ e h he hr
    cases e with
    | members newUnits => cases hs
    | settings unitVersions => cases hs
    | run => exact hdelivered id hs
    | hookEnds success => exact hdelivered id hs
    | stop => exact hdelivered id hs
  | restarts =>
    obtain rfl := Option.some.inj hs
    exact restart_following r h

theorem reachable_following (h : Reachable (fun r => r = fresh) (step interested)
    (Undisturbed interested) r) : r.Following interested := by
  refine reachable_invariant (Following interested) ?_ ?_ r h
  · intro r hr
    obtain rfl : r = fresh := hr
    exact fresh_following interested
  · intro r r' e hr he hs
    exact step_following r r' hr e he hs

/-- With nothing under way, the version that the scheduler knows of a unit's settings is theirs,
and the unit's last hook has begun since. -/
theorem rest_shown (hshowing : r.Showing) (hpassed : r.Passed) (hrest : r.AtRest) (u : U)
    (hu : u ∈ r.session.current) (htracked : r.Tracked u) :
    ∃ v, r.versions u = some v ∧ r.shown u = some v := by
  have hnotifying : r.notifying = [] := by
    have hlist := hpassed.notifying
    rw [hrest.quiet.notifying] at hlist
    exact List.map_eq_nil_iff.mp hlist.symm
  cases htracked with
  | requested t hway =>
    rw [hrest.quiet.requests] at hway
    cases hway
  | answered x hx =>
    have hlist := hpassed.answered
    rw [hrest.quiet.answered] at hlist
    rw [List.map_eq_nil_iff.mp hlist.symm] at hx
    cases hx
  | named v hv =>
    have hlist := hpassed.named
    rw [hrest.quiet.requests] at hlist
    rw [List.map_eq_nil_iff.mp hlist.symm] at hv
    cases hv
  | told v k hv hk hle =>
    have hwatched : (u, some v) ∈ r.watched := by
      rcases hv with hv | hv
      · rw [hnotifying] at hv
        cases hv
      · exact hv
    have hversion : r.versions u = some v := hrest.settings _ hwatched
    obtain ⟨n, hn, hkn⟩ := hshowing.known u k hk
    obtain rfl := Option.some.inj (hn.symm.trans hversion)
    rcases hshowing.due u hu with ⟨q, hq, -⟩ | ⟨v', k', hv', hk', hle'⟩
    · simp [Session.notBegun, hrest.queue] at hq
    · obtain rfl := Option.some.inj (hk'.symm.trans hk)
      obtain ⟨n', hn', hvn'⟩ := hshowing.recent u v' hv'
      obtain rfl := Option.some.inj (hn'.symm.trans hversion)
      have hsame : v' = n' := by omega
      exact ⟨n', hversion, hsame ▸ hv'⟩

theorem rest_delivered (h : r.Following interested) (hrest : r.AtRest) :
    r.Delivered interested := by
  obtain ⟨hshowing, hpassed, hfollowed, hcovered, htoken⟩ := h
  have hnames : ¬ r.NamesPending := by
    rintro ⟨t, oldUnits, newUnits, hin⟩
    simp [hrest.quiet.requests] at hin
  obtain ⟨-, hone⟩ : r.watcher.stopped = some false ∧ r.watcher.containerTokens = 1 := by
    rcases htoken with hnew | hrunning
    · have hstarted := hrest.started
      simp [hnew, RelationUnitWatcher.constructed] at hstarted
    · exact hrunning
  simp only [RelationUnitWatcher.containerTokens, hrest.quiet.requests, hrest.quiet.calling,
    List.countP_nil, List.length_nil, Nat.zero_add] at hone
  have hunits (u : U) : u ∈ r.watcher.units ↔ u ∈ r.children ∧ interested u := by
    by_cases hcreation : r.watcher.creationWatches = 0
    · have hread := hrest.container (by omega)
      exact (hfollowed.read _ hread).2 rfl u
    · have hnone := hrest.creation hcreation
      simp [hfollowed.absent hnone, children, hnone]
  have hpresent (u : U) : u ∈ present r.session.history ↔ u ∈ r.session.current := by
    have hqueued := hshowing.inv.told.queue.queued
    have hempty : r.session.scheduler.runQueue.pending = [] := hrest.queue
    rw [show ({ r.session.scheduler with
        contextMembers := some (r.session.scheduler.contextMembers.getD []) } :
          HookScheduler U).runQueue.pending = [] from hempty] at hqueued
    rw [show present r.session.history = r.session.current.toFinset from hqueued,
      List.mem_toFinset]
  refine ⟨fun u hu hi => ?_, fun hcalls u hu => ?_⟩
  · have hmember := (hunits u).mpr ⟨hu, hi⟩
    rcases hcovered u hmember with ⟨t, oldUnits, newUnits, hin, -⟩ | ⟨hcurrent, htracked⟩
    · exact absurd ⟨t, oldUnits, newUnits, hin⟩ hnames
    · exact ⟨(hpresent u).mpr hcurrent, rest_shown r hshowing hpassed hrest u hcurrent htracked⟩
  · exact (hunits u).mp ((hfollowed.called hnames hcalls u).mp ((hpresent u).mp hu))

end WatchedRelation

end Juju.Hooks

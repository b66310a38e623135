import Juju.Hooks.WatchedRelation
import Juju.State.ContainerToken

namespace Juju.Hooks
open Juju.Base
open Juju.State (RelationUnitWatcher WatcherEvent WatcherRequest)

variable {U : Type} [LinearOrder U]

namespace WatchedRelation

/-- The settings of the unit have had the version. -/
def Had (r : WatchedRelation U) (u : U) (v : Int) : Prop := ∃ n, r.versions u = some n ∧ v ≤ n

/-- The scheduler knows no version that the settings have not had, and is to show each member, or
has shown it since the version that it knows. -/
structure Showing (r : WatchedRelation U) : Prop where
  inv : SessionInv r.session
  known : ∀ u k, r.session.scheduler.memberVersions.lookup u = some k → r.Had u k
  recent : ∀ u v, r.shown u = some v → r.Had u v
  due : ∀ u ∈ r.session.current, r.session.Due u ∨ ∃ v k, r.shown u = some v ∧
    r.session.scheduler.memberVersions.lookup u = some k ∧ k ≤ (v : Int)

section delivering

variable (r r' : WatchedRelation U)

theorem deliver_cases (e : SessionEvent U) (h : r.deliver e = .ok r') :
    ∃ session shown, r.session.step e = .ok session ∧
      r' = { r with session := session, shown := shown } ∧
      (∀ u, shown u = r.shown u ∨ shown u = r.versions u) ∧
      ∀ c, r.session.begun session e = some c → c.changeType ≠ .departed →
        shown c.unitName = r.versions c.unitName := by
  simp only [deliver, bind, Except.bind] at h
  split at h
  · cases h
  · rename_i session hs
    obtain rfl := Except.ok.inj h
    refine ⟨session, _, hs, rfl, ?_, ?_⟩
    · intro u
      cases hb : r.session.begun session e with
      | none => exact Or.inl rfl
      | some c =>
        by_cases hc : c.changeType = .departed
        · simp [hc]
        · by_cases hu : u = c.unitName
          · subst hu
            simp [hc]
          · simp [hc, hu]
    · intro c hb hc
      simp [hb, hc]

/-- What an event of the scheduler keeps, once it is known what it does to each member. -/
theorem deliver_showing (e : SessionEvent U) (h : r.Showing) (hd : r.deliver e = .ok r')
    (hinv : SessionInv r'.session)
    (hknown : ∀ u k, r'.session.scheduler.memberVersions.lookup u = some k → r.Had u k)
    (hshows : ∀ u ∈ r'.session.current, r.session.Shows r'.session e u ∨ u ∈ r.session.current ∧
      (r.session.Due u → r.session.Shows r'.session e u) ∧
      r'.session.scheduler.memberVersions.lookup u =
        r.session.scheduler.memberVersions.lookup u) : r'.Showing := by
  obtain ⟨session, shown, -, rfl, hshown, hbegun⟩ := deliver_cases r r' e hd
  have hanswered (u : U) (hu : u ∈ session.current) (hs : r.session.Shows session e u) :
      session.Due u ∨ ∃ v k, shown u = some v ∧
        session.scheduler.memberVersions.lookup u = some k ∧ k ≤ (v : Int) := by
    rcases hs with hdue | ⟨c, hc, rfl, hct⟩
    · exact Or.inl hdue
    · obtain ⟨k, hk⟩ := (Dict.mem_iff_lookup _ _).mp ((hinv.versions c.unitName).mpr hu)
      obtain ⟨n, hn, hle⟩ := hknown c.unitName k hk
      exact Or.inr ⟨n, k, (hbegun c hc hct).trans hn, hk, hle⟩
  refine ⟨hinv, hknown, ?_, ?_⟩
  · intro u v hv
    rcases hshown u with hsame | hnow
    · exact h.recent u v (hsame ▸ hv)
    · exact ⟨v, hnow ▸ hv, le_refl _⟩
  · intro u hu
    rcases hshows u hu with hs | ⟨hold, hs, hlookup⟩
    · exact hanswered u hu hs
    · rcases h.due u hold with hdue | ⟨v, k, hv, hk, hle⟩
      · exact hanswered u hu (hs hdue)
      · rcases hshown u with hsame | hnow
        · exact Or.inr ⟨v, k, hsame.trans hv, hlookup.trans hk, hle⟩
        · obtain ⟨n, hn, hvn⟩ := h.recent u v hv
          exact Or.inr ⟨n, k, hnow.trans hn, hlookup.trans hk, by omega⟩

omit [LinearOrder U] in
theorem current_nil [LinearOrder U] (s : Session U) (h : SessionInv s)
    (hnone : s.scheduler.contextMembers = none) : s.current = [] := by
  obtain ⟨ms, hms, -, hmem⟩ := h.told.members
  obtain rfl : [] = ms := by simpa [hnone] using hms
  exact List.eq_nil_iff_forall_not_mem.mpr (by simpa using hmem)

/-- The old units that come with a membership matter to a scheduler without members alone. -/
theorem members_old (s : Session U) (oldUnits newUnits : List U) (h : SessionInv s)
    (hold : ∀ u ∈ oldUnits, u ∈ s.current) :
    Session.step { s with current := sorted oldUnits } (.members newUnits) =
      s.step (.members newUnits) := by
  have hsame : cbChangeMembers s.scheduler (sorted oldUnits) newUnits =
      cbChangeMembers s.scheduler s.current newUnits := by
    cases hc : s.scheduler.contextMembers with
    | none =>
      have hnil := current_nil s h hc
      rw [hnil] at hold
      obtain rfl := List.eq_nil_iff_forall_not_mem.mpr fun u hu => List.not_mem_nil (hold u hu)
      rw [hnil]
      rfl
    | some ms => simp only [cbChangeMembers, hc, Option.getD_some]
  simp only [Session.step, hsame]

theorem deliver_members (oldUnits newUnits : List U) (h : r.Showing)
    (hold : ∀ u ∈ oldUnits, u ∈ r.session.current)
    (hnew : ∀ u ∈ newUnits, r.Had u 0) (ht : Timely r.session (.members (sorted newUnits)))
    (hloop : r.session.InLoop)
    (hd : { r with session := { r.session with current := sorted oldUnits } }.deliver
      (.members (sorted newUnits)) = .ok r') :
    r'.Showing ∧ r'.session.current = sorted newUnits ∧
      ∀ u ∈ newUnits, u ∈ r.session.current → r'.session.scheduler.memberVersions.lookup u =
        r.session.scheduler.memberVersions.lookup u := by
  have hd' : r.deliver (.members (sorted newUnits)) = .ok r' := by
    rw [← hd]
    simp only [deliver, members_old r.session oldUnits _ h.inv hold]
    rfl
  obtain ⟨session, shown, hs, rfl, -⟩ := deliver_cases r r' _ hd'
  obtain ⟨s₁, hs₁, hinv, -, hcurrent, -⟩ := members_inv r.session (sorted newUnits) h.inv ht
  obtain rfl := Except.ok.inj (hs₁.symm.trans hs)
  have hshows (u : U) (hu : u ∈ newUnits) :=
    members_shows r.session s₁ u (sorted newUnits) h.inv hloop ht hs ((mem_sorted newUnits u).mpr hu)
  refine ⟨deliver_showing r _ _ h hd' hinv ?_ ?_, hcurrent, fun u hu hin => ((hshows u hu).1 hin).2⟩
  · intro u k hk
    have hu : u ∈ newUnits := by
      have hin := (hinv.versions u).mp ((Dict.mem_iff_lookup _ _).mpr ⟨k, hk⟩)
      rwa [hcurrent, mem_sorted] at hin
    by_cases hin : u ∈ r.session.current
    · exact h.known u k (((hshows u hu).1 hin).2.symm.trans hk)
    · obtain rfl := Option.some.inj (((hshows u hu).2 hin).2.symm.trans hk)
      exact hnew u hu
  · intro u hu
    have hu : u ∈ newUnits := by
      rwa [hcurrent, mem_sorted] at hu
    by_cases hin : u ∈ r.session.current
    · exact Or.inr ⟨hin, (hshows u hu).1 hin⟩
    · exact Or.inl ((hshows u hu).2 hin).1

theorem deliver_settings (u : U) (v : Int) (h : r.Showing) (hv : r.Had u v)
    (ht : Timely r.session (.settings [(u, v)])) (hloop : r.session.InLoop)
    (hd : r.deliver (.settings [(u, v)]) = .ok r') :
    r'.Showing ∧ r'.session.current = r.session.current ∧
      (∀ w k, r.session.scheduler.memberVersions.lookup w = some k →
        ∃ k', r'.session.scheduler.memberVersions.lookup w = some k' ∧ k ≤ k') ∧
      (u ∈ r.session.current →
        ∃ k, r'.session.scheduler.memberVersions.lookup u = some k ∧ v ≤ k) := by
  obtain ⟨session, shown, hs, rfl, -⟩ := deliver_cases r r' _ hd
  obtain ⟨s₁, hs₁, hinv, -, hcurrent, -⟩ := settings_inv r.session [(u, v)] h.inv ht
  obtain rfl := Except.ok.inj (hs₁.symm.trans hs)
  obtain ⟨hdue, hothers, hown⟩ := settings_shows r.session s₁ u v h.inv hloop ht hs
  have hgrows (w : U) (k : Int) (hk : r.session.scheduler.memberVersions.lookup w = some k) :
      ∃ k', s₁.scheduler.memberVersions.lookup w = some k' ∧ k ≤ k' := by
    by_cases hw : w = u
    · subst hw
      rcases hown with ⟨hnew, -, hlookup⟩ | ⟨-, hlookup⟩
      · rw [hk, Option.getD_some] at hnew
        exact ⟨v, hlookup, hnew.le⟩
      · exact ⟨k, hlookup.trans hk, le_refl k⟩
    · exact ⟨k, (hothers w hw).trans hk, le_refl k⟩
  refine ⟨deliver_showing r _ _ h hd hinv ?_ ?_, hcurrent, hgrows, ?_⟩
  · intro w k hk
    by_cases hw : w = u
    · subst hw
      rcases hown with ⟨-, -, hlookup⟩ | ⟨-, hlookup⟩
      · obtain rfl := Option.some.inj (hlookup.symm.trans hk)
        exact hv
      · exact h.known w k (hlookup.symm.trans hk)
    · exact h.known w k ((hothers w hw).symm.trans hk)
  · intro w hw
    rw [hcurrent] at hw
    by_cases hwu : w = u
    · subst hwu
      rcases hown with ⟨-, hs, -⟩ | ⟨-, hlookup⟩
      · exact Or.inl hs
      · exact Or.inr ⟨hw, hdue w, hlookup⟩
    · exact Or.inr ⟨hw, hdue w, hothers w hwu⟩
  · intro hu
    rcases hown with ⟨-, -, hlookup⟩ | ⟨hold, hlookup⟩
    · exact ⟨v, hlookup, le_refl v⟩
    · obtain ⟨k, hk⟩ := (Dict.mem_iff_lookup _ _).mp ((h.inv.versions u).mpr hu)
      rw [hk, Option.getD_some] at hold
      exact ⟨k, hlookup.trans hk, hold⟩

theorem deliver_loop (e : SessionEvent U) (h : r.Showing) (he : ¬ e.isCallback)
    (hd : r.deliver e = .ok r') :
    r'.Showing ∧ r'.session.current = r.session.current ∧
      r'.session.scheduler.memberVersions = r.session.scheduler.memberVersions := by
  obtain ⟨session, shown, hs, rfl, -⟩ := deliver_cases r r' _ hd
  have ht : Timely r.session e := by
    cases e with
    | members newUnits => exact absurd trivial he
    | settings unitVersions => exact absurd trivial he
    | run => trivial
    | hookEnds success => trivial
    | stop => trivial
  obtain ⟨s₁, hs₁, hinv⟩ := step_inv r.session e h.inv ht
  obtain rfl := Except.ok.inj (hs₁.symm.trans hs)
  obtain ⟨hdue, hversions, hcurrent⟩ := loop_shows r.session s₁ e h.inv he hs
  refine ⟨deliver_showing r _ _ h hd hinv ?_ ?_, hcurrent, hversions⟩
  · intro u k hk
    rw [hversions] at hk
    exact h.known u k hk
  · intro u hu
    exact Or.inr ⟨hcurrent ▸ hu, hdue u, by rw [hversions]⟩

end delivering

/-- A new process finds in the state file what the old one knew, and all hooks still to come. -/
theorem reload_session (s : Session U) (h : SessionInv s) :
    SessionInv (reload s) ∧
      (reload s).scheduler.memberVersions = s.scheduler.memberVersions ∧
      ∀ u, s.Due u → (reload s).Due u := by
  unfold reload
  rw [h.file]
  cases hc : s.scheduler.contextMembers with
  | none =>
    obtain ⟨hhistory, hpending⟩ := h.fresh hc
    have hnil := current_nil s h hc
    have hempty : s.scheduler.memberVersions = ∅ := by
      refine AList.ext (List.eq_nil_iff_forall_not_mem.mpr fun e he => ?_)
      have hin : e.1 ∈ s.scheduler.memberVersions :=
        (Dict.mem_iff_lookup _ _).mpr ⟨e.2, (Dict.mem_entries_iff _ e).mp he⟩
      simp [h.versions, hnil] at hin
    have hsnap : snapshot s.scheduler = none := by simp [snapshot, hc]
    rw [hsnap]
    refine ⟨?_, hempty.symm, fun u hdue => ?_⟩
    · have hfresh := freshSession_inv (U := U)
      simpa only [freshSession, hhistory, hnil, loadState] using hfresh
    · obtain ⟨q, hq, -⟩ := hdue
      simp [Session.notBegun, hpending] at hq
  | some ms =>
    have ht := inv_told s h (by simp [hc])
    obtain ⟨ms', hms', hnodup, hmem⟩ := ht.members
    obtain rfl : ms = ms' := by simpa [hc] using hms'
    have hsnap : snapshot s.scheduler =
        some ⟨sorted ms, s.scheduler.memberVersions, s.scheduler.runQueue.pending⟩ := by
      simp [snapshot, hc]
    rw [hsnap]
    refine ⟨told_inv _ none s.current s.history
      ⟨⟨_, rfl, sorted_nodup ms hnodup, by simpa using hmem⟩, ht.queue, fun hw => absurd rfl hw⟩
      h.versions ?_ (by simp) (by simp [loadState]), rfl, fun u hdue => ?_⟩
    · have hsorted : sorted (sorted ms) = sorted ms :=
        (List.pairwise_insertionSort (· ≤ ·) ms).insertionSort_eq
      simp [loadState, snapshot, hsorted]
    · obtain ⟨q, hq, hqu⟩ := hdue
      have hin : q ∈ s.scheduler.runQueue.pending := by
        unfold Session.notBegun at hq
        split at hq
        · exact List.mem_of_mem_tail hq
        · exact hq
      exact ⟨q, by simpa [Session.notBegun, loadState] using hin, hqu⟩

theorem restart_showing (r : WatchedRelation U) (h : r.Showing) : r.restart.Showing := by
  obtain ⟨hinv, hversions, hdue⟩ := reload_session r.session h.inv
  refine ⟨hinv, fun u k hk => h.known u k (hversions ▸ hk), h.recent, fun u hu => ?_⟩
  rcases h.due u hu with hold | ⟨v, k, hv, hk, hle⟩
  · exact Or.inl (hdue u hold)
  · exact Or.inr ⟨v, k, hv, (congrArg (fun d => AList.lookup u d) hversions).trans hk, hle⟩

end WatchedRelation

end Juju.Hooks

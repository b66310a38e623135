import Juju.Unit.KnownRelationsCallback

namespace Juju.Unit.KnownRelations
open Juju.Base

variable {R : Type} [DecidableEq R] {isPrincipal : Bool} {isContainer : R → Bool}
  (s s' : UnitRelations R)

section process

variable (p : AgentProcess R) (h : Sound isPrincipal isContainer s) (hp : s.process = some p)
include h hp

omit [DecidableEq R] in
/-- The watch reads the topology when the callback has come to its end. -/
theorem sound_observe (hwaits : UnitRelations.waits p) :
    Sound isPrincipal isContainer
      (s.setProcess { p with seen := some s.current, observed := some s.current }) := by
  obtain ⟨hworking, hload, hstop, hremoved, hadded, hobserved⟩ := hwaits
  have hw : p.working = none := Option.isNone_iff_eq_none.mp hworking
  have hproc := h.process p hp
  have hl := hproc.lists
  refine sound_setProcess s p _ h hp ⟨⟨?_, hl.file, hl.kept, hl.toLoad, ?_, hl.addedOnce, hl.added,
    hl.removedOnce, hl.removed, ?_, ?_, ?_⟩, ?_, ?_, hproc.pending⟩ rfl
  · rintro x (hx | hx | ⟨l, hl', hx⟩)
    · exact hl.known x (Or.inl hx)
    · exact hl.known x (Or.inr (Or.inl hx))
    · obtain rfl := Option.some.inj hl'
      exact Or.inl hx
  · intro x hx hlive
    rcases hl.covered x hx hlive with (hin | hin | ⟨l, hl', -⟩) | hmore
    · exact Or.inl (Or.inl hin)
    · exact Or.inl (Or.inr (Or.inl hin))
    · rw [hobserved] at hl'
      cases hl'
    · exact Or.inr hmore
  · intro l _ hnone
    cases hnone
  · intro l hl'
    obtain rfl := Option.some.inj hl'
    refine ⟨rfl, hremoved, hadded, ?_, ?_⟩
    · intro x hx hout
      exact (hl.known x (Or.inl hx)).resolve_left hout
    · intro x hx hend
      exact h.filed.apart x hx (h.filed.ended x hend)
  · rintro (hne | ⟨x, hx⟩)
    · exact absurd hload hne
    · rw [show p.working = none from hw] at hx
      cases hx
  · intro x task hx
    rw [show p.working = none from hw] at hx
    cases hx
  · intro e he
    have hbusy := hproc.busy e he
    exact ⟨hbusy.relation, hbusy.free, hbusy.transition, hbusy.state, hbusy.undeparted⟩

omit [DecidableEq R] h hp in
/-- What is still to be added of the subordinate units gets less. -/
theorem processSound_pending (hproc : ProcessSound s p) (pending : List R) (subordinates : R → Nat)
    (hpending : ∀ x ∈ pending, x ∈ p.pending)
    (hsame : ∀ x ∈ pending, subordinates x = s.subordinates x) :
    ProcessSound { s with subordinates := subordinates } { p with pending := pending } := by
  obtain ⟨⟨h1, h2, h3, h4, h5, h6, h7, h8, h9, h10, h11, h12⟩, hwork, hbusy, hold⟩ := hproc
  refine ⟨⟨h1, h2, h3, h4, h5, h6, h7, h8, h9, h10, h11, h12⟩, ?_, ?_, ?_⟩
  · intro x task hx
    have hsound := hwork x task hx
    cases task <;> exact hsound
  · exact fun e he => ⟨(hbusy e he).relation, (hbusy e he).free, (hbusy e he).transition,
      (hbusy e he).state, (hbusy e he).undeparted⟩
  · intro x hx
    obtain ⟨hzero, hor⟩ := hold x (hpending x hx)
    exact ⟨(hsame x hx).trans hzero, hor⟩

/-- The unit is the first that is added for the relation. -/
theorem sound_added (r : R) (hin : r ∈ p.pending) (pending : List R)
    (hpending : ∀ x, x ∈ pending ↔ x ∈ p.pending ∧ x ≠ r) :
    Sound isPrincipal isContainer { s.setProcess { p with pending := pending } with
      subordinates := Function.update s.subordinates r (s.subordinates r + 1) } := by
  have hproc := h.process p hp
  obtain ⟨hzero, hor⟩ := hproc.pending r hin
  have hself : Function.update s.subordinates r (s.subordinates r + 1) r = 1 := by
    rw [Function.update_self, hzero]
  have hother (x : R) (hx : x ≠ r) :
      Function.update s.subordinates r (s.subordinates r + 1) x = s.subordinates x :=
    Function.update_of_ne hx ..
  refine ⟨⟨h.filed.apart, h.filed.ended, h.filed.broken, h.filed.fresh, h.filed.stored, ?_, ?_⟩,
    ?_, ?_, ?_⟩
  · intro x
    by_cases hx : x = r
    · rw [hx]
      exact Nat.le_of_eq hself
    · exact Nat.le_trans (Nat.le_of_eq (hother x hx)) (h.filed.once x)
  · intro x hx hlive
    have hxr : x ≠ r := by
      rintro rfl
      rcases hor with hstored | hdeparted
      · exact hx hstored
      · exact hlive hdeparted
    exact (hother x hxr).trans (h.filed.unadded x hx hlive)
  · intro hnone
    cases hnone
  · intro q hq
    obtain rfl := Option.some.inj hq
    have hsound := processSound_pending s p hproc pending
      (Function.update s.subordinates r (s.subordinates r + 1))
      (fun x hx => ((hpending x).mp hx).1) (fun x hx => hother x ((hpending x).mp hx).2)
    exact processSound_setProcess _ _ _ hsound
  · intro hprincipal x hx hcontainer hcurrent
    by_cases hxr : x = r
    · rw [hxr]
      exact Or.inl hself
    · rcases h.subordinate hprincipal x hx hcontainer hcurrent with hone | ⟨q, hq, hmem⟩
      · exact Or.inl ((hother x hxr).trans hone)
      · obtain rfl := Option.some.inj (hp.symm.trans hq)
        exact Or.inr ⟨_, rfl, (hpending x).mpr ⟨hmem, hxr⟩⟩

theorem sound_addSubordinate (r : R) (hs : s.addSubordinate p r = some s') :
    Sound isPrincipal isContainer s' := by
  have hproc := h.process p hp
  have hpending (x : R) : x ∈ p.pending.filter (· ≠ r) ↔ x ∈ p.pending ∧ x ≠ r := by
    rw [List.mem_filter]
    simp
  unfold UnitRelations.addSubordinate at hs
  split at hs
  · rename_i hin
    dsimp only at hs
    split at hs
    · obtain rfl := Option.some.inj hs
      exact sound_added s p h hp r hin _ hpending
    · rename_i hgone
      obtain rfl := Option.some.inj hs
      refine ⟨⟨h.filed.apart, h.filed.ended, h.filed.broken, h.filed.fresh, h.filed.stored,
        h.filed.once, h.filed.unadded⟩, ?_, ?_, ?_⟩
      · intro hnone
        cases hnone
      · intro q hq
        obtain rfl := Option.some.inj hq
        apply processSound_setProcess
        exact processSound_pending s p hproc _ s.subordinates
          (fun x hx => ((hpending x).mp hx).1) fun _ _ => rfl
      · intro hprincipal x hx hcontainer hcurrent
        rcases h.subordinate hprincipal x hx hcontainer hcurrent with hone | ⟨q, hq, hmem⟩
        · exact Or.inl hone
        · obtain rfl := Option.some.inj (hp.symm.trans hq)
          have hxr : x ≠ r := by
            rintro rfl
            exact hgone hcurrent
          exact Or.inr ⟨_, rfl, (hpending x).mpr ⟨hmem, hxr⟩⟩
  · cases hs

end process

section environment

variable (h : Sound isPrincipal isContainer s)
include h

omit h in
/-- A change of the service's relations keeps what is said of a process, when no relation is lost
and the one that goes has been taken up. -/
theorem processSound_service (p : AgentProcess R) (hproc : ProcessSound s p) (current gone : List R)
    (hgone : ∀ x ∈ s.gone, x ∈ gone) (hknown : ∀ x ∈ s.current, x ∈ current ∨ x ∈ gone)
    (hcovered : ∀ x ∈ s.current, x ∉ current → s.Started x →
      UnitRelations.TakenUp p x ∨ x ∈ p.toLoad ∨ p.working = some (x, .depart)) :
    ProcessSound { s with current := current, gone := gone } p := by
  obtain ⟨hl, hwork, hbusy, hpending⟩ := hproc
  have hboth (x : R) (hx : x ∈ s.current ∨ x ∈ s.gone) : x ∈ current ∨ x ∈ gone :=
    hx.elim (hknown x) fun hg => Or.inr (hgone x hg)
  refine ⟨⟨fun x hx => hboth x (hl.known x hx), hl.file, hl.kept, hl.toLoad, ?_, hl.addedOnce,
    hl.added, hl.removedOnce, ?_, hl.view, ?_, hl.loading⟩, ?_, ?_, hpending⟩
  · intro x hx hlive
    rcases hl.covered x hx hlive with hin | hin | hin | hin
    · exact Or.inl hin
    · exact Or.inr (Or.inl hin)
    · exact Or.inr (Or.inr (Or.inl hin))
    · by_cases hstays : x ∈ current
      · exact Or.inr (Or.inr (Or.inr hstays))
      · exact (hcovered x hin hstays hx).imp_right fun hor => hor.imp_right Or.inl
  · exact fun x hx => ⟨(hl.removed x hx).1, hgone x (hl.removed x hx).2⟩
  · intro l hl'
    obtain ⟨hseen, hremoved, hadded, hout, hlive⟩ := hl.observed l hl'
    exact ⟨hseen, hremoved, hadded, fun x hx hxl => hgone x (hout x hx hxl), hlive⟩
  · intro x task hx
    have hsound := hwork x task hx
    cases task with
    | load => exact hsound
    | add => exact hsound
    | depart =>
      obtain ⟨⟨hrel, hg, hmore⟩, hrest⟩ := hsound
      exact ⟨⟨hrel, hgone x hg, hmore⟩, hrest⟩
  · exact fun e he => ⟨(hbusy e he).relation, (hbusy e he).free, (hbusy e he).transition,
      (hbusy e he).state, (hbusy e he).undeparted⟩

theorem sound_addRelation (r : R) (hr : r ∉ s.gone) (hnew : r ∉ s.current) :
    Sound isPrincipal isContainer { s with current := r :: s.current } := by
  have hin (x : R) (hx : x ∈ s.current) : x ∈ r :: s.current := List.mem_cons_of_mem r hx
  refine ⟨⟨?_, h.filed.ended, h.filed.broken, h.filed.fresh, ?_, h.filed.once, h.filed.unadded⟩,
    ?_, ?_, ?_⟩
  · intro x hx
    rcases List.mem_cons.mp hx with rfl | hx
    · exact hr
    · exact h.filed.apart x hx
  · exact fun x hx => ⟨(h.filed.stored x hx).1, (h.filed.stored x hx).2.imp_left (hin x)⟩
  · exact fun hnone x hx hlive => (h.down hnone x hx hlive).imp_right (hin x)
  · intro p hp
    exact processSound_service s p (h.process p hp) _ s.gone (fun _ hg => hg)
      (fun x hx => Or.inl (hin x hx)) (fun x hx hout => absurd (hin x hx) hout)
  · intro hprincipal x hx hcontainer hcurrent
    rcases List.mem_cons.mp hcurrent with rfl | hcurrent
    · rcases (h.filed.stored x hx).2 with hc | hg
      · exact absurd hc hnew
      · exact absurd hg hr
    · exact h.subordinate hprincipal x hx hcontainer hcurrent

theorem sound_removeRelation (r : R) (hfine : s.Undisturbed isContainer (.removeRelation r)) :
    Sound isPrincipal isContainer
      { s with current := s.current.filter (· ≠ r), gone := r :: s.gone } := by
  have hcurrent (x : R) : x ∈ s.current.filter (· ≠ r) ↔ x ∈ s.current ∧ x ≠ r := by
    rw [List.mem_filter]
    simp
  have hgone (x : R) (hx : x ∈ s.gone) : x ∈ r :: s.gone := List.mem_cons_of_mem r hx
  have hknown (x : R) (hx : x ∈ s.current) : x ∈ s.current.filter (· ≠ r) ∨ x ∈ r :: s.gone := by
    by_cases hxr : x = r
    · exact Or.inr (by simp [hxr])
    · exact Or.inl ((hcurrent x).mpr ⟨hx, hxr⟩)
  have hleft (x : R) (hx : x ∈ s.current) (hout : x ∉ s.current.filter (· ≠ r)) : x = r := by
    by_contra hxr
    exact hout ((hcurrent x).mpr ⟨hx, hxr⟩)
  refine ⟨⟨?_, ?_, h.filed.broken, h.filed.fresh, ?_, h.filed.once, h.filed.unadded⟩, ?_, ?_, ?_⟩
  · intro x hx hg
    obtain ⟨hin, hxr⟩ := (hcurrent x).mp hx
    rcases List.mem_cons.mp hg with hxr' | hg
    · exact hxr hxr'
    · exact h.filed.apart x hin hg
  · exact fun x hx => hgone x (h.filed.ended x hx)
  · exact fun x hx => ⟨(h.filed.stored x hx).1,
      (h.filed.stored x hx).2.elim (hknown x) fun hg => Or.inr (hgone x hg)⟩
  · intro hnone x hx hlive
    rcases h.down hnone x hx hlive with hstored | hin
    · exact Or.inl hstored
    · by_cases hxr : x = r
      · subst hxr
        refine Or.inl ((hfine hx).resolve_right ?_)
        rintro ⟨p, hp, -⟩
        rw [hnone] at hp
        cases hp
      · exact Or.inr ((hcurrent x).mpr ⟨hin, hxr⟩)
  · intro p hp
    refine processSound_service s p (h.process p hp) _ _ hgone hknown ?_
    intro x hx hout hstarted
    obtain rfl := hleft x hx hout
    rcases hfine hstarted with hstored | ⟨q, hq, htaken⟩
    · rcases (h.process p hp).lists.file x hstored with hin | hin | hin
      · exact Or.inl (Or.inl hin)
      · exact Or.inr (Or.inl hin)
      · exact Or.inr (Or.inr hin)
    · obtain rfl := Option.some.inj (hp.symm.trans hq)
      exact Or.inl htaken
  · intro hprincipal x hx hcontainer hin
    exact h.subordinate hprincipal x hx hcontainer ((hcurrent x).mp hin).1

/-- A death leaves what is on disk. -/
theorem sound_crash (p : AgentProcess R) (hp : s.process = some p)
    (hfine : s.Undisturbed isContainer .crash) : Sound isPrincipal isContainer { s with
      sides := fun r => ⟨(s.sides r).state, (s.sides r).inflight, false, false, false⟩
      process := none } := by
  obtain ⟨hpending, hdown⟩ := hfine p hp
  refine ⟨⟨h.filed.apart, h.filed.ended, h.filed.broken, h.filed.fresh, h.filed.stored,
    h.filed.once, h.filed.unadded⟩, fun _ => hdown, ?_, ?_⟩
  · intro q hq
    cases hq
  · intro hprincipal x hx hcontainer hcurrent
    rcases h.subordinate hprincipal x hx hcontainer hcurrent with hone | ⟨q, hq, hin⟩
    · exact Or.inl hone
    · obtain rfl := Option.some.inj (hp.symm.trans hq)
      exact absurd hcurrent (hpending x hin)

omit [DecidableEq R] in
/-- A process starts with the file that the one before has left. -/
theorem sound_start (hnone : s.process = none) :
    Sound isPrincipal isContainer (s.setProcess (newProcess s.current s.stored)) := by
  refine ⟨⟨h.filed.apart, h.filed.ended, h.filed.broken, h.filed.fresh, h.filed.stored,
    h.filed.once, h.filed.unadded⟩, ?_, ?_, ?_⟩
  · intro hnone'
    cases hnone'
  · intro q hq
    obtain rfl := Option.some.inj hq
    apply processSound_setProcess
    refine ⟨⟨?_, ?_, ?_, ?_, ?_, List.nodup_nil, ?_, List.nodup_nil, ?_, ?_, ?_, ?_⟩, ?_, ?_, ?_⟩
    · rintro x (hx | hx | ⟨l, hl, -⟩)
      · cases hx
      · cases hx
      · cases hl
    · exact fun x hx => Or.inr (Or.inl hx)
    · intro x hx
      cases hx
    · refine fun x hx => ⟨hx, fun hcurrent hend => ?_⟩
      exact h.filed.apart x hcurrent (h.filed.ended x hend)
    · intro x hx hlive
      rcases h.down hnone x hx hlive with hstored | hcurrent
      · exact Or.inr (Or.inl hstored)
      · exact Or.inr (Or.inr (Or.inr hcurrent))
    · intro x hx
      cases hx
    · intro x hx
      cases hx
    · intro l hl
      cases hl
    · intro l hl
      cases hl
    · exact fun _ => ⟨rfl, rfl, rfl, rfl⟩
    · intro x task hx
      cases hx
    · intro e he
      cases he
    · intro x hx
      cases hx
  · intro hprincipal x hx hcontainer hcurrent
    refine (h.subordinate hprincipal x hx hcontainer hcurrent).imp_right ?_
    rintro ⟨q, hq, -⟩
    rw [hnone] at hq
    cases hq

/-- One event, of the agent or of what is around it. -/
theorem sound_step (e : Event R) (hfine : s.Undisturbed isContainer e)
    (hs : s.step isPrincipal isContainer e = some s') : Sound isPrincipal isContainer s' := by
  cases e with
  | addRelation r =>
    simp only [UnitRelations.step] at hs
    split at hs
    · cases hs
    · rename_i hnew
      obtain rfl := Option.some.inj hs
      exact sound_addRelation s h r (fun hg => hnew (Or.inr hg)) (fun hc => hnew (Or.inl hc))
  | removeRelation r =>
    simp only [UnitRelations.step] at hs
    split at hs
    · obtain rfl := Option.some.inj hs
      exact sound_removeRelation s h r hfine
    · cases hs
  | crash =>
    obtain ⟨p, hp, rfl⟩ := Option.map_eq_some_iff.mp hs
    exact sound_crash s h p hp hfine
  | fire r t =>
    obtain ⟨p, hp, hnext⟩ := Option.bind_eq_some_iff.mp hs
    exact sound_fire s s' p h hp r t hnext
  | start =>
    simp only [UnitRelations.step] at hs
    split at hs
    · rename_i hnone
      obtain rfl := Option.some.inj hs
      exact sound_start s h hnone
    · cases hs
  | fired r starting =>
    obtain ⟨p, hp, hnext⟩ := Option.bind_eq_some_iff.mp hs
    exact sound_fired s s' p h hp r starting hnext
  | observe =>
    obtain ⟨p, hp, hnext⟩ := Option.bind_eq_some_iff.mp hs
    split at hnext
    · rename_i hwaits
      obtain rfl := Option.some.inj hnext
      exact sound_observe s p h hp hwaits.1
    · cases hnext
  | goOn found =>
    obtain ⟨p, hp, hnext⟩ := Option.bind_eq_some_iff.mp hs
    rw [UnitRelations.goOn, hfine p hp, if_neg Bool.false_ne_true] at hnext
    exact sound_proceed s s' p h hp hnext
  | addSubordinate r =>
    obtain ⟨p, hp, hnext⟩ := Option.bind_eq_some_iff.mp hs
    exact sound_addSubordinate s s' p h hp r hnext

end environment

section watching

/-- The process has the watch of the service's relations, or has still to make it. -/
def Watching : Prop := ∀ p, s.process = some p → p.watchless = false

variable (p p' : AgentProcess R)

omit [DecidableEq R] in
theorem watching_process (hp' : s.process = some p') (h : p'.watchless = false) : Watching s := by
  intro q hq
  obtain rfl := Option.some.inj (hp'.symm.trans hq)
  exact h

theorem proceed_watchless (hs : s.proceed isPrincipal isContainer p = some s') :
    ∃ p', s'.process = some p' ∧ p'.watchless = p.watchless := by
  unfold UnitRelations.proceed at hs
  split at hs
  · rename_i r task hw
    split at hs
    · obtain rfl := Option.some.inj hs
      exact ⟨_, rfl, rfl⟩
    · obtain rfl := Option.some.inj hs
      cases task with
      | load => exact ⟨_, rfl, rfl⟩
      | depart => exact ⟨_, rfl, rfl⟩
      | add => exact ⟨_, rfl, rfl⟩
  · dsimp only at hs
    split at hs
    · cases hs
    · split at hs
      · obtain rfl := Option.some.inj hs
        exact ⟨_, rfl, rfl⟩
      · obtain rfl := Option.some.inj hs
        exact ⟨_, rfl, rfl⟩
  · obtain rfl := Option.some.inj hs
    exact ⟨_, rfl, rfl⟩
  · split at hs
    · cases hs
    · obtain rfl := Option.some.inj hs
      exact ⟨_, rfl, rfl⟩
  · dsimp only at hs
    split at hs
    · cases hs
    · obtain rfl := Option.some.inj hs
      exact ⟨_, rfl, rfl⟩
  · obtain rfl := Option.some.inj hs
    exact ⟨_, rfl, rfl⟩
  · cases hs

/-- A transition of another task takes the watch away only when it raises in `start`, before the
watch is made. -/
theorem fired_watchless (r : R) (starting : Bool) (hw : p.watchless = false)
    (hfine : starting = true → p.seen = none → ∀ t, (r, t) ∈ p.busy → s.fails p r t = false)
    (hs : s.fired p r starting = some s') : ∃ p', s'.process = some p' ∧ p'.watchless = false := by
  unfold UnitRelations.fired at hs
  split at hs
  · cases hs
  · rename_i e hfind
    obtain rfl : e.1 = r := by simpa using List.find?_some hfind
    have hin : (e.1, e.2) ∈ p.busy := List.mem_of_find?_eq_some hfind
    dsimp only at hs
    split at hs
    · rename_i hfails
      obtain rfl := Option.some.inj hs
      refine ⟨_, rfl, ?_⟩
      have hlater : (starting && p.seen.isNone) = false := by
        by_contra hnow
        simp only [Bool.not_eq_false, Bool.and_eq_true, Option.isNone_iff_eq_none] at hnow
        rw [hfine hnow.1 hnow.2 e.2 hin] at hfails
        cases hfails
      simp [hw, hlater]
    · obtain rfl := Option.some.inj hs
      exact ⟨_, rfl, hw⟩

/-- One event, of the agent or of what is around it. -/
theorem watching_step (e : Event R) (h : Watching s) (hfine : s.Undisturbed isContainer e)
    (hs : s.step isPrincipal isContainer e = some s') : Watching s' := by
  cases e with
  | addRelation r =>
    simp only [UnitRelations.step] at hs
    split at hs
    · cases hs
    · obtain rfl := Option.some.inj hs
      exact h
  | removeRelation r =>
    simp only [UnitRelations.step] at hs
    split at hs
    · obtain rfl := Option.some.inj hs
      exact h
    · cases hs
  | crash =>
    obtain ⟨p, -, rfl⟩ := Option.map_eq_some_iff.mp hs
    intro q hq
    cases hq
  | fire r t =>
    obtain ⟨p, hp, hnext⟩ := Option.bind_eq_some_iff.mp hs
    unfold UnitRelations.fire at hnext
    split at hnext
    · obtain rfl := Option.some.inj hnext
      exact watching_process _ _ rfl (h p hp)
    · cases hnext
  | start =>
    simp only [UnitRelations.step] at hs
    split at hs
    · obtain rfl := Option.some.inj hs
      exact watching_process _ _ rfl rfl
    · cases hs
  | fired r starting =>
    obtain ⟨p, hp, hnext⟩ := Option.bind_eq_some_iff.mp hs
    obtain ⟨p', hp', hw⟩ := fired_watchless s s' p r starting (h p hp) (hfine p hp) hnext
    exact watching_process s' p' hp' hw
  | observe =>
    obtain ⟨p, hp, hnext⟩ := Option.bind_eq_some_iff.mp hs
    split at hnext
    · obtain rfl := Option.some.inj hnext
      exact watching_process _ _ rfl (h p hp)
    · cases hnext
  | goOn found =>
    obtain ⟨p, hp, hnext⟩ := Option.bind_eq_some_iff.mp hs
    rw [UnitRelations.goOn, hfine p hp, if_neg Bool.false_ne_true] at hnext
    obtain ⟨p', hp', hw⟩ := proceed_watchless s s' p hnext
    exact watching_process s' p' hp' (hw.trans (h p hp))
  | addSubordinate r =>
    obtain ⟨p, hp, hnext⟩ := Option.bind_eq_some_iff.mp hs
    unfold UnitRelations.addSubordinate at hnext
    split at hnext
    · dsimp only at hnext
      split at hnext
      · obtain rfl := Option.some.inj hnext
        exact watching_process _ _ rfl (h p hp)
      · obtain rfl := Option.some.inj hnext
        exact watching_process _ _ rfl (h p hp)
    · cases hnext

end watching

end Juju.Unit.KnownRelations

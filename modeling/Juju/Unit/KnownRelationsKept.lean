import Juju.Unit.KnownRelationsSound

namespace Juju.Unit.KnownRelations
open Juju.Base

variable {R : Type} [DecidableEq R]

/-- What the file, the workflows and the added units keep to, whether a process is alive or not. -/
structure Filed (s : UnitRelations R) : Prop where
  apart : ∀ r ∈ s.current, r ∉ s.gone
  ended : ∀ r, Ended (s.sides r) → r ∈ s.gone
  broken : ∀ r, (s.sides r).state = some .departed → r ∈ s.broken
  fresh : ∀ r, (s.sides r).state = none →
    (s.sides r).inflight = none ∨ (s.sides r).inflight = some .start
  stored : ∀ r ∈ s.stored, (s.sides r).state ≠ none ∧ (r ∈ s.current ∨ r ∈ s.gone)
  once : ∀ r, s.subordinates r ≤ 1
  unadded : ∀ r, r ∉ s.stored → (s.sides r).state ≠ some .departed → s.subordinates r = 0

/-- How the relations that a process has, and those that it has still to come to, go with the
file and with the service. -/
structure Listed (s : UnitRelations R) (p : AgentProcess R) : Prop where
  known : ∀ r, UnitRelations.TakenUp p r → r ∈ s.current ∨ r ∈ s.gone
  file : ∀ r ∈ s.stored, r ∈ p.relations ∨ r ∈ p.toLoad ∨ p.working = some (r, .depart)
  kept : ∀ r ∈ p.relations, r ∈ s.stored ∨ p.working = some (r, .add)
  toLoad : ∀ r ∈ p.toLoad, r ∈ s.stored ∧ (r ∈ p.relationsById → ¬ Ended (s.sides r))
  covered : ∀ r, s.Started r → (s.sides r).state ≠ some .departed →
    UnitRelations.TakenUp p r ∨ r ∈ p.toLoad ∨ p.working = some (r, .depart) ∨ r ∈ s.current
  addedOnce : p.added.Nodup
  added : ∀ r ∈ p.added, r ∉ p.relations ∧ r ∉ s.stored ∧ ¬ Ended (s.sides r)
  removedOnce : p.removed.Nodup
  removed : ∀ r ∈ p.removed, r ∈ p.relations ∧ r ∈ s.gone
  view : ∀ newRelations, p.seen = some newRelations → p.observed = none →
    ∀ r, r ∈ newRelations ↔ (r ∈ p.relations ∧ r ∉ p.removed) ∨ r ∈ p.added
  observed : ∀ newRelations, p.observed = some newRelations →
    p.seen = some newRelations ∧ p.removed = [] ∧ p.added = [] ∧
      (∀ r ∈ p.relations, r ∉ newRelations → r ∈ s.gone) ∧
      ∀ r ∈ newRelations, ¬ Ended (s.sides r)
  loading : p.toLoad ≠ [] ∨ (∃ r, p.working = some (r, .load)) →
    p.seen = none ∧ p.observed = none ∧ p.removed = [] ∧ p.added = []

/-- What holds of the relation that is worked at. -/
def WorkSound (s : UnitRelations R) (p : AgentProcess R) (r : R) : Task → Prop
  | .load => r ∈ p.relations ∧ r ∈ s.stored ∧ ¬ Ended (s.sides r) ∧
      SyncOps (s.sides r).state p.ops
  | .add => (r ∈ p.relations ∧ r ∉ s.stored ∧ p.toLoad = [] ∧ p.removed = []) ∧
      p.observed = none ∧ ¬ Ended (s.sides r) ∧ SyncOps (s.sides r).state p.ops
  | .depart => (r ∉ p.relations ∧ r ∈ s.gone ∧ r ∉ p.added ∧ p.toLoad = []) ∧
      p.observed = none ∧ DepartOps (s.sides r).state (r ∈ s.broken) p.ops

/-- What holds of a workflow that another task has locked. -/
structure BusySound (s : UnitRelations R) (p : AgentProcess R) (e : R × RelationTransition) :
    Prop where
  relation : e.1 ∈ p.relations
  free : p.working.map Prod.fst ≠ some e.1
  transition : e.2 ∈ otherTransitions
  state : (s.sides e.1).state ≠ none
  undeparted : (s.sides e.1).state ≠ some .departed

structure ProcessSound (s : UnitRelations R) (p : AgentProcess R) : Prop where
  lists : Listed s p
  work : ∀ r task, p.working = some (r, task) → WorkSound s p r task
  busy : ∀ e ∈ p.busy, BusySound s p e
  pending : ∀ r ∈ p.pending, s.subordinates r = 0 ∧
    (r ∈ s.stored ∨ (s.sides r).state = some .departed)

section sound

variable (isPrincipal : Bool) (isContainer : R → Bool)

structure Sound (s : UnitRelations R) : Prop where
  filed : Filed s
  down : s.process = none → ∀ r, s.Started r → (s.sides r).state ≠ some .departed →
    r ∈ s.stored ∨ r ∈ s.current
  process : ∀ p, s.process = some p → ProcessSound s p
  subordinate : isPrincipal = true → ∀ r ∈ s.stored, isContainer r = true → r ∈ s.current →
    s.subordinates r = 1 ∨ ∃ p, s.process = some p ∧ r ∈ p.pending

variable {isPrincipal isContainer}

omit [DecidableEq R] in
theorem sound_initial (s : UnitRelations R) (h : s.Initial) : Sound isPrincipal isContainer s := by
  have hnew (r : R) : ¬ Ended (s.sides r) := by
    rw [h.sides]
    rintro (hs | ⟨t, ht, -⟩)
    · cases hs
    · cases ht
  refine ⟨⟨?_, ?_, ?_, ?_, ?_, ?_, ?_⟩, ?_, ?_, ?_⟩
  · simp [h.current]
  · exact fun r hr => absurd hr (hnew r)
  · exact fun r hr => absurd (Or.inl hr) (hnew r)
  · exact fun r _ => Or.inl (by rw [h.sides]; rfl)
  · simp [h.stored]
  · simp [h.subordinates]
  · exact fun r _ _ => h.subordinates r
  · intro _ r hr
    simp [UnitRelations.Started, h.sides, newSide] at hr
  · simp [h.process]
  · simp [h.stored]

omit [DecidableEq R] in
theorem processSound_setProcess (s : UnitRelations R) (p q : AgentProcess R)
    (h : ProcessSound s p) : ProcessSound (s.setProcess q) p := by
  obtain ⟨⟨h1, h2, h3, h4, h5, h6, h7, h8, h9, h10, h11, h12⟩, hwork, hbusy, hpending⟩ := h
  refine ⟨⟨h1, h2, h3, h4, h5, h6, h7, h8, h9, h10, h11, h12⟩, ?_, ?_, hpending⟩
  · intro r task hw
    have hsound := hwork r task hw
    cases task <;> exact hsound
  · exact fun e he => ⟨(hbusy e he).relation, (hbusy e he).free, (hbusy e he).transition,
      (hbusy e he).state, (hbusy e he).undeparted⟩

omit [DecidableEq R] in
/-- A process that takes the place of the one before, with nothing on disk changed. -/
theorem sound_setProcess (s : UnitRelations R) (p p' : AgentProcess R)
    (h : Sound isPrincipal isContainer s) (hp : s.process = some p)
    (hnew : ProcessSound s p') (hpending : p'.pending = p.pending) :
    Sound isPrincipal isContainer (s.setProcess p') := by
  refine ⟨⟨h.filed.apart, h.filed.ended, h.filed.broken, h.filed.fresh, h.filed.stored,
    h.filed.once, h.filed.unadded⟩, ?_, ?_, ?_⟩
  · intro hnone
    cases hnone
  · intro q hq
    obtain rfl := Option.some.inj hq
    exact processSound_setProcess s p' p' hnew
  · intro hprincipal r hr hcontainer hcurrent
    rcases h.subordinate hprincipal r hr hcontainer hcurrent with hone | ⟨q, hq, hin⟩
    · exact Or.inl hone
    · obtain rfl := Option.some.inj (hp.symm.trans hq)
      exact Or.inr ⟨p', rfl, hpending ▸ hin⟩

end sound

section sides

variable (s : UnitRelations R) (p : AgentProcess R) (r : R) (side : RelationSide) (b : List R)

omit [DecidableEq R] in
@[simp] theorem setBroken_sides : (s.setBroken b).sides = s.sides := rfl

@[simp] theorem setSide_self : (s.setSide r side).sides r = side := Function.update_self ..

theorem perform_sides_self (op : WorkflowOp) :
    (s.perform r op).sides r = (s.sides r).perform op := setSide_self ..

@[simp] theorem setSide_of_ne (r' : R) (h : r' ≠ r) : (s.setSide r side).sides r' = s.sides r' :=
  Function.update_of_ne h ..

/-- A change of one workflow. -/
theorem filed_setSide (h : Filed s) (hended : Ended side → r ∈ s.gone)
    (hb : ∀ x ∈ s.broken, x ∈ b) (hbroken : side.state = some .departed → r ∈ b)
    (hfresh : side.state = none → side.inflight = none ∨ side.inflight = some .start)
    (hstored : r ∈ s.stored → side.state ≠ none)
    (hun : side.state ≠ some .departed → (s.sides r).state ≠ some .departed) :
    Filed ((s.setSide r side).setBroken b) := by
  have hcases (P : R → RelationSide → Prop) (hr : P r side) (hothers : ∀ x, P x (s.sides x)) :
      ∀ x, P x ((s.setSide r side).sides x) := by
    intro x
    by_cases hx : x = r
    · rw [hx, setSide_self]
      exact hr
    · rw [setSide_of_ne s r side x hx]
      exact hothers x
  refine ⟨h.apart, ?_, ?_, ?_, ?_, h.once, ?_⟩
  · exact hcases (fun x d => Ended d → x ∈ s.gone) hended h.ended
  · exact hcases (fun x d => d.state = some .departed → x ∈ b) hbroken
      fun x hx => hb x (h.broken x hx)
  · exact hcases (fun _ d => d.state = none → d.inflight = none ∨ d.inflight = some .start)
      hfresh h.fresh
  · exact hcases (fun x d => x ∈ s.stored → d.state ≠ none ∧ (x ∈ s.current ∨ x ∈ s.gone))
      (fun hr => ⟨hstored hr, (h.stored r hr).2⟩) fun x hx => h.stored x hx
  · exact hcases (fun x d => x ∉ s.stored → d.state ≠ some .departed → s.subordinates x = 0)
      (fun hr hd => h.unadded r hr (hun hd)) h.unadded

theorem listed_setSide (h : Listed s p)
    (hended : Ended side → Ended (s.sides r) ∨ (p.toLoad = [] ∧ r ∉ p.added ∧ p.observed = none))
    (hcovered : side.state ≠ some .departed →
      (s.Started r ∧ (s.sides r).state ≠ some .departed) ∨ (side.state = none ∧ side.inflight = none)
        ∨ r ∈ p.relations ∨ p.working = some (r, .depart)) :
    Listed ((s.setSide r side).setBroken b) p := by
  have hkeeps (x : R) (hx : ¬ Ended (s.sides x))
      (hin : ¬ (p.toLoad = [] ∧ r ∉ p.added ∧ p.observed = none) ∨ x ≠ r) :
      ¬ Ended ((s.setSide r side).sides x) := by
    by_cases hxr : x = r
    · subst hxr
      rw [setSide_self]
      intro hside
      rcases hended hside with hold | hnone
      · exact hx hold
      · exact (hin.resolve_right (by simp)) hnone
    · rwa [setSide_of_ne s r side x hxr]
  refine ⟨h.known, h.file, h.kept, ?_, ?_, h.addedOnce, ?_, h.removedOnce, h.removed, h.view, ?_,
    h.loading⟩
  · intro x hx
    obtain ⟨hstored, hload⟩ := h.toLoad x hx
    refine ⟨hstored, fun hid => hkeeps x (hload hid) (Or.inl ?_)⟩
    rintro ⟨hnil, -⟩
    rw [hnil] at hx
    cases hx
  · intro x hstarted hstate
    by_cases hxr : x = r
    · subst hxr
      simp only [UnitRelations.Started, setBroken_sides, setSide_self] at hstarted hstate
      rcases hcovered hstate with ⟨ho, hd⟩ | ⟨hn, hi⟩ | hrel | hw
      · exact h.covered x ho hd
      · exact absurd hstarted (by simp [hn, hi])
      · exact Or.inl (Or.inl hrel)
      · exact Or.inr (Or.inr (Or.inl hw))
    · have hsame : ((s.setSide r side).setBroken b).sides x = s.sides x :=
        setSide_of_ne s r side x hxr
      simp only [UnitRelations.Started, hsame] at hstarted hstate
      exact h.covered x hstarted hstate
  · intro x hx
    obtain ⟨hrel, hstored, hend⟩ := h.added x hx
    refine ⟨hrel, hstored, hkeeps x hend ?_⟩
    by_cases hxr : x = r
    · exact Or.inl fun hnone => hnone.2.1 (hxr ▸ hx)
    · exact Or.inr hxr
  · intro newRelations ho
    obtain ⟨hseen, hrem, hadd, hgone, hend⟩ := h.observed newRelations ho
    refine ⟨hseen, hrem, hadd, hgone, fun x hx => hkeeps x (hend x hx) (Or.inl ?_)⟩
    rintro ⟨-, -, hnone⟩
    rw [hnone] at ho
    cases ho

/-- A change of one workflow, and of the process with it. -/
theorem sound_setSide {isPrincipal : Bool} {isContainer : R → Bool} (p' : AgentProcess R)
    (h : Sound isPrincipal isContainer s) (hp : s.process = some p)
    (hfiled : Filed ((s.setSide r side).setBroken b))
    (hnew : ProcessSound ((s.setSide r side).setBroken b) p')
    (hpending : p'.pending = p.pending) :
    Sound isPrincipal isContainer (((s.setSide r side).setBroken b).setProcess p') := by
  refine ⟨⟨hfiled.apart, hfiled.ended, hfiled.broken, hfiled.fresh, hfiled.stored, hfiled.once,
    hfiled.unadded⟩, ?_, ?_, ?_⟩
  · intro hnone
    cases hnone
  · intro q hq
    obtain rfl := Option.some.inj hq
    exact processSound_setProcess _ p' p' hnew
  · intro hprincipal x hx hcontainer hcurrent
    rcases h.subordinate hprincipal x hx hcontainer hcurrent with hone | ⟨q, hq, hin⟩
    · exact Or.inl hone
    · obtain rfl := Option.some.inj (hp.symm.trans hq)
      exact Or.inr ⟨p', rfl, hpending ▸ hin⟩

omit [DecidableEq R] in
/-- The operations, the locks of other tasks and the watches say nothing about the lists. -/
theorem listed_ops (h : Listed s p) (ops : List WorkflowOp) (busy : List (R × RelationTransition))
    (watched : List R) (watchless : Bool) : Listed s { p with
      ops := ops, busy := busy, watched := watched, watchless := watchless } := by
  obtain ⟨h1, h2, h3, h4, h5, h6, h7, h8, h9, h10, h11, h12⟩ := h
  exact ⟨h1, h2, h3, h4, h5, h6, h7, h8, h9, h10, h11, h12⟩

omit [DecidableEq R] in
theorem work_busy (busy : List (R × RelationTransition)) (watched : List R) (watchless : Bool)
    (x : R) (task : Task) (h : WorkSound s p x task) :
    WorkSound s { p with busy := busy, watched := watched, watchless := watchless } x task := by
  cases task <;> exact h

omit [DecidableEq R] in
theorem busy_ops (ops : List WorkflowOp) (busy : List (R × RelationTransition))
    (watched : List R) (watchless : Bool) (e : R × RelationTransition) (h : BusySound s p e) :
    BusySound s { p with
      ops := ops, busy := busy, watched := watched, watchless := watchless } e :=
  ⟨h.relation, h.free, h.transition, h.state, h.undeparted⟩

/-- The rest of a process is as it was when the workflow changed is not the one worked at. -/
theorem work_setSide (h : ProcessSound s p) (hfree : p.working.map Prod.fst ≠ some r) (x : R)
    (task : Task) (hw : p.working = some (x, task)) :
    WorkSound (s.setSide r side) p x task := by
  have hne : x ≠ r := by
    rintro rfl
    exact hfree (by rw [hw]; rfl)
  have hsame := setSide_of_ne s r side x hne
  have hsound := h.work x task hw
  cases task <;> (simp only [WorkSound, hsame]; exact hsound)

theorem busy_setSide (e : R × RelationTransition) (h : BusySound s p e)
    (hside : e.1 = r → side.state ≠ none ∧ side.state ≠ some .departed) :
    BusySound ((s.setSide r side).setBroken b) p e := by
  by_cases he : e.1 = r
  · refine ⟨h.relation, h.free, h.transition, ?_, ?_⟩
    · simpa only [he, setBroken_sides, setSide_self] using (hside he).1
    · simpa only [he, setBroken_sides, setSide_self] using (hside he).2
  · refine ⟨h.relation, h.free, h.transition, ?_, ?_⟩
    · simpa only [setBroken_sides, setSide_of_ne s r side e.1 he] using h.state
    · simpa only [setBroken_sides, setSide_of_ne s r side e.1 he] using h.undeparted

theorem pending_setSide (h : ProcessSound s p)
    (hside : (s.sides r).state = some .departed → side.state = some .departed) (x : R)
    (hx : x ∈ p.pending) :
    s.subordinates x = 0 ∧ (x ∈ s.stored ∨ ((s.setSide r side).sides x).state = some .departed) := by
  obtain ⟨hzero, hor⟩ := h.pending x hx
  refine ⟨hzero, hor.imp_right fun hd => ?_⟩
  by_cases hxr : x = r
  · subst hxr
    rw [setSide_self]
    exact hside hd
  · rwa [setSide_of_ne s r side x hxr]

end sides

section tasks

variable {isPrincipal : Bool} {isContainer : R → Bool} (s s' : UnitRelations R)
  (p : AgentProcess R) (h : Sound isPrincipal isContainer s) (hp : s.process = some p)
include h hp

theorem sound_fire (r : R) (t : RelationTransition) (hs : s.fire p r t = some s') :
    Sound isPrincipal isContainer s' := by
  have hproc := h.process p hp
  unfold UnitRelations.fire at hs
  split at hs
  · rename_i hcan
    obtain ⟨hrel, hfree, hbusy, hother, hav⟩ := hcan
    obtain rfl := Option.some.inj hs
    obtain ⟨hsome, hlive, hstays⟩ := otherTransition_available _ t hother hav
    have hended := perform_ended (s.sides r) (.setInflight t) hstays
    have hfiled := filed_setSide s r ((s.sides r).perform (.setInflight t)) s.broken h.filed
      (fun he => h.filed.ended r (hended he)) (fun _ hx => hx) (fun hd => absurd hd hlive)
      (fun hn => absurd hn hsome) (fun _ => hsome) (fun hd => hd)
    have hlists := listed_setSide s p r ((s.sides r).perform (.setInflight t)) s.broken hproc.lists
      (fun he => Or.inl (hended he)) (fun _ => Or.inr (Or.inr (Or.inl hrel)))
    refine sound_setSide s p r _ s.broken { p with busy := (r, t) :: p.busy } h hp hfiled ?_ rfl
    refine ⟨listed_ops _ p hlists p.ops _ p.watched p.watchless, ?_, ?_, ?_⟩
    · intro x task hw
      exact work_busy _ p _ p.watched p.watchless x task
        (work_setSide s p r _ hproc hfree x task hw)
    · intro e he
      rcases List.mem_cons.mp he with rfl | he
      · refine ⟨hrel, hfree, hother, ?_, ?_⟩
        · rwa [setBroken_sides, setSide_self]
        · rwa [setBroken_sides, setSide_self]
      · exact busy_ops _ p p.ops _ p.watched p.watchless e
          (busy_setSide s p r _ s.broken e (hproc.busy e he) fun _ => ⟨hsome, hlive⟩)
    · exact pending_setSide s p r _ hproc fun hd => hd
  · cases hs

/-- The transition of another task comes to its end, and leaves the workflow in a state that is not
departed. -/
theorem sound_ended (e : R × RelationTransition) (he : e ∈ p.busy) (watched : List R) :
    Sound isPrincipal isContainer
      ((s.setSide e.1 ((s.sides e.1).perform
        (.setState (relationTransition e.2).destination))).setProcess { p with
          busy := p.busy.filter fun x => x.1 ≠ e.1
          watched := watched }) := by
  have hproc := h.process p hp
  obtain ⟨hrel, hfree, hother, hsome, hlive⟩ := hproc.busy e he
  have hstays : (relationTransition e.2).destination ≠ .departed := by
    revert hother
    cases e.2 <;> decide
  have hstate : some (relationTransition e.2).destination ≠ some RelationState.departed :=
    fun hd => hstays (Option.some.inj hd)
  have hended : ¬ Ended ((s.sides e.1).perform
      (.setState (relationTransition e.2).destination)) := by
    rintro (hd | ⟨t, ht, -⟩)
    · exact hstate hd
    · cases ht
  have hfiled := filed_setSide s e.1
    ((s.sides e.1).perform (.setState (relationTransition e.2).destination)) s.broken h.filed
    (fun he => absurd he hended) (fun _ hx => hx) (fun hd => absurd hd hstate)
    (fun hn => by cases hn) (fun _ => Option.some_ne_none _) (fun _ => hlive)
  have hlists := listed_setSide s p e.1
    ((s.sides e.1).perform (.setState (relationTransition e.2).destination)) s.broken hproc.lists
    (fun he => absurd he hended) (fun _ => Or.inr (Or.inr (Or.inl hrel)))
  refine sound_setSide s p e.1 _ s.broken
    { p with busy := p.busy.filter fun x => x.1 ≠ e.1, watched := watched } h hp hfiled ?_ rfl
  refine ⟨listed_ops _ p hlists p.ops _ watched p.watchless, ?_, ?_, ?_⟩
  · intro x task hw
    exact work_busy _ p _ watched p.watchless x task
      (work_setSide s p e.1 _ hproc hfree x task hw)
  · intro x hx
    obtain ⟨hin, hne⟩ := List.mem_filter.mp hx
    have hold : x.1 ≠ e.1 := by simpa using hne
    exact busy_ops _ p p.ops _ watched p.watchless x
      (busy_setSide s p e.1 _ s.broken x (hproc.busy x hin) fun hsame => absurd hsame hold)
  · exact pending_setSide s p e.1 _ hproc fun hd => absurd hd hlive

omit [DecidableEq R] in
/-- The transition of another task raises, which leaves the workflow as it is. -/
theorem sound_failed (busy : List (R × RelationTransition)) (hbusy : ∀ e ∈ busy, e ∈ p.busy)
    (watchless : Bool) : Sound isPrincipal isContainer
      (s.setProcess { p with busy := busy, watchless := watchless }) := by
  have hproc := h.process p hp
  refine sound_setProcess s p _ h hp ⟨?_, ?_, ?_, hproc.pending⟩ rfl
  · exact listed_ops s p hproc.lists p.ops busy p.watched watchless
  · intro x task hw
    exact work_busy s p busy p.watched watchless x task (hproc.work x task hw)
  · intro e he
    exact busy_ops s p p.ops busy p.watched watchless e (hproc.busy e (hbusy e he))

theorem sound_fired (r : R) (starting : Bool) (hs : s.fired p r starting = some s') :
    Sound isPrincipal isContainer s' := by
  unfold UnitRelations.fired at hs
  split at hs
  · cases hs
  · rename_i e hfind
    obtain rfl : e.1 = r := by simpa using List.find?_some hfind
    dsimp only at hs
    split at hs
    · obtain rfl := Option.some.inj hs
      exact sound_failed s p h hp _ (fun x hx => (List.mem_filter.mp hx).1) _
    · obtain rfl := Option.some.inj hs
      exact sound_ended s p h hp e (List.mem_of_find?_eq_some hfind) _

omit [DecidableEq R] in
/-- The relation that is worked at is locked by no other task. -/
theorem work_free (r : R) (task : Task) (hw : p.working = some (r, task)) :
    ∀ e ∈ p.busy, e.1 ≠ r := by
  intro e he hsame
  exact ((h.process p hp).busy e he).free (by rw [hw, hsame]; rfl)

/-- The workflows locked by other tasks are not touched by an operation. -/
theorem busy_perform (r : R) (task : Task) (hw : p.working = some (r, task)) (op : WorkflowOp)
    (ops : List WorkflowOp) (e : R × RelationTransition) (he : e ∈ p.busy) :
    BusySound (s.perform r op) (p.performed r op ops) e :=
  busy_ops _ p ops p.busy _ p.watchless e (busy_setSide s p r _ _ e ((h.process p hp).busy e he)
    fun hsame => absurd hsame (work_free s p h hp r task hw e he))

/-- One operation of a synchronization. -/
theorem sound_sync (r : R) (task : Task) (hw : p.working = some (r, task)) (op : WorkflowOp)
    (ops : List WorkflowOp) (hops : p.ops = op :: ops) (htask : task ≠ .depart) :
    Sound isPrincipal isContainer ((s.perform r op).setProcess (p.performed r op ops)) := by
  have hproc := h.process p hp
  have hwork := hproc.work r task hw
  obtain ⟨hrel, hlive, hsync⟩ : r ∈ p.relations ∧ ¬ Ended (s.sides r) ∧
      SyncOps (s.sides r).state p.ops := by
    cases task with
    | load => exact ⟨hwork.1, hwork.2.2⟩
    | add => exact ⟨hwork.1.1, hwork.2.2⟩
    | depart => exact absurd rfl htask
  rw [hops] at hsync
  obtain ⟨hhook, hstays⟩ := hsync.quiet op (List.mem_cons_self ..)
  have hended := perform_ended (s.sides r) op hstays
  have hundeparted : ((s.sides r).perform op).state ≠ some .departed :=
    fun hd => hlive (hended (Or.inl hd))
  have hbroken : s.broken = if op = .executeHook then r :: s.broken else s.broken :=
    (if_neg hhook).symm
  have hnext := syncOps_perform (s.sides r) op ops hsync
  have hfresh := perform_fresh (s.sides r) op
    (fun hn => hsync.fresh hn op (List.mem_cons_self ..)) (h.filed.fresh r)
  have hfiled := filed_setSide s r ((s.sides r).perform op) _ h.filed
    (fun he => absurd (hended he) hlive) (fun x hx => hbroken ▸ hx)
    (fun hd => absurd hd hundeparted) hfresh
    (fun hr => perform_state _ op (h.filed.stored r hr).1) (fun _ hd => hlive (Or.inl hd))
  have hlists := listed_setSide s p r ((s.sides r).perform op)
    (if op = .executeHook then r :: s.broken else s.broken) hproc.lists
    (fun he => absurd (hended he) hlive) (fun _ => Or.inr (Or.inr (Or.inl hrel)))
  refine sound_setSide s p r _ _ (p.performed r op ops) h hp hfiled ?_ rfl
  refine ⟨listed_ops _ p hlists ops p.busy _ p.watchless, ?_,
    busy_perform s p h hp r task hw op ops, ?_⟩
  · intro x task' hw'
    obtain ⟨rfl, rfl⟩ := Prod.mk.inj (Option.some.inj (hw.symm.trans hw'))
    have hlive' : ¬ Ended ((s.perform r op).sides r) := by
      rw [perform_sides_self]
      exact fun he => hlive (hended he)
    have hnext' : SyncOps ((s.perform r op).sides r).state ops := by
      rwa [perform_sides_self]
    cases task with
    | load => exact ⟨hwork.1, hwork.2.1, hlive', hnext'⟩
    | add => exact ⟨hwork.1, hwork.2.1, hlive', hnext'⟩
    | depart => exact absurd rfl htask
  · exact pending_setSide s p r _ hproc fun hd => absurd (Or.inl hd) hlive

/-- One operation of a departure. -/
theorem sound_depart (r : R) (hw : p.working = some (r, .depart)) (op : WorkflowOp)
    (ops : List WorkflowOp) (hops : p.ops = op :: ops) :
    Sound isPrincipal isContainer ((s.perform r op).setProcess (p.performed r op ops)) := by
  have hproc := h.process p hp
  obtain ⟨⟨hrel, hgone, hadded, hload⟩, hobserved, hdepart⟩ := hproc.work r .depart hw
  rw [hops] at hdepart
  obtain ⟨hnext, hhook, hsome⟩ := departOps_perform (s.sides r) op _ ops hdepart
  have hmore : ∀ x ∈ s.broken, x ∈ if op = .executeHook then r :: s.broken else s.broken := by
    intro x hx
    split
    · exact List.mem_cons_of_mem _ hx
    · exact hx
  have hbroken : r ∈ s.broken ∨ op = .executeHook →
      r ∈ if op = .executeHook then r :: s.broken else s.broken := by
    rintro (hb | rfl)
    · exact hmore r hb
    · simp
  have hin : ((s.sides r).perform op).state = some .departed →
      r ∈ if op = .executeHook then r :: s.broken else s.broken := by
    intro hd
    rcases hhook with hsame | ⟨-, hb⟩
    · exact hmore r (h.filed.broken r (hsame.symm.trans hd))
    · exact hmore r hb
  have hold : ((s.sides r).perform op).state ≠ some .departed →
      (s.sides r).state ≠ some .departed := by
    intro hne hd
    rcases hhook with hsame | ⟨hdep, -⟩
    · exact hne (hsame.trans hd)
    · exact hne hdep
  have hfiled := filed_setSide s r ((s.sides r).perform op) _ h.filed (fun _ => hgone) hmore hin
    (fun hn => absurd hn hsome) (fun _ => hsome) hold
  have hlists := listed_setSide s p r ((s.sides r).perform op)
    (if op = .executeHook then r :: s.broken else s.broken) hproc.lists
    (fun _ => Or.inr ⟨hload, hadded, hobserved⟩) (fun _ => Or.inr (Or.inr (Or.inr hw)))
  refine sound_setSide s p r _ _ (p.performed r op ops) h hp hfiled ?_ rfl
  refine ⟨listed_ops _ p hlists ops p.busy _ p.watchless, ?_,
    busy_perform s p h hp r .depart hw op ops, ?_⟩
  · intro x task hw'
    obtain ⟨rfl, rfl⟩ := Prod.mk.inj (Option.some.inj (hw.symm.trans hw'))
    refine ⟨⟨hrel, hgone, hadded, hload⟩, hobserved, ?_⟩
    rw [setBroken_sides, setSide_self]
    exact departOps_mono _ _ _ ops hbroken hnext
  · refine pending_setSide s p r _ hproc fun hd => ?_
    rcases hhook with hsame | ⟨hdep, -⟩
    · exact hsame.trans hd
    · exact hdep

omit [DecidableEq R] in
/-- The file is written when nothing is left to load. -/
theorem stored_relations (hload : p.toLoad = []) (r : R) (hr : r ∈ s.stored) :
    r ∈ p.relations ∨ p.working = some (r, .depart) := by
  rcases (h.process p hp).lists.file r hr with hrel | hin | hw
  · exact Or.inl hrel
  · rw [hload] at hin
    cases hin
  · exact Or.inr hw

omit [DecidableEq R] in
theorem sound_finishLoad (r : R) (hw : p.working = some (r, .load)) :
    Sound isPrincipal isContainer (s.setProcess { p with working := none }) := by
  have hproc := h.process p hp
  obtain ⟨hrel, hstored, -, -⟩ := hproc.work r .load hw
  have hl := hproc.lists
  have hother (x : R) (task : Task) (hx : p.working = some (x, task)) : x = r ∧ task = .load :=
    Prod.mk.inj (Option.some.inj (hx.symm.trans hw))
  refine sound_setProcess s p _ h hp ⟨⟨hl.known, ?_, ?_, hl.toLoad, ?_, hl.addedOnce, hl.added,
    hl.removedOnce, hl.removed, hl.view, hl.observed, ?_⟩, ?_, ?_, hproc.pending⟩ rfl
  · intro x hx
    rcases hl.file x hx with hin | hin | hin
    · exact Or.inl hin
    · exact Or.inr (Or.inl hin)
    · cases (hother x _ hin).2
  · intro x hx
    rcases hl.kept x hx with hin | hin
    · exact Or.inl hin
    · cases (hother x _ hin).2
  · intro x hx hstate
    rcases hl.covered x hx hstate with hin | hin | hin | hin
    · exact Or.inl hin
    · exact Or.inr (Or.inl hin)
    · cases (hother x _ hin).2
    · exact Or.inr (Or.inr (Or.inr hin))
  · exact fun _ => hl.loading (Or.inr ⟨r, hw⟩)
  · intro x task hx
    cases hx
  · intro e he
    have hbusy := hproc.busy e he
    exact ⟨hbusy.relation, by simp, hbusy.transition, hbusy.state, hbusy.undeparted⟩

omit [DecidableEq R] in
/-- The relations are written to the file, and the callback goes on with `pending` as it is
then. -/
theorem sound_store (r : R) (task : Task) (hw : p.working = some (r, task))
    (hload : p.toLoad = []) (pending : List R)
    (hstate : ∀ x ∈ p.relations, (s.sides x).state ≠ none)
    (hdeparted : task = .depart → (s.sides r).state = some .departed)
    (hpending : ∀ x ∈ pending, s.subordinates x = 0 ∧
      (x ∈ p.relations ∨ (s.sides x).state = some .departed))
    (hadded : isPrincipal = true → ∀ x ∈ p.relations, isContainer x = true → x ∈ s.current →
      s.subordinates x = 1 ∨ x ∈ pending) :
    Sound isPrincipal isContainer { s with
      stored := p.relations
      process := some { p with working := none, pending := pending } } := by
  have hproc := h.process p hp
  have hl := hproc.lists
  have hother (x : R) (t : Task) (hx : p.working = some (x, t)) : x = r ∧ t = task :=
    Prod.mk.inj (Option.some.inj (hx.symm.trans hw))
  refine ⟨⟨h.filed.apart, h.filed.ended, h.filed.broken, h.filed.fresh, ?_, h.filed.once, ?_⟩,
    ?_, ?_, ?_⟩
  · exact fun x hx => ⟨hstate x hx, hl.known x (Or.inl hx)⟩
  · intro x hx hlive
    apply h.filed.unadded x _ hlive
    intro hold
    rcases stored_relations s p h hp hload x hold with hrel | hdep
    · exact hx hrel
    · obtain ⟨rfl, ht⟩ := hother x _ hdep
      exact hlive (hdeparted ht.symm)
  · intro hnone
    cases hnone
  · intro q hq
    obtain rfl := Option.some.inj hq
    refine ⟨⟨hl.known, fun x hx => Or.inl hx, fun x hx => Or.inl hx, ?_, ?_, hl.addedOnce, ?_,
      hl.removedOnce, hl.removed, hl.view, hl.observed, ?_⟩, ?_, ?_, hpending⟩
    · intro x hx
      rw [hload] at hx
      cases hx
    · intro x hx hlive
      rcases hl.covered x hx hlive with hin | hin | hin | hin
      · exact Or.inl hin
      · exact Or.inr (Or.inl hin)
      · obtain ⟨rfl, ht⟩ := hother x _ hin
        exact absurd (hdeparted ht.symm) hlive
      · exact Or.inr (Or.inr (Or.inr hin))
    · exact fun x hx => ⟨(hl.added x hx).1, (hl.added x hx).1, (hl.added x hx).2.2⟩
    · rintro (hin | ⟨x, hx⟩)
      · exact absurd hload hin
      · cases hx
    · intro x t hx
      cases hx
    · intro e he
      have hbusy := hproc.busy e he
      exact ⟨hbusy.relation, by simp, hbusy.transition, hbusy.state, hbusy.undeparted⟩
  · intro hprincipal x hx hcontainer hcurrent
    exact (hadded hprincipal x hx hcontainer hcurrent).imp_right fun hin => ⟨_, rfl, hin⟩

omit [DecidableEq R] in
/-- A relation in memory has a state, except where its workflow is being added. -/
theorem relations_state (r : R) (hr : r ∈ p.relations) (hadd : p.working ≠ some (r, .add)) :
    (s.sides r).state ≠ none := by
  have hstored := ((h.process p hp).lists.kept r hr).resolve_right hadd
  exact (h.filed.stored r hstored).1

omit [DecidableEq R] in
theorem sound_finish (r : R) (task : Task) (hw : p.working = some (r, task)) (hops : p.ops = []) :
    Sound isPrincipal isContainer (s.finish isPrincipal isContainer p r task) := by
  have hproc := h.process p hp
  have hwork := hproc.work r task hw
  cases task with
  | load => exact sound_finishLoad s p h hp r hw
  | depart =>
    obtain ⟨⟨hrel, hgone, hadded, hload⟩, hobserved, hdepart⟩ := hwork
    have hdeparted : (s.sides r).state = some .departed := by
      rcases hdepart with ⟨-, hd, -⟩ | ⟨first, hfirst, -⟩
      · exact hd
      · rw [hops] at hfirst
        simp at hfirst
    have hadd (x : R) : p.working ≠ some (x, .add) := by
      rw [hw]
      simp
    apply sound_store s p h hp r .depart hw hload p.pending
      (fun x hx => relations_state s p h hp x hx (hadd x)) (fun _ => hdeparted)
    · intro x hx
      obtain ⟨hzero, hor⟩ := hproc.pending x hx
      refine ⟨hzero, ?_⟩
      rcases hor with hstored | hd
      · rcases stored_relations s p h hp hload x hstored with hin | hdep
        · exact Or.inl hin
        · obtain ⟨rfl, -⟩ := Prod.mk.inj (Option.some.inj (hdep.symm.trans hw))
          exact Or.inr hdeparted
      · exact Or.inr hd
    · intro hprincipal x hx hcontainer hcurrent
      have hstored := (hproc.lists.kept x hx).resolve_right (hadd x)
      refine (h.subordinate hprincipal x hstored hcontainer hcurrent).imp_right ?_
      rintro ⟨q, hq, hin⟩
      obtain rfl := Option.some.inj (hp.symm.trans hq)
      exact hin
  | add =>
    obtain ⟨⟨hrel, hnew, hload, hremoved⟩, hobserved, hlive, hsync⟩ := hwork
    rw [hops] at hsync
    have hundeparted : (s.sides r).state ≠ some .departed := fun hd => hlive (Or.inl hd)
    have hmine : ∀ x ∈ p.relations, x = r ∨ x ∈ s.stored := by
      intro x hx
      rcases hproc.lists.kept x hx with hstored | hadd
      · exact Or.inr hstored
      · exact Or.inl (Prod.mk.inj (Option.some.inj (hadd.symm.trans hw))).1
    have hfile : ∀ x ∈ s.stored, x ∈ p.relations := by
      intro x hx
      refine (stored_relations s p h hp hload x hx).resolve_right ?_
      rw [hw]
      simp
    apply sound_store s p h hp r .add hw hload
    · intro x hx
      rcases hmine x hx with rfl | hstored
      · exact syncOps_nil _ hsync
      · exact (h.filed.stored x hstored).1
    · intro ht
      cases ht
    · have hold : ∀ x ∈ p.pending, s.subordinates x = 0 ∧
          (x ∈ p.relations ∨ (s.sides x).state = some .departed) := by
        intro x hx
        obtain ⟨hzero, hor⟩ := hproc.pending x hx
        exact ⟨hzero, hor.imp_left (hfile x)⟩
      intro x hx
      split at hx
      · rcases List.mem_cons.mp hx with rfl | hx
        · exact ⟨h.filed.unadded x hnew hundeparted, Or.inl hrel⟩
        · exact hold x hx
      · exact hold x hx
    · intro hprincipal x hx hcontainer hcurrent
      rcases hmine x hx with rfl | hstored
      · right
        rw [if_pos (by simp [hprincipal, hcontainer])]
        exact List.mem_cons_self ..
      · refine (h.subordinate hprincipal x hstored hcontainer hcurrent).imp_right ?_
        rintro ⟨q, hq, hin⟩
        obtain rfl := Option.some.inj (hp.symm.trans hq)
        split
        · exact List.mem_cons_of_mem _ hin
        · exact hin

end tasks

end Juju.Unit.KnownRelations

import Juju.Lib.Recovery

namespace Juju.Lib
open Juju.Base

/-- What is stored between two writes, with the context as it was when it was stored and as the
action that then ran has left it. -/
structure Moment (S T V X : Type) where
  stored : StateDict S T V
  start : X
  finish : X

section moments

variable {S T A V X E : Type} [DecidableEq S] [DecidableEq T]

/-- The moments of `_fire_automatic_transitions`, given those of `fire_transition`. -/
def automaticMoments (w : Workflow S T A)
    (fire : T → WorkflowState S T V X → List (Moment S T V X)) (m : WorkflowState S T V X) :
    List (Moment S T V X) :=
  match Workflow.getTransitions w m.stored.state with
  | none => []
  | some available =>
    match available.find? Transition.automatic with
    | none => []
    | some t => fire t.transitionId m

/-- The moments that a call of `fire_transition` goes through. -/
def fireMoments (w : Workflow S T A) (actions : T → Option (X → X × ActionResult V E)) :
    Nat → T → Dict String V → WorkflowState S T V X → List (Moment S T V X)
  | 0, _, _, _ => []
  | fuel + 1, transitionId, stateVariables, m =>
    match Workflow.getTransitions w m.stored.state with
    | none => []
    | some available =>
      if transitionId ∉ available.map Transition.transitionId then []
      else
        let m := setInflight m (some transitionId)
        match Workflow.getTransition w transitionId with
        | none => [⟨m.stored, m.context, m.context⟩]
        | some transition =>
          let (context, result) := runAction actions transitionId m.context
          let acting : Moment S T V X := ⟨m.stored, m.context, context⟩
          let m := { m with context := context }
          match result with
          | .raised _ => [acting]
          | .blocked => [acting]
          | .failed =>
            match transition.errorTransitionId with
            | none => [acting, ⟨(setInflight m none).stored, context, context⟩]
            | some error => acting :: fireMoments w actions fuel error ∅ m
          | .done vars =>
            let m := setState m transition.destination (vars.getD ∅ ∪ stateVariables)
            acting :: ⟨m.stored, context, context⟩ ::
              automaticMoments w (fun t => fireMoments w actions fuel t ∅) m

/-- The moments of a transition that can be fired. -/
theorem fireMoments_canFire (w : Workflow S T A)
    (actions : T → Option (X → X × ActionResult V E)) (fuel : Nat) (vars : Dict String V)
    (m : WorkflowState S T V X) (t : Transition S T A) (h : CanFire w m.stored t) :
    fireMoments w actions (fuel + 1) t.transitionId vars m =
      match runAction actions t.transitionId m.context with
      | (context, .raised _) => [⟨(setInflight m (some t.transitionId)).stored, m.context, context⟩]
      | (context, .blocked) => [⟨(setInflight m (some t.transitionId)).stored, m.context, context⟩]
      | (context, .failed) =>
        let acting : Moment S T V X :=
          ⟨(setInflight m (some t.transitionId)).stored, m.context, context⟩
        let m := { setInflight m (some t.transitionId) with context := context }
        match t.errorTransitionId with
        | none => [acting, ⟨(setInflight m none).stored, context, context⟩]
        | some error => acting :: fireMoments w actions fuel error ∅ m
      | (context, .done added) =>
        let acting : Moment S T V X :=
          ⟨(setInflight m (some t.transitionId)).stored, m.context, context⟩
        let m := { setInflight m (some t.transitionId) with context := context }
        let m := setState m t.destination (added.getD ∅ ∪ vars)
        acting :: ⟨m.stored, context, context⟩ ::
          automaticMoments w (fun t => fireMoments w actions fuel t ∅) m := by
  obtain ⟨available, hav, hid⟩ := h.available
  conv_lhs => unfold fireMoments
  simp only [hav]
  rw [if_neg (not_not_intro hid)]
  simp only [h.named]
  have hcontext : (setInflight m (some t.transitionId)).context = m.context := rfl
  rw [hcontext]
  rcases hact : runAction actions t.transitionId m.context with ⟨context, result⟩
  cases result with
  | _ => rfl

/-- A transition that is not available is refused before anything is stored. -/
theorem fireMoments_unavailable (w : Workflow S T A)
    (actions : T → Option (X → X × ActionResult V E)) (fuel : Nat) (vars : Dict String V)
    (m : WorkflowState S T V X) (transitionId : T) (available : List (Transition S T A))
    (hav : Workflow.getTransitions w m.stored.state = some available)
    (hid : transitionId ∉ available.map Transition.transitionId) :
    fireMoments w actions fuel transitionId vars m = [] := by
  cases fuel with
  | zero => rfl
  | succ fuel =>
    unfold fireMoments
    simp only [hav]
    rw [if_pos hid]

/-- The moments lead from one workflow state to another. -/
inductive LeadsTo : WorkflowState S T V X → List (Moment S T V X) → WorkflowState S T V X → Prop
  | stays (m : WorkflowState S T V X) : LeadsTo m [] m
  | moves (m m' : WorkflowState S T V X) (p : Moment S T V X) (ps : List (Moment S T V X)) :
      p.start = m.context → LeadsTo { m.store p.stored with context := p.finish } ps m' →
      LeadsTo m (p :: ps) m'

theorem automatic_leadsTo (w : Workflow S T A)
    (fire : T → WorkflowState S T V X → WorkflowState S T V X × FireResult E)
    (moments : T → WorkflowState S T V X → List (Moment S T V X)) (m : WorkflowState S T V X)
    (h : ∀ t, LeadsTo m (moments t m) (fire t m).1) :
    LeadsTo m (automaticMoments w moments m) (fireAutomatic w fire m).1 := by
  unfold automaticMoments fireAutomatic
  cases Workflow.getTransitions w m.stored.state with
  | none => exact .stays m
  | some available =>
    dsimp only
    cases available.find? Transition.automatic with
    | none => exact .stays m
    | some t => exact h t.transitionId

/-- The moments are those of the call: what they store is what it stores. -/
theorem fire_leadsTo (w : Workflow S T A) (actions : T → Option (X → X × ActionResult V E))
    (fuel : Nat) (transitionId : T) (vars : Dict String V) (m : WorkflowState S T V X) :
    LeadsTo m (fireMoments w actions fuel transitionId vars m)
      (fireTransition w actions fuel transitionId vars m).1 := by
  induction fuel generalizing transitionId vars m with
  | zero => exact .stays m
  | succ fuel ih =>
    unfold fireMoments fireTransition
    cases Workflow.getTransitions w m.stored.state with
    | none => exact .stays m
    | some available =>
      dsimp only
      split
      · exact .stays m
      cases Workflow.getTransition w transitionId with
      | none => exact .moves m _ _ [] rfl (.stays _)
      | some transition =>
        dsimp only
        generalize runAction actions transitionId (setInflight m (some transitionId)).context = ran
        obtain ⟨context, result⟩ := ran
        cases result with
        | raised e => exact .moves m _ _ [] rfl (.stays _)
        | blocked => exact .moves m _ _ [] rfl (.stays _)
        | failed =>
          cases transition.errorTransitionId with
          | none => exact .moves m _ _ _ rfl (.moves _ _ _ [] rfl (.stays _))
          | some error => exact .moves m _ _ _ rfl (ih error ∅ _)
        | done added =>
          refine .moves m _ _ _ rfl (.moves _ _ _ _ rfl ?_)
          exact automatic_leadsTo w _ _ _ fun t => ih t ∅ _

/-- The moments of `synchronize`. -/
def synchronizeMoments (w : Workflow S T A) (actions : T → Option (X → X × ActionResult V E))
    (fuel : Nat) (m : WorkflowState S T V X) : List (Moment S T V X) :=
  match m.stored.transitionId with
  | some transitionId => fireMoments w actions fuel transitionId ∅ m
  | none => automaticMoments w (fun t => fireMoments w actions fuel t ∅) m

theorem synchronize_leadsTo (w : Workflow S T A) (actions : T → Option (X → X × ActionResult V E))
    (fuel : Nat) (m : WorkflowState S T V X) :
    LeadsTo m (synchronizeMoments w actions fuel m) (synchronize w actions fuel m).1 := by
  unfold synchronizeMoments synchronize
  cases m.stored.transitionId with
  | none => exact automatic_leadsTo w _ _ m fun t => fire_leadsTo w actions fuel t ∅ m
  | some transitionId => exact fire_leadsTo w actions fuel transitionId ∅ m

/-- The moments of `fire_transition_alias`. -/
def fireAliasMoments [DecidableEq A] (w : Workflow S T A)
    (actions : T → Option (X → X × ActionResult V E)) (fuel : Nat) (alias_ : A)
    (m : WorkflowState S T V X) : List (Moment S T V X) :=
  match Workflow.getTransitions w m.stored.state with
  | none => []
  | some available =>
    match available.filter fun t => t.alias_ = some alias_ with
    | [t] => fireMoments w actions fuel t.transitionId ∅ m
    | _ => []

theorem fireAlias_leadsTo [DecidableEq A] (w : Workflow S T A)
    (actions : T → Option (X → X × ActionResult V E)) (fuel : Nat) (alias_ : A)
    (m : WorkflowState S T V X) :
    LeadsTo m (fireAliasMoments w actions fuel alias_ m)
      (fireTransitionAlias w actions fuel alias_ m).1 := by
  unfold fireAliasMoments fireTransitionAlias
  cases Workflow.getTransitions w m.stored.state with
  | none => exact .stays m
  | some available =>
    dsimp only
    cases available.filter fun t => t.alias_ = some alias_ with
    | nil => exact .stays m
    | cons t others =>
      cases others with
      | nil => exact fire_leadsTo w actions fuel t.transitionId ∅ m
      | cons t' others => exact .stays m

/-- What has been stored when a call has ended was stored before it or at one of its moments. -/
def StoredAt (m : WorkflowState S T V X) (moments : List (Moment S T V X))
    (m' : WorkflowState S T V X) : Prop :=
  ∀ d, d ∈ m'.stored :: m'.history ↔
    d ∈ m.stored :: m.history ∨ ∃ moment ∈ moments, moment.stored = d

omit [DecidableEq S] [DecidableEq T] in
theorem leadsTo_storedAt (m m' : WorkflowState S T V X) (moments : List (Moment S T V X))
    (h : LeadsTo m moments m') : StoredAt m moments m' := by
  induction h with
  | stays m =>
    intro d
    simp
  | moves m m' p ps _ _ ih =>
    intro d
    have hfirst : d ∈ p.stored :: m.stored :: m.history ↔
        p.stored = d ∨ d ∈ m.stored :: m.history := by
      rw [List.mem_cons, eq_comm]
    refine (ih d).trans ?_
    constructor
    · rintro (hbefore | ⟨moment, hmem, hstored⟩)
      · rcases hfirst.mp hbefore with hnow | hbefore
        · exact Or.inr ⟨p, List.mem_cons_self, hnow⟩
        · exact Or.inl hbefore
      · exact Or.inr ⟨moment, List.mem_cons_of_mem _ hmem, hstored⟩
    · rintro (hbefore | ⟨moment, hmem, hstored⟩)
      · exact Or.inl (hfirst.mpr (Or.inr hbefore))
      · rcases List.mem_cons.mp hmem with rfl | hmem
        · exact Or.inl (hfirst.mpr (Or.inl hstored))
        · exact Or.inr ⟨moment, hmem, hstored⟩

omit [DecidableEq S] [DecidableEq T] in
theorem storedAt_append (m₁ m₂ m₃ : WorkflowState S T V X) (moments₁ moments₂ : List (Moment S T V X))
    (h₁ : StoredAt m₁ moments₁ m₂) (h₂ : StoredAt m₂ moments₂ m₃) :
    StoredAt m₁ (moments₁ ++ moments₂) m₃ := by
  intro d
  rw [h₂ d, h₁ d]
  simp only [List.mem_append, or_and_right, exists_or, or_assoc]

end moments

end Juju.Lib

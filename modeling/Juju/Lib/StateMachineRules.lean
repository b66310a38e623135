import Juju.Lib.StateMachine

namespace Juju.Lib
open Juju.Base

variable {S T A V X E : Type} [DecidableEq S] [DecidableEq T]

/-- The transition can be fired in the current state, and it is the one that its id names. -/
structure CanFire (w : Workflow S T A) (d : StateDict S T V) (transition : Transition S T A) :
    Prop where
  available : ∃ available, Workflow.getTransitions w d.state = some available ∧
    transition.transitionId ∈ available.map Transition.transitionId
  named : Workflow.getTransition w transition.transitionId = some transition

section rules

variable (w : Workflow S T A) (actions : T → Option (X → X × ActionResult V E)) (fuel : Nat)
  (vars : Dict String V) (m : WorkflowState S T V X) (t : Transition S T A)

theorem fireTransition_unavailable (transitionId : T) (available : List (Transition S T A))
    (hav : Workflow.getTransitions w m.stored.state = some available)
    (hid : transitionId ∉ available.map Transition.transitionId) :
    fireTransition w actions (fuel + 1) transitionId vars m = (m, .invalidTransition) := by
  simp only [fireTransition, hav]
  rw [if_pos hid]

theorem fireTransition_canFire (h : CanFire w m.stored t) :
    fireTransition w actions (fuel + 1) t.transitionId vars m =
      match runAction actions t.transitionId m.context with
      | (context, .raised e) =>
        ({ setInflight m (some t.transitionId) with context := context }, .raised e)
      | (context, .blocked) =>
        ({ setInflight m (some t.transitionId) with context := context }, .blocked)
      | (context, .failed) =>
        let m := { setInflight m (some t.transitionId) with context := context }
        match t.errorTransitionId with
        | none => (setInflight m none, .returned false)
        | some error =>
          let (m, r) := fireTransition w actions fuel error ∅ m
          (m, r.into false)
      | (context, .done added) =>
        let m := { setInflight m (some t.transitionId) with context := context }
        let m := setState m t.destination (added.getD ∅ ∪ vars)
        let (m, r) := fireAutomatic w (fun t => fireTransition w actions fuel t ∅) m
        (m, r.into true) := by
  obtain ⟨available, hav, hid⟩ := h.available
  conv_lhs => unfold fireTransition
  simp only [hav]
  rw [if_neg (not_not_intro hid)]
  simp only [h.named]
  have hcontext : (setInflight m (some t.transitionId)).context = m.context := rfl
  rw [hcontext]
  rcases hact : runAction actions t.transitionId m.context with ⟨context, result⟩
  cases result <;> rfl

theorem fireTransition_raised (h : CanFire w m.stored t) (context : X) (e : E)
    (hact : runAction actions t.transitionId m.context = (context, .raised e)) :
    fireTransition w actions (fuel + 1) t.transitionId vars m =
      ({ setInflight m (some t.transitionId) with context := context }, .raised e) := by
  rw [fireTransition_canFire w actions fuel vars m t h, hact]

theorem fireTransition_blocked (h : CanFire w m.stored t) (context : X)
    (hact : runAction actions t.transitionId m.context = (context, .blocked)) :
    fireTransition w actions (fuel + 1) t.transitionId vars m =
      ({ setInflight m (some t.transitionId) with context := context }, .blocked) := by
  rw [fireTransition_canFire w actions fuel vars m t h, hact]

theorem fireTransition_failed (h : CanFire w m.stored t) (context : X) (error : T)
    (hact : runAction actions t.transitionId m.context = (context, .failed))
    (herr : t.errorTransitionId = some error) :
    fireTransition w actions (fuel + 1) t.transitionId vars m =
      ((fireTransition w actions fuel error ∅
          { setInflight m (some t.transitionId) with context := context }).1,
        (fireTransition w actions fuel error ∅
          { setInflight m (some t.transitionId) with context := context }).2.into false) := by
  rw [fireTransition_canFire w actions fuel vars m t h, hact]
  simp only [herr]

/-- A transition that fails and has no error transition leaves the state as it was. -/
theorem fireTransition_abandoned (h : CanFire w m.stored t) (context : X)
    (hact : runAction actions t.transitionId m.context = (context, .failed))
    (herr : t.errorTransitionId = none) :
    fireTransition w actions (fuel + 1) t.transitionId vars m =
      (setInflight { setInflight m (some t.transitionId) with context := context } none,
        .returned false) := by
  rw [fireTransition_canFire w actions fuel vars m t h, hact]
  simp only [herr]

/-- A transition into a state with no automatic transition. -/
theorem fireTransition_done (h : CanFire w m.stored t) (context : X)
    (added : Option (Dict String V))
    (hact : runAction actions t.transitionId m.context = (context, .done added))
    (available : List (Transition S T A))
    (hav : Workflow.getTransitions w (some t.destination) = some available)
    (hauto : available.find? Transition.automatic = none) :
    fireTransition w actions (fuel + 1) t.transitionId vars m =
      (setState { setInflight m (some t.transitionId) with context := context } t.destination
        (added.getD ∅ ∪ vars), .returned true) := by
  rw [fireTransition_canFire w actions fuel vars m t h, hact]
  have hstate : ∀ m' : WorkflowState S T V X,
      (setState m' t.destination (added.getD ∅ ∪ vars)).stored.state = some t.destination :=
    fun _ => rfl
  simp only [fireAutomatic, hstate, hav, hauto, FireResult.into]

/-- A transition into a state from which an automatic transition leads on. -/
theorem fireTransition_continues (h : CanFire w m.stored t) (context : X)
    (added : Option (Dict String V))
    (hact : runAction actions t.transitionId m.context = (context, .done added))
    (available : List (Transition S T A)) (next : Transition S T A)
    (hav : Workflow.getTransitions w (some t.destination) = some available)
    (hauto : available.find? Transition.automatic = some next) :
    fireTransition w actions (fuel + 1) t.transitionId vars m =
      ((fireTransition w actions fuel next.transitionId ∅
          (setState { setInflight m (some t.transitionId) with context := context }
            t.destination (added.getD ∅ ∪ vars))).1,
        (fireTransition w actions fuel next.transitionId ∅
          (setState { setInflight m (some t.transitionId) with context := context }
            t.destination (added.getD ∅ ∪ vars))).2.into true) := by
  rw [fireTransition_canFire w actions fuel vars m t h, hact]
  have hstate : ∀ m' : WorkflowState S T V X,
      (setState m' t.destination (added.getD ∅ ∪ vars)).stored.state = some t.destination :=
    fun _ => rfl
  simp only [fireAutomatic, hstate, hav, hauto]

end rules

section context

variable (w : Workflow S T A) (actions : T → Option (X → X × ActionResult V E)) (P : X → Prop)

theorem fireAutomatic_context
    (fire : T → WorkflowState S T V X → WorkflowState S T V X × FireResult E)
    (m : WorkflowState S T V X) (hfire : ∀ t m', P m'.context → P (fire t m').1.context)
    (h : P m.context) : P (fireAutomatic w fire m).1.context := by
  unfold fireAutomatic
  split
  · exact h
  · split
    · exact h
    · exact hfire _ m h

/-- What every action keeps true of the context, a transition does too. -/
theorem fireTransition_context (fuel : Nat) (transitionId : T) (vars : Dict String V)
    (m : WorkflowState S T V X) (hact : ∀ t x, P x → P (runAction actions t x).1)
    (h : P m.context) : P (fireTransition w actions fuel transitionId vars m).1.context := by
  induction fuel generalizing transitionId vars m with
  | zero => exact h
  | succ fuel ih =>
    unfold fireTransition
    split
    · exact h
    · split
      · exact h
      · simp only
        split
        · exact h
        · have hacted := hact transitionId (setInflight m (some transitionId)).context h
          generalize runAction actions transitionId
            (setInflight m (some transitionId)).context = ran at hacted ⊢
          rcases ran with ⟨x, result⟩
          cases result with
          | raised e => exact hacted
          | blocked => exact hacted
          | failed =>
            simp only
            split
            · exact hacted
            · exact ih _ _ _ hacted
          | done added =>
            apply fireAutomatic_context w P
            · intro t m' hm'
              exact ih t ∅ m' hm'
            · exact hacted

end context

section recorded

/-- A transition is only recorded in flight in a state in which it is available. -/
def WellRecorded (w : Workflow S T A) (d : StateDict S T V) : Prop :=
  ∀ t, d.transitionId = some t →
    ∃ available, Workflow.getTransitions w d.state = some available ∧
      t ∈ available.map Transition.transitionId

/-- All that has ever been stored is well recorded. -/
def HistoryRecorded (w : Workflow S T A) (m : WorkflowState S T V X) : Prop :=
  ∀ d ∈ m.stored :: m.history, WellRecorded w d

variable (w : Workflow S T A) (m : WorkflowState S T V X)

theorem wellRecorded_none (d : StateDict S T V) (h : d.transitionId = none) :
    WellRecorded w d := by
  intro t ht
  rw [h] at ht
  cases ht

theorem historyRecorded_store (d : StateDict S T V) (hd : WellRecorded w d)
    (h : HistoryRecorded w m) : HistoryRecorded w (m.store d) := by
  intro d' hd'
  rcases List.mem_cons.mp hd' with rfl | hold
  · exact hd
  · exact h d' hold

theorem historyRecorded_context (x : X) (h : HistoryRecorded w m) :
    HistoryRecorded w { m with context := x } := h

theorem historyRecorded_setState (s : S) (vars : Dict String V) (h : HistoryRecorded w m) :
    HistoryRecorded w (setState m s vars) :=
  historyRecorded_store w m _ (wellRecorded_none w _ rfl) h

theorem historyRecorded_setInflight_none (h : HistoryRecorded w m) :
    HistoryRecorded w (setInflight m none) :=
  historyRecorded_store w m _ (wellRecorded_none w _ rfl) h

theorem historyRecorded_setInflight_some (t : T) (available : List (Transition S T A))
    (hav : Workflow.getTransitions w m.stored.state = some available)
    (ht : t ∈ available.map Transition.transitionId) (h : HistoryRecorded w m) :
    HistoryRecorded w (setInflight m (some t)) := by
  apply historyRecorded_store w m _ _ h
  intro t' ht'
  cases ht'
  exact ⟨available, hav, ht⟩

theorem fireAutomatic_recorded
    (fire : T → WorkflowState S T V X → WorkflowState S T V X × FireResult E)
    (hfire : ∀ t m', HistoryRecorded w m' → HistoryRecorded w (fire t m').1)
    (h : HistoryRecorded w m) : HistoryRecorded w (fireAutomatic w fire m).1 := by
  unfold fireAutomatic
  split
  · exact h
  · split
    · exact h
    · exact hfire _ m h

theorem fireTransition_recorded (actions : T → Option (X → X × ActionResult V E)) (fuel : Nat)
    (transitionId : T) (vars : Dict String V) (h : HistoryRecorded w m) :
    HistoryRecorded w (fireTransition w actions fuel transitionId vars m).1 := by
  induction fuel generalizing transitionId vars m with
  | zero => exact h
  | succ fuel ih =>
    unfold fireTransition
    split
    · exact h
    · rename_i available hav
      split
      · exact h
      · rename_i hid
        have hinflight := historyRecorded_setInflight_some w m transitionId available hav
          (not_not.mp hid) h
        simp only
        split
        · exact hinflight
        · rename_i transition _
          generalize runAction actions transitionId
            (setInflight m (some transitionId)).context = ran
          rcases ran with ⟨x, result⟩
          have hacted := historyRecorded_context w _ x hinflight
          cases result with
          | raised e => exact hacted
          | blocked => exact hacted
          | failed =>
            simp only
            split
            · exact historyRecorded_setInflight_none w _ hacted
            · exact ih _ _ _ hacted
          | done added =>
            apply fireAutomatic_recorded w _ _ _
            · exact historyRecorded_setState w _ _ _ hacted
            · intro t m' hm'
              exact ih m' t ∅ hm'

theorem fireTransitionAlias_recorded [DecidableEq A]
    (actions : T → Option (X → X × ActionResult V E)) (fuel : Nat) (alias_ : A)
    (h : HistoryRecorded w m) :
    HistoryRecorded w (fireTransitionAlias w actions fuel alias_ m).1 := by
  unfold fireTransitionAlias
  split
  · exact h
  · split
    · exact fireTransition_recorded w m actions fuel _ ∅ h
    · exact h

theorem synchronize_recorded (actions : T → Option (X → X × ActionResult V E)) (fuel : Nat)
    (h : HistoryRecorded w m) : HistoryRecorded w (synchronize w actions fuel m).1 := by
  unfold synchronize
  split
  · exact fireTransition_recorded w m actions fuel _ ∅ h
  · apply fireAutomatic_recorded w m _ _ h
    intro t m' hm'
    exact fireTransition_recorded w m' actions fuel t ∅ hm'

end recorded

end Juju.Lib

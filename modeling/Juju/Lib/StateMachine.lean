import Juju.Base.Dict

namespace Juju.Lib
open Juju.Base

/-- `S` are the states (`none` is the state None), `T` the transition ids, `A` the aliases. -/
structure Transition (S T A : Type) where
  transitionId : T
  source : Option S
  destination : S
  errorTransitionId : Option T
  automatic : Bool
  alias_ : Option A

abbrev Workflow (S T A : Type) := List (Transition S T A)

/-- What `_store` persists; an absent "transition_id" is `none`. -/
structure StateDict (S T V : Type) where
  state : Option S
  stateVariables : Dict String V
  transitionId : Option T

/-- A workflow state: the dictionary stored last, all that have been stored before it (newest
first), and the object that the actions work on. -/
structure WorkflowState (S T V X : Type) where
  stored : StateDict S T V
  history : List (StateDict S T V)
  context : X

/-- How the action of a transition ends. -/
inductive ActionResult (V E : Type) where
  | done (vars : Option (Dict String V))
  /-- It raises `TransitionError`. -/
  | failed
  | raised (e : E)
  /-- It waits for something that never happens. -/
  | blocked

inductive FireResult (E : Type) where
  | returned (success : Bool)
  | invalidTransition
  | invalidState
  | keyError
  | raised (e : E)
  | blocked
  | outOfFuel
  deriving DecidableEq

section workflow

variable {S T A : Type} [DecidableEq S] [DecidableEq T]

def Workflow.hasState (w : Workflow S T A) (s : Option S) : Bool :=
  w.any fun t => t.source = s ∨ some t.destination = s

/-- `_transitions[transition_id]`, where a later transition replaces an earlier one. -/
def Workflow.getTransition (w : Workflow S T A) (transitionId : T) :
    Option (Transition S T A) :=
  w.reverse.find? fun t => t.transitionId = transitionId

/-- `none` stands for `InvalidStateError`. -/
def Workflow.getTransitions (w : Workflow S T A) (s : Option S) :
    Option (List (Transition S T A)) :=
  if Workflow.hasState w s then
    some ((w.filter fun t => t.source = s).filterMap fun t =>
      Workflow.getTransition w t.transitionId)
  else none

end workflow

section state

variable {S T A V X E : Type}

def WorkflowState.store (m : WorkflowState S T V X) (d : StateDict S T V) :
    WorkflowState S T V X :=
  { m with stored := d, history := m.stored :: m.history }

def setState (m : WorkflowState S T V X) (s : S) (vars : Dict String V) :
    WorkflowState S T V X :=
  m.store ⟨some s, vars, none⟩

def setInflight (m : WorkflowState S T V X) (transitionId : Option T) :
    WorkflowState S T V X :=
  m.store { m.stored with transitionId := transitionId }

variable [DecidableEq S] [DecidableEq T]

/-- `_fire_automatic_transitions`, given `fire_transition`. -/
def fireAutomatic (w : Workflow S T A)
    (fire : T → WorkflowState S T V X → WorkflowState S T V X × FireResult E)
    (m : WorkflowState S T V X) : WorkflowState S T V X × FireResult E :=
  match Workflow.getTransitions w m.stored.state with
  | none => (m, .invalidState)
  | some available =>
    match available.find? Transition.automatic with
    | none => (m, .returned true)
    | some t => fire t.transitionId m

/-- The result of a transition after those it has fired itself: exceptions pass through. -/
def FireResult.into (r : FireResult E) (success : Bool) : FireResult E :=
  match r with
  | .returned _ => .returned success
  | r => r

/-- The action of a transition; a transition without one succeeds. -/
def runAction (actions : T → Option (X → X × ActionResult V E)) (transitionId : T)
    (context : X) : X × ActionResult V E :=
  match actions transitionId with
  | none => (context, .done none)
  | some action => action context

/-- `fire_transition`, where `actions` are the methods `do_…`. -/
def fireTransition (w : Workflow S T A) (actions : T → Option (X → X × ActionResult V E)) :
    Nat → T → Dict String V → WorkflowState S T V X → WorkflowState S T V X × FireResult E
  | 0, _, _, m => (m, .outOfFuel)
  | fuel + 1, transitionId, stateVariables, m =>
    match Workflow.getTransitions w m.stored.state with
    | none => (m, .invalidState)
    | some available =>
      if transitionId ∉ available.map Transition.transitionId then (m, .invalidTransition)
      else
        let m := setInflight m (some transitionId)
        match Workflow.getTransition w transitionId with
        | none => (m, .keyError)
        | some transition =>
          let (context, result) := runAction actions transitionId m.context
          let m := { m with context := context }
          match result with
          | .raised e => (m, .raised e)
          | .blocked => (m, .blocked)
          | .failed =>
            match transition.errorTransitionId with
            | none => (setInflight m none, .returned false)
            | some error =>
              let (m, r) := fireTransition w actions fuel error ∅ m
              (m, r.into false)
          | .done vars =>
            let m := setState m transition.destination (vars.getD ∅ ∪ stateVariables)
            let (m, r) := fireAutomatic w (fun t => fireTransition w actions fuel t ∅) m
            (m, r.into true)

/-- `fire_transition_alias`. -/
def fireTransitionAlias [DecidableEq A] (w : Workflow S T A)
    (actions : T → Option (X → X × ActionResult V E)) (fuel : Nat) (alias_ : A)
    (m : WorkflowState S T V X) : WorkflowState S T V X × FireResult E :=
  match Workflow.getTransitions w m.stored.state with
  | none => (m, .invalidState)
  | some available =>
    match available.filter fun t => t.alias_ = some alias_ with
    | [t] => fireTransition w actions fuel t.transitionId ∅ m
    | _ => (m, .invalidTransition)

/-- `WorkflowState.synchronize`. -/
def synchronize (w : Workflow S T A) (actions : T → Option (X → X × ActionResult V E))
    (fuel : Nat) (m : WorkflowState S T V X) : WorkflowState S T V X × FireResult E :=
  match m.stored.transitionId with
  | some transitionId => fireTransition w actions fuel transitionId ∅ m
  | none => fireAutomatic w (fun t => fireTransition w actions fuel t ∅) m

end state

end Juju.Lib

import Juju.Lib.StateMachine

namespace Juju.Unit
open Juju.Lib

inductive RelationState where
  | up
  | down
  | error
  | departed
  deriving DecidableEq

inductive RelationTransition where
  | start
  | stop
  | restart
  | error
  | reset
  | depart
  | downDepart
  | errorDepart
  deriving DecidableEq

inductive RelationAlias where
  | retry
  deriving DecidableEq

/-- The transitions of `RelationWorkflow`, each under its id. -/
def relationTransition (t : RelationTransition) :
    Transition RelationState RelationTransition RelationAlias :=
  match t with
  | .start => ⟨t, none, .up, none, true, none⟩
  | .stop => ⟨t, some .up, .down, none, false, none⟩
  | .restart => ⟨t, some .down, .up, none, false, some .retry⟩
  | .error => ⟨t, some .up, .error, none, false, none⟩
  | .reset => ⟨t, some .error, .up, none, false, none⟩
  | .depart => ⟨t, some .up, .departed, none, false, none⟩
  | .downDepart => ⟨t, some .down, .departed, none, false, none⟩
  | .errorDepart => ⟨t, some .error, .departed, none, false, none⟩

def relationWorkflow : Workflow RelationState RelationTransition RelationAlias :=
  [.start, .stop, .restart, .error, .reset, .depart, .downDepart, .errorDepart].map
    relationTransition

/-- What a task with the workflow lock does, between the points at which it may have to wait. -/
inductive WorkflowOp where
  /-- `set_inflight`, and the wait for ZooKeeper. -/
  | setInflight (t : RelationTransition)
  /-- The acquisition of the run lock of the relation lifecycle. -/
  | acquireRun
  | stopLifecycle (stopWatches : Bool)
  | runScheduler
  | startWatcher
  | releaseRun
  /-- `set_hook_error_handler(None)`. -/
  | clearHandler
  /-- The call of the executor with the relation-broken hook, up to the end of the hook. -/
  | executeHook
  /-- `set_state`, and the wait for ZooKeeper. -/
  | setState (s : RelationState)
  deriving DecidableEq

/-- `UnitRelationLifecycle.stop`. -/
def lifecycleStop (stopWatches : Bool) : List WorkflowOp :=
  [.acquireRun, .stopLifecycle stopWatches, .releaseRun]

/-- `UnitRelationLifecycle.start`. -/
def lifecycleStart (startWatches startScheduler : Bool) : List WorkflowOp :=
  [.acquireRun] ++ (if startScheduler then [.runScheduler] else []) ++
    (if startWatches then [.startWatcher] else []) ++ [.releaseRun]

/-- `UnitRelationLifecycle.depart`. -/
def lifecycleDepart : List WorkflowOp := [.acquireRun, .executeHook, .releaseRun]

def doDepart : List WorkflowOp := lifecycleStop true ++ [.clearHandler] ++ lifecycleDepart

/-- The methods `do_…` of `RelationWorkflowState`. -/
def relationAction : RelationTransition → List WorkflowOp
  | .start => lifecycleStart true true
  | .stop => lifecycleStop true
  | .restart => lifecycleStart true true
  | .error => lifecycleStop false
  | .reset => lifecycleStart false true
  | .depart => doDepart
  | .downDepart => doDepart
  | .errorDepart => doDepart

/-- `fire_transition`, of a transition that is available; no automatic one follows it. -/
def fireRelation (t : RelationTransition) : List WorkflowOp :=
  .setInflight t :: relationAction t ++ [.setState (relationTransition t).destination]

/-- The transitions available in a state. -/
def relationTransitions (s : Option RelationState) :
    List (Transition RelationState RelationTransition RelationAlias) :=
  (Workflow.getTransitions relationWorkflow s).getD []

/-- `fire_transition`, which raises where the transition is not available. -/
def fireIfAvailable (s : Option RelationState) (t : RelationTransition) : List WorkflowOp :=
  if t ∈ (relationTransitions s).map Transition.transitionId then fireRelation t else []

/-- `transition_state`. -/
def transitionState (s : Option RelationState) (destination : RelationState) :
    List WorkflowOp :=
  match (relationTransitions s).find? fun t => t.destination = destination with
  | some t => fireRelation t.transitionId
  | none => []

/-- `_fire_automatic_transitions`. -/
def fireAutomaticRelation (s : Option RelationState) : List WorkflowOp :=
  match (relationTransitions s).find? Transition.automatic with
  | some t => fireRelation t.transitionId
  | none => []

/-- Whether `synchronize` has the lifecycle watch, and execute, in a state. -/
def synchronizeTable : Option RelationState → Bool × Bool
  | some .up => (true, true)
  | some .error => (true, false)
  | _ => (false, false)

/-- `RelationWorkflowState.synchronize`, with the transition that was in flight. -/
def synchronizeRelation (s : Option RelationState) (inflight : Option RelationTransition) :
    List WorkflowOp :=
  let (watches, scheduler) := synchronizeTable s
  lifecycleStop true ++
    (if watches || scheduler then lifecycleStart watches scheduler else []) ++
    match inflight with
    | some t => fireIfAvailable s t
    | none => fireAutomaticRelation s

/-- The workflow state on disk, with the flags of the lifecycle: `watching`, `executing`, and
whether an error handler is set. -/
structure RelationSide where
  state : Option RelationState
  inflight : Option RelationTransition
  watching : Bool
  executing : Bool
  handled : Bool

namespace RelationSide

def stopLifecycle (side : RelationSide) (stopWatches : Bool) : RelationSide :=
  { side with watching := side.watching && !stopWatches, executing := false }

/-- What an operation changes here. -/
def perform (side : RelationSide) : WorkflowOp → RelationSide
  | .setInflight t => { side with inflight := some t }
  | .stopLifecycle stopWatches => side.stopLifecycle stopWatches
  | .runScheduler => { side with executing := true }
  | .startWatcher => { side with watching := true }
  | .clearHandler => { side with handled := false }
  | .setState s => { side with state := some s, inflight := none }
  | _ => side

/-- The flags are those that `synchronize` establishes. -/
def InTable (side : RelationSide) : Prop :=
  side.state ≠ none ∧ (side.watching, side.executing) = synchronizeTable side.state

end RelationSide

end Juju.Unit

import Juju.Base.Runs
import Juju.Unit.RelationWorkflow

namespace Juju.Unit
open Juju.Base

/-- Who has the workflow lock or waits for it: a loop of the scheduler in the error handler, or
a caller of the agent. -/
inductive WorkflowTask (C : Type) where
  | error (loop : Nat)
  | resolved (caller : C)
  | stop (caller : C)
  | restart (caller : C)
  | depart (caller : C)
  | synchronize (caller : C)

/-- Who has the run lock or waits for it: the holder of the workflow lock, a caller that stops the
lifecycle of a relation about to depart, or a loop with a hook. -/
inductive RunTask (C : Type) where
  | workflow
  | departure (caller : C)
  | hook (loop : Nat)

/-- A relation's workflow and lifecycle. Each lock is a line whose first has the lock; `ops` is
what the holder of the workflow lock has still to do, `departing` has the callers between the two
halves of a departure, `loops` the loops of `HookScheduler.run` that wait for a change or come to
their `while`, `failing` those whose hook has failed and whose error is not yet reported. -/
structure RelationTasks (C : Type) where
  side : RelationSide
  workflowLock : List (WorkflowTask C)
  ops : List WorkflowOp
  runLock : List (RunTask C)
  departing : List C
  nextLoop : Nat
  loops : List Nat
  failing : List Nat

inductive RelationEvent (C : Type) where
  /-- A caller comes for the workflow lock. -/
  | resolved (caller : C)
  | stop (caller : C)
  | restart (caller : C)
  /-- A caller comes to stop the lifecycle, before it has the relation depart. -/
  | depart (caller : C)
  /-- The holder of the workflow lock goes on. -/
  | goOn
  | departureStops
  /-- The caller at `i` of those between the halves of a departure goes on. -/
  | departureGoesOn (i : Nat)
  /-- The loop at `i` gets a change and comes with its hook. -/
  | change (i : Nat)
  /-- The loop at `i` ends. -/
  | loopEnds (i : Nat)
  /-- The hook under way ends. -/
  | hookEnds (success : Bool)
  /-- The loop at `i` of those with a failed hook goes on. -/
  | errorReported (i : Nat)

/-- What goes on by itself, with no caller coming. -/
def RelationEvent.internal {C : Type} : RelationEvent C → Bool
  | .goOn | .departureStops | .change _ | .loopEnds _ | .hookEnds _ | .errorReported _ => true
  | _ => false

def RelationEvent.endsHook {C : Type} : RelationEvent C → Bool
  | .hookEnds _ => true
  | _ => false

/-- What a task does once it has the workflow lock; an error that comes in another state than
up raises. -/
def WorkflowTask.program {C : Type} (side : RelationSide) : WorkflowTask C → List WorkflowOp
  | .error _ => fireIfAvailable side.state .error
  | .resolved _ => if side.state ≠ some .up then transitionState side.state .up else []
  | .stop _ => transitionState side.state .down
  | .restart _ => if side.state = some .down then transitionState side.state .up else []
  | .depart _ => transitionState side.state .departed
  | .synchronize _ => synchronizeRelation side.state side.inflight

def WorkflowTask.caller {C : Type} : WorkflowTask C → Option C
  | .error _ => none
  | .resolved caller | .stop caller | .restart caller | .depart caller | .synchronize caller =>
    some caller

def RunTask.caller {C : Type} : RunTask C → Option C
  | .departure caller => some caller
  | _ => none

namespace RelationTasks

variable {C : Type}

/-- The callers at work on the relation, but for those between the halves of a departure. -/
def callers (s : RelationTasks C) : List C :=
  s.runLock.filterMap RunTask.caller ++ s.workflowLock.filterMap WorkflowTask.caller

/-- The first in the line has got the workflow lock, and goes on until it waits for ZooKeeper; one
with nothing to do lets the next have the lock. -/
def takeWorkflow (s : RelationTasks C) : List (WorkflowTask C) → RelationTasks C
  | [] => { s with workflowLock := [], ops := [] }
  | task :: line =>
    match task.program s.side with
    | [] => s.takeWorkflow line
    | op :: ops => { s with workflowLock := task :: line, ops := op :: ops }

def acquireWorkflow (s : RelationTasks C) (task : WorkflowTask C) : RelationTasks C :=
  match s.workflowLock with
  | [] => s.takeWorkflow [task]
  | line => { s with workflowLock := line ++ [task] }

/-- The holder has nothing more to do under the workflow lock. After an error the loop clears the
scheduler's flag, once the next in the line has come to a wait. -/
def releaseWorkflow (s : RelationTasks C) (line : List (WorkflowTask C)) :
    WorkflowTask C → RelationTasks C
  | .error _ =>
    let s := s.takeWorkflow line
    { s with side := { s.side with executing := false } }
  | _ => s.takeWorkflow line

/-- The holder of the workflow lock waits for the run lock. -/
def waitsForRun (s : RelationTasks C) : Bool :=
  s.runLock.tail.any fun task => match task with
    | .workflow => true
    | _ => false

/-- The holder of the workflow lock goes on with an operation. -/
def perform (s : RelationTasks C) (op : WorkflowOp) : RelationTasks C :=
  let performed := { s with side := s.side.perform op }
  match op with
  | .acquireRun => { performed with runLock := s.runLock ++ [.workflow] }
  | .releaseRun => { performed with runLock := s.runLock.tail }
  | .runScheduler =>
    if s.side.executing then performed
    else { performed with loops := s.loops ++ [s.nextLoop], nextLoop := s.nextLoop + 1 }
  | _ => performed

def step (s : RelationTasks C) : RelationEvent C → Option (RelationTasks C)
  | .resolved caller => some (s.acquireWorkflow (.resolved caller))
  | .stop caller => some (s.acquireWorkflow (.stop caller))
  | .restart caller => some (s.acquireWorkflow (.restart caller))
  | .depart caller => some { s with runLock := s.runLock ++ [.departure caller] }
  | .goOn =>
    if s.waitsForRun then none
    else match s.workflowLock, s.ops with
      | [], _ => none
      | task :: line, [] => some (s.releaseWorkflow line task)
      | _, .executeHook :: _ => none
      | _, op :: ops => some ({ s with ops := ops }.perform op)
  | .departureStops =>
    match s.runLock with
    | .departure caller :: line =>
      some { s with
        side := s.side.stopLifecycle true
        runLock := line
        departing := s.departing ++ [caller] }
    | _ => none
  | .departureGoesOn i =>
    match s.departing[i]? with
    | none => none
    | some caller =>
      some ({ s with departing := s.departing.eraseIdx i }.acquireWorkflow (.depart caller))
  | .change i =>
    match s.loops[i]? with
    | none => none
    | some loop =>
      some { s with loops := s.loops.eraseIdx i, runLock := s.runLock ++ [.hook loop] }
  | .loopEnds i => if i < s.loops.length then some { s with loops := s.loops.eraseIdx i } else none
  | .hookEnds success =>
    match s.runLock, s.ops with
    | .hook loop :: line, _ =>
      some (if success then { s with runLock := line, loops := s.loops ++ [loop] }
        else { s with runLock := line, failing := s.failing ++ [loop] })
    | .workflow :: _, .executeHook :: ops => some { s with ops := ops }
    | _, _ => none
  | .errorReported i =>
    match s.failing[i]? with
    | none => none
    | some loop =>
      let s := { s with failing := s.failing.eraseIdx i }
      -- without an error handler the exception ends the loop
      some (if s.side.handled then s.acquireWorkflow (.error loop) else s)

/-- A workflow state just constructed over what is on disk, with a caller about to synchronize
it; a transition in flight is one from the state. -/
inductive Synchronizing : RelationTasks C → Prop where
  | begun (caller : C) (state : Option RelationState) (inflight : Option RelationTransition) :
      (∀ t, inflight = some t → (relationTransition t).source = state) →
      Synchronizing
        (⟨⟨state, inflight, false, false, true⟩, [.synchronize caller],
          synchronizeRelation state inflight, [], [], 0, [], []⟩)

/-- No caller, no error handler and no hook is in progress. -/
structure Quiet (s : RelationTasks C) : Prop where
  workflowLock : s.workflowLock = []
  runLock : s.runLock = []
  departing : s.departing = []
  failing : s.failing = []

end RelationTasks

end Juju.Unit

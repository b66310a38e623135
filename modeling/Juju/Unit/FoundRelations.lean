import Juju.Unit.RelationWorkflow

namespace Juju.Unit

/-- A relation of a unit whose lifecycle has not been started in this process: whether
`_load_relations` finds it among the relations of the service, and the first call of their watch
too; what its workflow has stored; whether `get_unit_state` and `add_unit_state` find what they
read in the topology, and `watch_related_units` the role of the unit; whether the scheduler has a
hook to run as soon as it runs; and whether the relation is marked as resolved. -/
structure FoundRelation where
  listed : Bool
  notified : Bool
  state : Option RelationState
  inflight : Option RelationTransition
  joins : Bool
  hasRole : Bool
  hookDue : Bool
  resolved : Bool
  recorded : ∀ t, inflight = some t → (relationTransition t).source = state
  notified_listed : notified = true → listed = true
  role_listed : hasRole = true → listed = true

/-- The relations of the file, and those that are new; and whether the callback for the resolved
relations is the first to be called, or the one for the relations of the service. -/
structure FoundRelations where
  known : List FoundRelation
  added : List FoundRelation
  resolvedFirst : Bool

/-- There is nothing to be loaded. -/
def FoundRelations.nothing : FoundRelations := ⟨[], [], false⟩

inductive RelationFault where
  /-- What is read is not in the topology any more. -/
  | stateError
  /-- A hook is queued at a stopped executor, and its deferred never fires. -/
  | blocked
  deriving DecidableEq

/-- The workflow of a relation in a new process, with its lifecycle: whether that has made its
watch, and whether a hook of its scheduler, which waits for a stopped executor, holds its run
lock. -/
structure LoadedWorkflow where
  relation : FoundRelation
  side : RelationSide
  watched : Bool
  held : Bool

def FoundRelation.workflow (r : FoundRelation) : LoadedWorkflow :=
  ⟨r, ⟨r.state, r.inflight, false, false, false⟩, false, false⟩

namespace LoadedWorkflow

variable (executing : Bool) (w : LoadedWorkflow)

/-- `watch_related_units`, where there is no watch yet. -/
def ensureWatch : Except RelationFault LoadedWorkflow :=
  if w.watched then .ok w
  else if w.relation.hasRole then .ok { w with watched := true }
  else .error .stateError

/-- An operation of a task, with the executor running or not. -/
def perform : WorkflowOp → Except RelationFault LoadedWorkflow
  | .acquireRun => if w.held then .error .blocked else .ok w
  -- `start` makes the watch after it has run the scheduler, and before it starts the watch
  | .runScheduler => ensureWatch { w with side := w.side.perform .runScheduler }
  | .startWatcher => do
    let w ← w.ensureWatch
    return { w with side := w.side.perform .startWatcher }
  -- a hook of the scheduler is the next to have the lock
  | .releaseRun => .ok { w with held := !executing && w.side.executing && w.relation.hookDue }
  | .executeHook => if executing then .ok w else .error .blocked
  | op => .ok { w with side := w.side.perform op }

def run (ops : List WorkflowOp) : Except RelationFault LoadedWorkflow :=
  ops.foldlM (fun w op => w.perform executing op) w

def transitionTo (destination : RelationState) : Except RelationFault LoadedWorkflow :=
  w.run executing (transitionState w.side.state destination)

end LoadedWorkflow

namespace UnitLifecycle

variable (executing : Bool)

/-- `_add_relation`. -/
def addRelation (r : FoundRelation) : Except RelationFault LoadedWorkflow :=
  if r.joins then r.workflow.run executing (synchronizeRelation r.state r.inflight)
  else .error .stateError

/-- A relation in `_load_relations`; one that is gone has its workflow reconstructed. -/
def loadRelation (r : FoundRelation) : Except RelationFault LoadedWorkflow :=
  if r.listed then addRelation executing r else .ok r.workflow

/-- What `start` does with a relation when it starts relations. -/
def restartRelation (w : LoadedWorkflow) : Except RelationFault LoadedWorkflow :=
  if w.side.state = some .down then w.transitionTo executing .up else .ok w

/-- The first part of `start`, up to the watches. -/
def loadRelations (startRelations : Bool) (known : List FoundRelation) :
    Except RelationFault (List LoadedWorkflow) := do
  let workflows ← known.mapM (loadRelation executing)
  if startRelations then workflows.mapM (restartRelation executing) else return workflows

/-- `_process_service_changes`; the calls of `_add_subordinate_unit` are not waited for. -/
def processServiceChanges (added : List FoundRelation) (workflows : List LoadedWorkflow) :
    Except RelationFault (List LoadedWorkflow) := do
  let removed := workflows.filter fun w => !w.relation.notified
  let removed ← removed.mapM fun w => w.run executing (lifecycleStop true)
  let _ ← removed.mapM fun w => w.transitionTo executing .departed
  let added ← added.mapM (addRelation executing)
  return (workflows.filter fun w => w.relation.notified) ++ added

/-- A relation in `_process_relation_resolved_changes`. -/
def resolveRelation (w : LoadedWorkflow) : Except RelationFault LoadedWorkflow :=
  if w.relation.resolved ∧ w.side.state ≠ some .up then w.transitionTo executing .up else .ok w

/-- The first calls of the callbacks, one after the other, for which `start` waits. -/
def initialCalls (found : FoundRelations) (workflows : List LoadedWorkflow) :
    Except RelationFault Unit := do
  if found.resolvedFirst then
    let workflows ← workflows.mapM (resolveRelation executing)
    let _ ← processServiceChanges executing found.added workflows
  else
    let workflows ← processServiceChanges executing found.added workflows
    let _ ← workflows.mapM (resolveRelation executing)

end UnitLifecycle

end Juju.Unit

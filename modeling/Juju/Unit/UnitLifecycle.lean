import Juju.Base.StateExcept
import Juju.Unit.FoundRelations

namespace Juju.Unit
open Juju.Base

inductive HookName where
  | install
  | configChanged
  | start
  | stop
  | upgradeCharm
  deriving DecidableEq

/-- How `_CharmUpgradeOperation.prepare` ends: with an error, with the latest charm already
present, or with a new bundle. -/
inductive Prepared where
  | failed
  | present
  | ready
  deriving DecidableEq

/-- How the outside world behaves during one operation: the result of each hook, of the
preparation and of the extraction of a charm, and the relations that `start` finds. -/
structure Outcomes where
  hook : HookName → Bool
  prepared : Prepared
  extracted : Bool
  found : FoundRelations

/-- The same where the relations have been loaded, and are watched. -/
def Outcomes.loaded (o : Outcomes) : Outcomes := { o with found := .nothing }

/-- The assertions of the unit lifecycle and of the hook executor. -/
inductive Assertion where
  | lifecycleAlreadyStopped
  | needsToBeRunning
  | alreadyRunning
  | alreadyStopped
  | mustNotBeRunning
  deriving DecidableEq

inductive LifecycleError where
  /-- `CharmError`, `CharmUpgradeError` among them, or `FileNotFound`. -/
  | charm
  | assertion (a : Assertion)
  /-- What is read of a relation is not in the topology any more. -/
  | stateError
  /-- A hook is queued at a stopped executor, and its deferred never fires. -/
  | blocked
  deriving DecidableEq

/-- What can be seen of the executor from outside. -/
inductive ExecutorEvent where
  | started
  | stopped
  | hook (name : HookName) (priority : Bool)
  | upgraded
  deriving DecidableEq

/-- The hook executor and the unit lifecycle, with what they have done (the latest first). -/
structure UnitAgentParts where
  executorRunning : Bool
  lifecycleRunning : Bool
  asserted : List Assertion
  events : List ExecutorEvent

abbrev UnitM := EStateM LifecycleError UnitAgentParts

def record (e : ExecutorEvent) : UnitM Unit :=
  modify fun x => { x with events := e :: x.events }

def assertThat (p : Bool) (a : Assertion) : UnitM Unit := do
  if p then pure ()
  else
    modify fun x => { x with asserted := a :: x.asserted }
    throw (.assertion a)

namespace HookExecutor

/-- `start` runs in a deferred nobody waits for: a failed assertion does not reach the caller. -/
def start : UnitM Unit := do
  let x ← get
  if x.executorRunning then
    modify fun x => { x with asserted := .alreadyRunning :: x.asserted }
  else
    modify fun x => { x with executorRunning := true }
    record .started

def stop : UnitM Unit := do
  let x ← get
  assertThat x.executorRunning .alreadyStopped
  modify fun x => { x with executorRunning := false }
  record .stopped

/-- A hook put on the queue is executed if the executor is running. -/
def call (outcomes : Outcomes) (name : HookName) : UnitM Unit := do
  let x ← get
  if x.executorRunning then
    record (.hook name false)
    if outcomes.hook name then pure () else throw .charm
  else throw .blocked

def runPriorityHook (outcomes : Outcomes) (name : HookName) : UnitM Unit := do
  let x ← get
  assertThat (!x.executorRunning) .mustNotBeRunning
  record (.hook name true)
  if outcomes.hook name then pure () else throw .charm

end HookExecutor

namespace UnitLifecycle

variable (outcomes : Outcomes)

def install (fireHooks : Bool) : UnitM Unit :=
  if fireHooks then HookExecutor.call outcomes .install else pure ()

/-- What is done with the relations is waited for. -/
def awaitRelations {α : Type} (done : Except RelationFault α) : UnitM α :=
  match done with
  | .ok a => pure a
  | .error .stateError => throw .stateError
  | .error .blocked => throw .blocked

/-- `start`, in a process that has not loaded the relations before. -/
def start (fireHooks startRelations : Bool) : UnitM Unit := do
  if fireHooks then
    HookExecutor.call outcomes .configChanged
    HookExecutor.call outcomes .start
  let x ← get
  let workflows ← awaitRelations
    (loadRelations x.executorRunning startRelations outcomes.found.known)
  modify fun x => { x with lifecycleRunning := true }
  awaitRelations (initialCalls x.executorRunning outcomes.found workflows)

def stop (fireHooks : Bool) : UnitM Unit := do
  let x ← get
  assertThat x.lifecycleRunning .lifecycleAlreadyStopped
  if fireHooks then HookExecutor.call outcomes .stop
  modify fun x => { x with lifecycleRunning := false }

def configure (fireHooks : Bool) : UnitM Unit := do
  if fireHooks then
    let x ← get
    assertThat x.lifecycleRunning .needsToBeRunning
    HookExecutor.call outcomes .configChanged

def upgradeCharm (fireHooks force : Bool) : UnitM Unit := do
  if outcomes.prepared = .failed then throw .charm
  let x ← get
  if x.executorRunning then HookExecutor.stop
  if outcomes.prepared = .ready ∧ ¬ outcomes.extracted then throw .charm
  if (fireHooks ∨ outcomes.prepared = .ready) ∧ ¬ force then
    HookExecutor.runPriorityHook outcomes .upgradeCharm
  record .upgraded
  HookExecutor.start

end UnitLifecycle

end Juju.Unit

import Mathlib.Data.List.Dedup
import Juju.Unit.RelationTasks
import Juju.Base.Waiting

namespace Juju.Unit
open Juju.Base

/-- A call that has, or waits for, the run lock of the unit lifecycle. -/
inductive UnitTask (R : Type) where
  | upgradeCharm (n : Nat)
  | serviceRelationChanges (n : Nat) (newRelations : List R)
  | relationResolvedChanges (n : Nat) (resolved : List R)

/-- What a call does with the run lock, between the points at which it may have to wait. -/
inductive UnitOp (R : Type) where
  | stopRelation (r : R)
  | departRelation (r : R)
  | addRelation (r : R)
  | resolveRelation (r : R)
  | stopExecutor
  | startExecutor
  deriving DecidableEq

/-- The agent of one unit. Each lock is a line whose first has the lock: the lock of the unit's
workflow, which only upgrades come for, and the run lock of its lifecycle. `ops` is what the
holder of the run lock has still to do once it has `takenUp` its work, and `awaiting` the relation
in which it has a call going on; `departed` are the relations whose removal has been taken up. -/
structure AgentTasks (R : Type) where
  executorRunning : Bool
  nextTask : Nat
  workflowLock : List Nat
  /-- The holder of the workflow lock has come for the run lock. -/
  upgrading : Bool
  runLock : List (UnitTask R)
  takenUp : Bool
  ops : List (UnitOp R)
  awaiting : Option R
  known : List R
  departed : List R
  relations : R → Option (RelationTasks Unit)

inductive AgentEvent (R : Type) where
  /-- An upgrade, or the retry of one, comes for the workflow lock. -/
  | requestUpgrade
  /-- The holder of the workflow lock comes for the run lock. -/
  | upgradeCharm
  /-- The holder of the workflow lock is done. -/
  | finishUpgrade
  | serviceRelationChanges (newRelations : List R)
  | relationResolvedChanges (resolved : List R)
  /-- The holder of the run lock goes on. -/
  | goOn
  /-- The upgrade under way raises. -/
  | failUpgrade
  | relation (r : R) (e : RelationEvent Unit)

namespace AgentTasks

variable {R : Type} [DecidableEq R]

def removed (s : AgentTasks R) (newRelations : List R) : List R :=
  s.known.filter fun r => r ∉ newRelations

def added (s : AgentTasks R) (newRelations : List R) : List R :=
  newRelations.dedup.filter fun r => r ∉ s.known

/-- The holder of the run lock reads what there is to do. ZooKeeper gives no relation the id of
one that has been removed. -/
def takeUp (s : AgentTasks R) : UnitTask R → Option (AgentTasks R)
  | .upgradeCharm _ => some { s with takenUp := true, ops := [.stopExecutor, .startExecutor] }
  | .serviceRelationChanges _ newRelations =>
    if ∃ r ∈ newRelations, r ∈ s.departed then none
    else some { s with
      takenUp := true
      ops := (s.removed newRelations).map .stopRelation ++
        (s.removed newRelations).map .departRelation ++ (s.added newRelations).map .addRelation
      departed := s.departed ++ s.removed newRelations }
  | .relationResolvedChanges _ resolved =>
    some { s with
      takenUp := true
      ops := (resolved.dedup.filter fun r => r ∈ s.known).map .resolveRelation }

/-- The holder of the run lock makes a call in a relation. -/
def deliver (s : AgentTasks R) (r : R) (e : RelationEvent Unit) : Option (AgentTasks R) :=
  (s.relations r).bind fun tasks => (tasks.step e).map fun tasks' =>
    { s with relations := Function.update s.relations r (some tasks'), awaiting := some r }

/-- A relation's workflow and lifecycle just constructed, in `synchronize`. -/
def addedRelation : RelationTasks Unit :=
  ⟨⟨none, none, false, false, true⟩, [.synchronize ()], synchronizeRelation none none, [], [], 0,
    [], []⟩

def perform (s : AgentTasks R) : UnitOp R → Option (AgentTasks R)
  | .stopRelation r => s.deliver r (.depart ())
  | .departRelation r =>
    { s with known := s.known.filter (· ≠ r) }.deliver r (.departureGoesOn 0)
  | .addRelation r =>
    some { s with
      known := s.known ++ [r]
      relations := Function.update s.relations r (some addedRelation)
      awaiting := some r }
  | .resolveRelation r => s.deliver r (.resolved ())
  | .stopExecutor => some { s with executorRunning := false }
  | .startExecutor => some { s with executorRunning := true }

/-- A call of the holder of the run lock goes on in a relation. -/
def calling (s : AgentTasks R) : Bool :=
  match s.awaiting.bind s.relations with
  | none => false
  | some tasks => !tasks.callers.isEmpty

def step (s : AgentTasks R) : AgentEvent R → Option (AgentTasks R)
  | .requestUpgrade =>
    some { s with nextTask := s.nextTask + 1, workflowLock := s.workflowLock ++ [s.nextTask] }
  | .upgradeCharm =>
    match s.workflowLock with
    | [] => none
    | n :: _ =>
      if s.upgrading then none
      else some { s with upgrading := true, runLock := s.runLock ++ [.upgradeCharm n] }
  | .finishUpgrade =>
    match s.workflowLock with
    | [] => none
    | n :: line =>
      if s.runLock.any fun task => match task with
        | .upgradeCharm m => m = n
        | _ => false then none
      else some { s with workflowLock := line, upgrading := false }
  | .serviceRelationChanges newRelations =>
    some { s with
      nextTask := s.nextTask + 1
      runLock := s.runLock ++ [.serviceRelationChanges s.nextTask newRelations] }
  | .relationResolvedChanges resolved =>
    some { s with
      nextTask := s.nextTask + 1
      runLock := s.runLock ++ [.relationResolvedChanges s.nextTask resolved] }
  | .goOn =>
    match s.runLock with
    | [] => none
    | task :: line =>
      if s.calling then none
      else if s.takenUp then
        match s.ops with
        | [] => some { s with runLock := line, takenUp := false, awaiting := none }
        | op :: ops => { s with ops := ops, awaiting := none }.perform op
      else s.takeUp task
  | .failUpgrade =>
    match s.runLock, s.ops with
    | .upgradeCharm _ :: line, _ :: _ =>
      some { s with runLock := line, takenUp := false, ops := [], awaiting := none }
    | _, _ => none
  | .relation r e =>
    -- the hooks called for end one after the other, while the executor is running
    if e.internal ∧ (e.endsHook → s.executorRunning) then
      (s.relations r).bind fun tasks => (tasks.step e).map fun tasks' =>
        { s with relations := Function.update s.relations r (some tasks') }
    else none

end AgentTasks

/-- An upgrade or another call of the unit's, or a loop of a relation's scheduler. -/
inductive Activity (R : Type) where
  | upgrade (n : Nat)
  | callback (n : Nat)
  | loop (r : R) (n : Nat)

def UnitTask.activity {R : Type} : UnitTask R → Activity R
  | .upgradeCharm n => .upgrade n
  | .serviceRelationChanges n _ => .callback n
  | .relationResolvedChanges n _ => .callback n

namespace AgentTasks

variable {R : Type}

/-- Who acts in a relation as its caller: the holder of the run lock of the unit. -/
def caller (s : AgentTasks R) : Option (Activity R) := s.runLock.head?.map UnitTask.activity

def workflowActivity (s : AgentTasks R) (r : R) : WorkflowTask Unit → Option (Activity R)
  | .error loop => some (.loop r loop)
  | _ => s.caller

def runActivity (s : AgentTasks R) (r : R) (tasks : RelationTasks Unit) :
    RunTask Unit → Option (Activity R)
  | .workflow => tasks.workflowLock.head?.bind (s.workflowActivity r)
  | .departure _ => s.caller
  | .hook loop => some (.loop r loop)

/-- Who has called the executor with a hook of a relation. -/
def hookActivity (s : AgentTasks R) (r : R) (tasks : RelationTasks Unit) : Option (Activity R) :=
  match tasks.runLock, tasks.ops with
  | .hook loop :: _, _ => some (.loop r loop)
  | .workflow :: _, .executeHook :: _ => s.runActivity r tasks .workflow
  | _, _ => none

/-- Who waits for whose lock: the unit's workflow lock, the unit's run lock, a relation's workflow
lock, a relation's run lock. -/
inductive WaitsForLock (s : AgentTasks R) : Activity R → Nat → Activity R → Prop where
  | unitWorkflow (n holder : Nat) (line : List Nat) : s.workflowLock = holder :: line → n ∈ line →
      s.WaitsForLock (.upgrade n) 0 (.upgrade holder)
  | unitRun (task holder : UnitTask R) (line : List (UnitTask R)) (a b : Activity R) :
      s.runLock = holder :: line → task ∈ line → task.activity = a → holder.activity = b →
      s.WaitsForLock a 1 b
  | relationWorkflow (r : R) (tasks : RelationTasks Unit) (task holder : WorkflowTask Unit)
      (line : List (WorkflowTask Unit)) (a b : Activity R) : s.relations r = some tasks →
      tasks.workflowLock = holder :: line → task ∈ line → s.workflowActivity r task = some a →
      s.workflowActivity r holder = some b → s.WaitsForLock a 2 b
  | relationRun (r : R) (tasks : RelationTasks Unit) (task holder : RunTask Unit)
      (line : List (RunTask Unit)) (a b : Activity R) : s.relations r = some tasks →
      tasks.runLock = holder :: line → task ∈ line → s.runActivity r tasks task = some a →
      s.runActivity r tasks holder = some b → s.WaitsForLock a 3 b

/-- Who waits for a stopped executor, which the upgrade with the unit's workflow lock is to
restart. -/
inductive WaitsForExecutor (s : AgentTasks R) : Activity R → Activity R → Prop where
  | stopped (r : R) (tasks : RelationTasks Unit) (a : Activity R) (n : Nat) (line : List Nat) :
      s.executorRunning = false → s.relations r = some tasks → s.hookActivity r tasks = some a →
      s.workflowLock = n :: line → s.WaitsForExecutor a (.upgrade n)

def Waits (s : AgentTasks R) (a b : Activity R) : Prop :=
  (∃ i, s.WaitsForLock a i b) ∨ s.WaitsForExecutor a b

/-- A relation's workflow in a state of `synchronize`'s table, with nothing going on. -/
structure RelationStarted (tasks : RelationTasks Unit) : Prop where
  quiet : tasks.Quiet
  ops : tasks.ops = []
  inTable : tasks.side.InTable
  inflight : tasks.side.inflight = none
  loops : tasks.loops = if tasks.side.executing then [0] else []
  nextLoop : tasks.nextLoop = 1

/-- An agent that has started its lifecycle and synchronized its relations. -/
structure Started (s : AgentTasks R) : Prop where
  workflowLock : s.workflowLock = []
  upgrading : s.upgrading = false
  runLock : s.runLock = []
  takenUp : s.takenUp = false
  ops : s.ops = []
  awaiting : s.awaiting = none
  departed : s.departed = []
  known : ∀ r ∈ s.known, (s.relations r).isSome
  relations : ∀ r tasks, s.relations r = some tasks → RelationStarted tasks

/-- No removal of a relation is taken up while the executor is stopped. -/
def RemovesRunning [DecidableEq R] (s : AgentTasks R) : AgentEvent R → Prop
  | .goOn => s.executorRunning = false → s.takenUp = false → ∀ n newRelations line,
      s.runLock = .serviceRelationChanges n newRelations :: line → s.removed newRelations = []
  | _ => True

end AgentTasks

end Juju.Unit

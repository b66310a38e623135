import Juju.Base.Runs
import Juju.Unit.RelationWorkflow
import Mathlib.Data.List.Dedup
import Mathlib.Logic.Function.Basic

namespace Juju.Unit.KnownRelations
open Juju.Base

/-- What a relation workflow is being worked at for. -/
inductive Task where
  | load
  | depart
  | add
  deriving DecidableEq

/-- A process of the unit agent: `_relations`; the relations of the service that `_load_relations`
has found and those of the file that it has still to load; the relations that the watch has read
last, and those read that its callback has not come to; what the callback has still to stop, depart
and add; the relation whose workflow it has locked, with what it has still to do there; the calls
of `_add_subordinate_unit` that are under way; the workflows locked by other tasks; the relations
whose lifecycles have their watch; and whether an exception has left the process without the watch
of the service's relations. -/
structure AgentProcess (R : Type) where
  relations : List R
  relationsById : List R
  toLoad : List R
  seen : Option (List R)
  observed : Option (List R)
  toStop : List R
  removed : List R
  added : List R
  working : Option (R × Task)
  ops : List WorkflowOp
  pending : List R
  busy : List (R × RelationTransition)
  watched : List R
  watchless : Bool

/-- The relations of the service and those that are gone; what is on disk, which is each workflow's
state and the known relations; the relations whose broken hook has run, and the subordinate units
added for each; and the process, if one is alive. -/
structure UnitRelations (R : Type) where
  current : List R
  gone : List R
  sides : R → RelationSide
  stored : List R
  broken : List R
  subordinates : R → Nat
  process : Option (AgentProcess R)

inductive Event (R : Type) where
  | addRelation (r : R)
  | removeRelation (r : R)
  | crash
  /-- Another task locks a workflow and fires a transition. -/
  | fire (r : R) (t : RelationTransition)
  | start
  /-- The transition comes to its end; `starting` says whether the task is `start`. -/
  | fired (r : R) (starting : Bool)
  /-- The watch reads the topology. -/
  | observe
  /-- `found` says whether the presence node of the unit is, where `_add_relation` looks for it. -/
  | goOn (found : Bool)
  /-- A call of `_add_subordinate_unit` comes to change the topology. -/
  | addSubordinate (r : R)

/-- Whether an event is one of the agent's own. -/
def Event.own {R : Type} : Event R → Bool
  | addRelation _ => false
  | removeRelation _ => false
  | crash => false
  | fire _ _ => false
  | _ => true

/-- A workflow as it is when nothing of it is on disk. -/
def newSide : RelationSide := ⟨none, none, false, false, false⟩

/-- The transitions that other tasks fire. -/
def otherTransitions : List RelationTransition := [.stop, .restart, .error, .reset]

/-- The transition starts the lifecycle, which makes its watch when it has none. -/
def startsLifecycle (t : RelationTransition) : Bool := .runScheduler ∈ relationAction t

def newProcess {R : Type} (relationsById stored : List R) : AgentProcess R :=
  ⟨[], relationsById, stored, none, none, [], [], [], none, [], [], [], [], false⟩

variable {R : Type} [DecidableEq R]

def AgentProcess.isBusy (p : AgentProcess R) (r : R) : Bool := r ∈ p.busy.map Prod.fst

/-- `_add_relation`, up to the synchronization. -/
def AgentProcess.addRelation (p : AgentProcess R) (r : R) (side : RelationSide) (task : Task) :
    AgentProcess R :=
  { p with
    relations := r :: p.relations
    working := some (r, task)
    ops := synchronizeRelation side.state side.inflight }

/-- The relation that `_add_relation` comes to next. -/
def AgentProcess.nextAdded (p : AgentProcess R) : Option R :=
  match p.working, p.toLoad, p.toStop, p.removed, p.added with
  | none, r :: _, _, _, _ => if r ∈ p.relationsById then some r else none
  | none, [], [], [], r :: _ => some r
  | _, _, _, _, _ => none

/-- What an operation changes in the process. -/
def AgentProcess.performed (p : AgentProcess R) (r : R) (op : WorkflowOp) (ops : List WorkflowOp) :
    AgentProcess R :=
  { p with
    ops := ops
    watched := if op = .startWatcher then r :: p.watched else p.watched }

/-- An exception in `_load_relations` or in the callback: the locks are released, and no watch
comes to call the callback again. -/
def AgentProcess.raised (p : AgentProcess R) : AgentProcess R :=
  { p with
    working := none
    ops := []
    toLoad := []
    toStop := []
    removed := []
    added := []
    observed := none
    watchless := true }

/-- The start of `_process_service_changes`. -/
def AgentProcess.compare (p : AgentProcess R) (newRelations : List R) : AgentProcess R :=
  let removed := (p.relations.filter (· ∉ newRelations)).dedup
  { p with
    observed := none
    toStop := removed
    removed := removed
    added := (newRelations.filter (· ∉ p.relations)).dedup }

namespace UnitRelations

variable (isPrincipal : Bool) (isContainer : R → Bool) (s : UnitRelations R)

def setSide (r : R) (side : RelationSide) : UnitRelations R :=
  { s with sides := Function.update s.sides r side }

def setProcess (p : AgentProcess R) : UnitRelations R := { s with process := some p }

def setBroken (broken : List R) : UnitRelations R := { s with broken := broken }

/-- An operation of the relation that is worked at. -/
def perform (r : R) (op : WorkflowOp) : UnitRelations R :=
  (s.setSide r ((s.sides r).perform op)).setBroken
    (if op = .executeHook then r :: s.broken else s.broken)

/-- What follows the work at a relation; the call of `_add_subordinate_unit` is not waited for, so
that it is still under way when the file is written. -/
def finish (p : AgentProcess R) (r : R) : Task → UnitRelations R
  | .load => s.setProcess { p with working := none }
  | .depart => { s with stored := p.relations, process := some { p with working := none } }
  | .add =>
    let p := { p with working := none }
    let pending := if isPrincipal && isContainer r then r :: p.pending else p.pending
    { s with stored := p.relations, process := some { p with pending := pending } }

/-- The role of the unit in the relation, which a lifecycle without a watch needs for it, is not
in the topology any more. -/
def roleless (p : AgentProcess R) (r : R) : Bool := r ∉ p.watched && r ∉ s.current

/-- Whether the next step raises: the watch of the relation cannot be made; or its scope container
cannot, which `add_unit_state` makes when the unit is not present. -/
def raises (p : AgentProcess R) (found : Bool) : Bool :=
  match p.working, p.ops with
  | some (r, _), op :: _ => op = .startWatcher && s.roleless p r
  | some _, [] => false
  | none, _ => p.nextAdded.any fun r => isContainer r && !found && r ∉ s.current

/-- The next step of `_load_relations` or of the callback of the watch, where it does not
raise. -/
def proceed (p : AgentProcess R) : Option (UnitRelations R) :=
  match p.working, p.toLoad, p.toStop, p.removed, p.added, p.observed with
  | some (r, task), _, _, _, _, _ =>
    match p.ops with
    | op :: ops => some ((s.perform r op).setProcess (p.performed r op ops))
    | [] => some (s.finish isPrincipal isContainer p r task)
  | none, r :: toLoad, _, _, _, _ =>
    let p := { p with toLoad := toLoad }
    if p.isBusy r then none
    else if r ∈ p.relationsById then some (s.setProcess (p.addRelation r (s.sides r) .load))
    else some (s.setProcess { p with relations := r :: p.relations })
  | none, [], r :: toStop, _, _, _ =>
    some ((s.setSide r ((s.sides r).stopLifecycle true)).setProcess { p with toStop := toStop })
  | none, [], [], r :: removed, _, _ =>
    if p.isBusy r then none
    else some (s.setProcess { p with
      relations := p.relations.filter (· ≠ r)
      removed := removed
      working := some (r, .depart)
      ops := transitionState (s.sides r).state .departed })
  | none, [], [], [], r :: added, _ =>
    let p := { p with added := added }
    if p.isBusy r then none
    else some (s.setProcess (p.addRelation r (s.sides r) .add))
  | none, [], [], [], [], some newRelations => some (s.setProcess (p.compare newRelations))
  | none, [], [], [], [], none => none

/-- The next step of `_load_relations` or of the callback of the watch. -/
def goOn (p : AgentProcess R) (found : Bool) : Option (UnitRelations R) :=
  if s.raises isContainer p found then some (s.setProcess p.raised)
  else s.proceed isPrincipal isContainer p

/-- The callback of the watch is not at work. -/
def waits (p : AgentProcess R) : Prop :=
  p.working.isNone ∧ p.toLoad = [] ∧ p.toStop = [] ∧ p.removed = [] ∧ p.added = [] ∧
    p.observed = none

instance (p : AgentProcess R) : Decidable (waits p) := by
  unfold waits
  infer_instance

def fire (p : AgentProcess R) (r : R) (t : RelationTransition) : Option (UnitRelations R) :=
  if r ∈ p.relations ∧ p.working.map Prod.fst ≠ some r ∧ ¬ p.isBusy r ∧
      t ∈ otherTransitions ∧
      t ∈ (relationTransitions (s.sides r).state).map Lib.Transition.transitionId then
    some ((s.setSide r ((s.sides r).perform (.setInflight t))).setProcess
      { p with busy := (r, t) :: p.busy })
  else none

/-- The transition that another task has begun raises. -/
def fails (p : AgentProcess R) (r : R) (t : RelationTransition) : Bool :=
  startsLifecycle t && s.roleless p r

/-- When the transition raises it stays in flight, and `start` makes no watch any more. -/
def fired (p : AgentProcess R) (r : R) (starting : Bool) : Option (UnitRelations R) :=
  match p.busy.find? fun e => e.1 = r with
  | none => none
  | some e =>
    let busy := p.busy.filter fun e => e.1 ≠ r
    if s.fails p r e.2 then
      some (s.setProcess { p with
        busy := busy
        watchless := p.watchless || (starting && p.seen.isNone) })
    else
      let side := (s.sides r).perform (.setState (relationTransition e.2).destination)
      some ((s.setSide r side).setProcess { p with
        busy := busy
        watched := if startsLifecycle e.2 then r :: p.watched else p.watched })

/-- A relation that is gone has no services any more, and the call raises. -/
def addSubordinate (p : AgentProcess R) (r : R) : Option (UnitRelations R) :=
  if r ∈ p.pending then
    let s := s.setProcess { p with pending := p.pending.filter (· ≠ r) }
    if r ∈ s.current then
      some { s with subordinates := Function.update s.subordinates r (s.subordinates r + 1) }
    else some s
  else none

def step : Event R → Option (UnitRelations R)
  -- the id of a relation is never given again
  | .addRelation r =>
    if r ∈ s.current ∨ r ∈ s.gone then none else some { s with current := r :: s.current }
  | .removeRelation r =>
    if r ∈ s.current then
      some { s with current := s.current.filter (· ≠ r), gone := r :: s.gone }
    else none
  | .crash => s.process.map fun _ =>
    { s with
      sides := fun r => ⟨(s.sides r).state, (s.sides r).inflight, false, false, false⟩
      process := none }
  | .start =>
    match s.process with
    | none => some (s.setProcess (newProcess s.current s.stored))
    | some _ => none
  | .fire r t => s.process.bind fun p => s.fire p r t
  | .fired r starting => s.process.bind fun p => s.fired p r starting
  | .observe => s.process.bind fun p =>
    if waits p ∧ p.watchless = false ∧ p.seen ≠ some s.current then
      some (s.setProcess { p with seen := some s.current, observed := some s.current })
    else none
  | .goOn found => s.process.bind fun p => s.goOn isPrincipal isContainer p found
  | .addSubordinate r => s.process.bind fun p => s.addSubordinate p r

/-- A unit that has had no relations yet. -/
structure Initial : Prop where
  gone : s.gone = []
  current : s.current = []
  sides : ∀ r, s.sides r = newSide
  stored : s.stored = []
  broken : s.broken = []
  subordinates : ∀ r, s.subordinates r = 0
  process : s.process = none

/-- The workflow of a relation has been started. -/
def Started (r : R) : Prop := (s.sides r).state ≠ none ∨ (s.sides r).inflight ≠ none

/-- The agent has nothing left to do. -/
def Quiescent : Prop := ∀ e : Event R, e.own = true → s.step isPrincipal isContainer e = none

/-- The process has the relation among its own, or is about to. -/
def TakenUp (p : AgentProcess R) (r : R) : Prop :=
  r ∈ p.relations ∨ r ∈ p.added ∨ ∃ newRelations, p.observed = some newRelations ∧ r ∈ newRelations

/-- The process does not die while a subordinate unit is being added for a relation that is there,
nor when a relation that has been started is neither in the file nor in the service any more; no
relation is removed that an earlier process has started and not written to the file, before
this process has taken it up; and what needs a relation in the topology, to add it or to restart it
before the watch is made, comes while it is there. -/
def Undisturbed : Event R → Prop
  | .crash => ∀ p, s.process = some p → (∀ r ∈ p.pending, r ∉ s.current) ∧
      ∀ r, s.Started r → (s.sides r).state ≠ some .departed → r ∈ s.stored ∨ r ∈ s.current
  | .removeRelation r =>
    s.Started r → r ∈ s.stored ∨ ∃ p, s.process = some p ∧ TakenUp p r
  | .goOn found => ∀ p, s.process = some p → s.raises isContainer p found = false
  | .fired r starting => ∀ p, s.process = some p →
      starting = true → p.seen = none → ∀ t, (r, t) ∈ p.busy → s.fails p r t = false
  | _ => True

end UnitRelations

end Juju.Unit.KnownRelations

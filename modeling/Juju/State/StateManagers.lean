import Juju.Base.Runs
import Juju.Machine.Constraints
import Juju.State.RelationState
import Juju.State.SettingsPath

namespace Juju.State
open Juju.Base

/-- A service as its `ServiceState` holds it. -/
structure ServiceState where
  internalId : String
  serviceName : String

/-- What reading the nodes of services, units, machines and charms may raise. -/
inductive NodeError where
  | environmentStateNotFound
  | serviceStateNotFound
  | serviceUnitStateNotFound
  | machineStateNotFound
  | charmStateNotFound
  | principalServiceUnitRequired
  /-- What makes constraints of the data read. -/
  | constraints (e : Machine.ConstraintError)

/-- What a call of a manager may raise. -/
inductive ManagerError where
  | state (e : StateError)
  | node (e : NodeError)
  /-- Python's, for an attribute that an object does not have. -/
  | attributeError
  | constraintError
  | serviceStateNameInUse (serviceName : String)
  | badServiceStateName (expectedName obtainedName : String)
  | serviceUnitStateNotFound (serviceName : String) (sequence : Nat)
  | machineStateInUse (internalId : String)
  | noUnusedMachines
  | illegalSubordinateMachineAssignment (serviceName : String) (sequence : Nat)
  | serviceUnitStateMachineAlreadyAssigned (serviceName : String) (sequence : Nat)

/-- A state error, and not one from inside the topology. -/
def ManagerError.Documented (e : ManagerError) : Prop :=
  e ≠ .attributeError ∧ ∀ e', e ≠ .state (.topology e')

/-- An operation of the topology inside a change function. -/
def onTopology {α : Type} (m : TopologyM α) : EStateM ManagerError InternalTopology α :=
  m.adaptExcept fun e => .state (.topology e)

def onRelation {α : Type} (m : EStateM StateError InternalTopology α) :
    EStateM ManagerError InternalTopology α :=
  m.adaptExcept .state

/-- The kinds of the nodes created with a sequence number. -/
inductive NodeKind where
  | service
  | unit
  | machine
  | relation
  deriving DecidableEq

/-- A function that a manager passes to `_retry_topology_change`. -/
inductive TopologyChange where
  | addService (internalId serviceName : String)
  | removeService (internalId : String)
  | addUnit (serviceId internalUnitId : String) (containerId : Option String)
  | removeUnit (serviceId unitId : String)
  | addMachine (internalId : String)
  | removeMachine (internalId : String)
  | assignUnit (unit : ServiceUnitState) (machineId : String)
  | assignUnusedUnit (unit : ServiceUnitState)
  | unassignUnit (unit : ServiceUnitState)
  | addRelation (add : AddRelation) (relationId : String)
  | removeRelation (relationId : String)

def ServiceUnitState.checkValidIn (u : ServiceUnitState) :
    EStateM ManagerError InternalTopology Unit := do
  let t ← get
  raiseIf (t.serviceUnit? u.internalServiceId u.internalId = none) (.state .stateChanged)
  pure ()

/-- The machine that a unit of the topology has, if any. -/
def InternalTopology.unitMachine (t : InternalTopology) (serviceId unitId : String) :
    Option String :=
  (t.serviceUnit? serviceId unitId).bind ServiceUnit.machine

def rootMachineId : String := "machine-0000000000"

/-- The search of `assign_unused_unit`; `satisfies` reads a machine's constraints and tests
them against the unit's. -/
def unusedMachine (satisfies : String → Except NodeError Bool) :
    List String → EStateM ManagerError InternalTopology String
  | [] => throw .noUnusedMachines
  | internalId :: machines =>
    if internalId = rootMachineId then unusedMachine satisfies machines
    else do
      let hasUnits ← onTopology (machineHasUnits internalId)
      if hasUnits then unusedMachine satisfies machines
      else match satisfies internalId with
        | .error e => throw (.node e)
        | .ok true => pure internalId
        | .ok false => unusedMachine satisfies machines

def InternalTopology.getMachines (t : InternalTopology) : List String :=
  t.machines.keys.mergeSort fun a b => decide (a ≤ b)

/-- A change function applied to the topology it is given. -/
def TopologyChange.run (satisfies : String → Except NodeError Bool) :
    TopologyChange → EStateM ManagerError InternalTopology Unit
  | .addService internalId serviceName => do
    let t ← get
    raiseIf (t.findServiceWithName serviceName).isSome (.serviceStateNameInUse serviceName)
    onTopology (Juju.State.addService internalId serviceName)
  | .removeService internalId => do
    let t ← get
    raiseIf (¬ t.hasService internalId) (.state .stateChanged)
    onTopology (Juju.State.removeService internalId)
  | .addUnit serviceId internalUnitId containerId => do
    let t ← get
    raiseIf (¬ t.hasService serviceId) (.state .stateChanged)
    let _ ← onTopology (addServiceUnit serviceId internalUnitId containerId)
  | .removeUnit serviceId unitId => do
    let t ← get
    raiseIf (t.serviceUnit? serviceId unitId = none) (.state .stateChanged)
    onTopology (removeServiceUnit serviceId unitId)
  | .addMachine internalId => onTopology (Juju.State.addMachine internalId)
  | .removeMachine internalId => do
    let t ← get
    if t.hasMachine internalId then do
      let hasUnits ← onTopology (machineHasUnits internalId)
      raiseIf hasUnits (.machineStateInUse internalId)
      onTopology (Juju.State.removeMachine internalId)
  | .assignUnit unit machineId => do
    unit.checkValidIn
    let t ← get
    let container ← onTopology (getServiceUnitContainer unit.internalId)
    raiseIf container.isSome (.illegalSubordinateMachineAssignment unit.serviceName unit.sequence)
    match t.unitMachine unit.internalServiceId unit.internalId with
    | none =>
      onTopology (assignServiceUnitToMachine unit.internalServiceId unit.internalId machineId)
    | some assigned =>
      raiseIf (assigned ≠ machineId)
        (.serviceUnitStateMachineAlreadyAssigned unit.serviceName unit.sequence)
  | .assignUnusedUnit unit => do
    unit.checkValidIn
    let t ← get
    let machineId ← unusedMachine satisfies t.getMachines
    onTopology (assignServiceUnitToMachine unit.internalServiceId unit.internalId machineId)
  | .unassignUnit unit => do
    unit.checkValidIn
    let t ← get
    if (t.unitMachine unit.internalServiceId unit.internalId).isSome then
      onTopology (unassignServiceUnitFromMachine unit.internalServiceId unit.internalId)
  | .addRelation add relationId => onRelation (addRelationChange add relationId)
  | .removeRelation relationId => onRelation (removeRelationChange relationId)

/-- A node to create with a sequence number. -/
inductive Creation where
  | service (serviceName : String)
  | unit (service : ServiceState) (container : Option ServiceUnitState)
  | machine
  | relation (add : AddRelation)

def Creation.kind : Creation → NodeKind
  | .service _ => .service
  | .unit _ _ => .unit
  | .machine => .machine
  | .relation _ => .relation

/-- A part of a call that reads the topology once. -/
inductive TopologyRead where
  | relationsForService (service : ServiceState)
  | unitNames (service : ServiceState)
  | unitState (service : ServiceState) (serviceName : String) (sequence : Nat)
  | endpoints (es : List RelationEndpoint)

/-- `_validate_principal_container`, by what the nodes say of the container's service and of the
service itself. -/
def validatePrincipalContainer (principalSubordinate subordinate : Except NodeError Bool) :
    Except ManagerError Unit :=
  match principalSubordinate with
  | .error e => .error (.node e)
  | .ok true => .error (.node .principalServiceUnitRequired)
  | .ok false =>
    match subordinate with
    | .error e => .error (.node e)
    | .ok true => .ok ()
    -- The arguments of `NotSubordinateCharm` take `unit_name` of a `ServiceState`, which has none.
    | .ok false => .error .attributeError

/-- A part of a call, from one of its yields to the next. -/
inductive CallPart where
  /-- Reads of nodes other than the topology. -/
  | nodes
  | validatePrincipalContainer
  | create (creation : Creation)
  | read (r : TopologyRead)
  | change (c : TopologyChange)

/-- What a call goes on with once its node is created. -/
def Creation.next (id : String) : Creation → List CallPart
  | .service serviceName => [.change (.addService id serviceName)]
  | .unit serviceState none => [.change (.addUnit serviceState.internalId id none)]
  | .unit serviceState (some container) =>
    [.validatePrincipalContainer,
      .change (.addUnit serviceState.internalId id (some container.internalId))]
  | .machine => [.change (.addMachine id)]
  | .relation add => [.change (.addRelation add id)]

/-- `remove_unit_state`. -/
def removeUnitParts (service : ServiceState) (unit : ServiceUnitState) : List CallPart :=
  [.change (.unassignUnit unit), .change (.removeUnit service.internalId unit.internalId)]

/-- The name of a unit, in its two parts. -/
def unitNameParts (service : Service) (unit : ServiceUnit) : Except ManagerError (String × Nat) :=
  match unit.sequence with
  | none => .error (.state (.topology (.keyError "sequence")))
  | some sequence => .ok (service.name, sequence)

/-- What a read has the call do next. -/
def TopologyRead.run (t : InternalTopology) : TopologyRead → Except ManagerError (List CallPart)
  | .relationsForService service =>
    match getRelationsForService service.internalId t with
    | .error e _ => .error (.state (.topology e))
    | .ok relations _ => .ok (relations.map fun r => .change (.removeRelation r.relationId))
  | .unitNames service =>
    match t.services.lookup service.internalId with
    | none => .error (.state .stateChanged)
    | some info => do
      let names ← info.units.entries.mapM fun e => unitNameParts info e.2
      .ok (names.map fun name => .read (.unitState service name.1 name.2))
  | .unitState service serviceName sequence =>
    if serviceName ≠ service.serviceName then
      .error (.badServiceStateName service.serviceName serviceName)
    else if service.internalId ∉ t.services then .error (.state .stateChanged)
    else match findServiceUnitWithSequence service.internalId sequence t with
      | .error e _ => .error (.state (.topology e))
      | .ok none _ => .error (.serviceUnitStateNotFound serviceName sequence)
      | .ok (some unitId) _ =>
        .ok (removeUnitParts service ⟨service.internalId, service.serviceName, sequence, unitId⟩)
  | .endpoints es =>
    match startAdd t es with
    | .error e => .error (.state e)
    | .ok add => .ok [.create (.relation add)]

/-- A call of a manager, with its arguments. -/
inductive ManagerCall where
  | addServiceState (serviceName : String)
  | removeServiceState (service : ServiceState)
  | addUnitState (service : ServiceState) (container : Option ServiceUnitState)
  | removeUnitState (service : ServiceState) (unit : ServiceUnitState)
  | addMachineState (complete : Bool)
  | removeMachineState (internalId : String)
  | assignToMachine (unit : ServiceUnitState) (machineId : String)
  | assignToUnusedMachine (unit : ServiceUnitState)
  | unassignFromMachine (unit : ServiceUnitState)
  | addRelationState (endpoints : List RelationEndpoint)
  | removeRelationState (relationId : String)

/-- The parts of a call, or what it raises at once. -/
def ManagerCall.parts : ManagerCall → Except ManagerError (List CallPart)
  | .addServiceState serviceName => .ok [.create (.service serviceName)]
  | .removeServiceState service => .ok [.read (.relationsForService service),
      .read (.unitNames service), .change (.removeService service.internalId)]
  | .addUnitState service container => .ok [.nodes, .create (.unit service container)]
  | .removeUnitState service unit => .ok (removeUnitParts service unit)
  | .addMachineState complete =>
    if complete then .ok [.create .machine] else .error .constraintError
  | .removeMachineState internalId => .ok [.change (.removeMachine internalId)]
  | .assignToMachine unit machineId => .ok [.nodes, .change (.assignUnit unit machineId)]
  | .assignToUnusedMachine unit => .ok [.nodes, .change (.assignUnusedUnit unit)]
  | .unassignFromMachine unit => .ok [.change (.unassignUnit unit)]
  | .addRelationState endpoints =>
    match checkEndpoints endpoints with
    | .error e => .error (.state e)
    | .ok _ => .ok [.read (.endpoints endpoints)]
  | .removeRelationState relationId => .ok [.change (.removeRelation relationId)]

/-- A client's call. A change that has been evaluated keeps the version that it read and the
content that it will write. -/
inductive CallState where
  | idle
  | running (parts : List CallPart) (evaluated : Option (Nat × InternalTopology))
  | ended (result : Except ManagerError Unit)

def goOn : List CallPart → CallState
  | [] => .ended (.ok ())
  | part :: parts => .running (part :: parts) none

/-- The topology node with its version, the sequence nodes created so far, and the calls under
way, named by `C`. -/
structure StateManagers (C : Type) where
  topology : InternalTopology
  version : Nat
  created : List (NodeKind × String)
  calls : C → CallState

/-- What ZooKeeper answers to a call that waits for it. -/
inductive Reply where
  | nodes (error : Option NodeError)
  | validated (principalSubordinate subordinate : Except NodeError Bool)
  | created (id : String)
  | topologyRead
  /-- The change function is run on the content that was read. -/
  | changeEvaluated (satisfies : String → Except NodeError Bool)
  | contentSet

inductive ManagerEvent (C : Type) where
  | start (c : C) (call : ManagerCall)
  | reply (c : C) (r : Reply)

variable {C : Type} [DecidableEq C]

namespace StateManagers

def setCall (s : StateManagers C) (c : C) (call : CallState) : StateManagers C :=
  { s with calls := Function.update s.calls c call }

/-- One reply to the call `c`, which stands at `part`. The id of a created node is new, and a
content is set only over the version that was read. -/
def reply (s : StateManagers C) (c : C) (part : CallPart) (rest : List CallPart)
    (evaluated : Option (Nat × InternalTopology)) : Reply → Option (StateManagers C)
  | .nodes error =>
    match part, error with
    | .nodes, none => some (s.setCall c (goOn rest))
    | .nodes, some e => some (s.setCall c (.ended (.error (.node e))))
    | _, _ => none
  | .validated principalSubordinate subordinate =>
    match part with
    | .validatePrincipalContainer =>
      match Juju.State.validatePrincipalContainer principalSubordinate subordinate with
      | .ok _ => some (s.setCall c (goOn rest))
      | .error e => some (s.setCall c (.ended (.error e)))
    | _ => none
  | .created id =>
    match part with
    | .create creation =>
      if (creation.kind, id) ∈ s.created then none
      else some ({ s with created := (creation.kind, id) :: s.created }.setCall c
        (goOn (creation.next id ++ rest)))
    | _ => none
  | .topologyRead =>
    match part with
    | .read r =>
      match r.run s.topology with
      | .error e => some (s.setCall c (.ended (.error e)))
      | .ok parts => some (s.setCall c (goOn (parts ++ rest)))
    | _ => none
  | .changeEvaluated satisfies =>
    match part, evaluated with
    | .change change, none =>
      match change.run satisfies s.topology with
      | .error e _ => some (s.setCall c (.ended (.error e)))
      | .ok _ topology =>
        some (s.setCall c (.running (part :: rest) (some (s.version, topology))))
    | _, _ => none
  | .contentSet =>
    match part, evaluated with
    | .change _, some (version, topology) =>
      if version = s.version then
        some ({ s with topology := topology, version := s.version + 1 }.setCall c (goOn rest))
      else some (s.setCall c (.running (part :: rest) none))
    | _, _ => none

/-- One event. A call starts where no other runs, with endpoints that are admitted. -/
def step (s : StateManagers C) : ManagerEvent C → Option (StateManagers C)
  | .start c call =>
    match s.calls c, call.parts with
    | .running _ _, _ => none
    | _, .ok parts => some (s.setCall c (goOn parts))
    | _, .error (.state _) => none
    | _, .error e => some (s.setCall c (.ended (.error e)))
  | .reply c r =>
    match s.calls c with
    | .running (part :: rest) evaluated => s.reply c part rest evaluated r
    | _ => none

/-- An environment just initialized, with no call made. -/
structure Initial (s : StateManagers C) : Prop where
  topology : s.topology = freshTopology
  created : s.created = []
  calls : ∀ c, s.calls c = .idle

end StateManagers

end Juju.State

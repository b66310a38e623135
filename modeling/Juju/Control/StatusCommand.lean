import Juju.Lib.Glob
import Juju.State.StateReads

namespace Juju.Control
open Juju.Base
open Juju.Lib
open Juju.State

/-- What the nodes of charms, services, units, machines and relations hold, by the id of each, and
what the provider says of an instance, or none where it raises a `ProviderError`. -/
structure StatusNodes where
  charmId : String → String
  charmName : String → String
  charmSubordinate : String → Bool
  exposed : String → Bool
  unitWorkflow : String → Option String
  unitAgent : String → Bool
  openPorts : String → List (Nat × String)
  publicAddress : String → Option String
  exists? : String → Bool
  relationWorkflow : String → String → Option String
  instanceId : String → Option String
  machineAgent : String → Bool
  providerMachine : String → Option (String × String)

/-- The dictionary of a service. Its units are known by their names; none where the key is gone. -/
structure ServiceInfo where
  units : Option (List String)
  charm : String
  relations : Dict String (List String)
  subordinate : Bool
  exposed : Bool
  subordinateTo : Option (List String)

/-- The dictionary of a unit, in which its subordinates are known by their names. -/
structure UnitInfo where
  container : Option String
  machine : Option (Option Nat)
  agentState : String
  openPorts : Option (List String)
  publicAddress : Option (Option String)
  relationErrors : Dict String (List String)
  subordinates : List String

structure MachineInfo where
  instanceId : String
  dnsName : Option String
  instanceState : Option String
  agentState : Option String

inductive StatusError where
  | glob (e : GlobError)
  | read (e : StateReadError)
  | valueError (message : String)
  | indexError
  | keyError (key : String)

/-- A run of the collection, as far as there is fuel for the lookups of machines. -/
abbrev StatusM := ExceptT StatusError Option

structure StatusCommand where
  serviceData : Dict String ServiceInfo
  machineData : Dict Nat MachineInfo
  unitData : Dict String UnitInfo
  subordinates : Dict String (List String)
  seenMachines : List (Option Nat)
  filterServices : List String
  filterUnits : List String

def digestScope (scope : Option (List String)) : List String × List String :=
  ((scope.getD []).filter fun value => '/' ∉ value.toList,
    (scope.getD []).filter fun value => '/' ∈ value.toList)

/-- `_reset`. -/
def reset (scope : Option (List String)) : StatusCommand :=
  ⟨∅, ∅, ∅, ∅, [], (digestScope scope).1, (digestScope scope).2⟩

/-- The loop over a filter, up to the first glob that matches. -/
def matchesAny (name : String) : List String → Except GlobError Bool
  | [] => .ok false
  | glob :: globs => do
    if ← fnmatch name glob then .ok true else matchesAny name globs

def passes (name : String) (filter : List String) : Except GlobError Bool :=
  if filter = [] then .ok true else matchesAny name filter

/-- `d.setdefault(key, set()).add(value)`. -/
def addTo (d : Dict String (List String)) (key value : String) : Dict String (List String) :=
  d.insert key (((d.lookup key).getD []).insert value)

def sorted (values : List String) : List String :=
  values.mergeSort fun a b => decide (a ≤ b)

/-- A dictionary with its sets turned to lists. -/
def sortValues (d : Dict String (List String)) : Dict String (List String) :=
  (d.entries.map fun e => (e.1, sorted e.2)).foldl (fun d e => d.insert e.1 e.2) ∅

namespace StatusCommand

def serviceInfo (s : StatusCommand) (name : String) : Except StatusError ServiceInfo :=
  match s.serviceData.lookup name with
  | none => .error (.keyError name)
  | some info => .ok info

def setService (s : StatusCommand) (name : String) (info : ServiceInfo) : StatusCommand :=
  { s with serviceData := s.serviceData.insert name info }

def unitInfo (s : StatusCommand) (name : String) : Except StatusError UnitInfo :=
  match s.unitData.lookup name with
  | none => .error (.keyError name)
  | some u => .ok u

def setUnit (s : StatusCommand) (name : String) (u : UnitInfo) : StatusCommand :=
  { s with unitData := s.unitData.insert name u }

end StatusCommand

def liftExcept {ε α : Type} (f : ε → StatusError) (x : Except ε α) : StatusM α :=
  ExceptT.mk (some (x.mapError f))

section gather

variable (k : TextKind) (t : InternalTopology) (nodes : StatusNodes) (fuel : Nat)

/-- The service at the other end of a relation, or the only one of a peer relation. -/
def remoteService (service : ServiceState) (relation : ServiceRelationState) :
    Except StatusError ServiceState := do
  let relServices ← (ask t (getServiceStates relation.internalRelationId)).mapError .read
  let relServices :=
    if relServices.length > 1 then
      relServices.filter fun rsn => rsn.serviceName ≠ service.serviceName
    else relServices
  if relServices.length > 1 then
    .error (.valueError "Unexpected relationship with more than 2 endpoints")
  else
    match relServices with
    | [] => .error .indexError
    | relService :: _ => .ok relService

/-- The loop of `_process_relation_map` and of `_process_relations`. -/
def mapRelations (service : ServiceState) : List ServiceRelationState →
    Dict String (List String) → Dict String String →
    Except StatusError (Dict String (List String) × Dict String String)
  | [], relationData, relSvcMap => .ok (relationData, relSvcMap)
  | relation :: relations, relationData, relSvcMap => do
    let relService ← remoteService t service relation
    mapRelations service relations
      (addTo relationData relation.relationName relService.serviceName)
      (relSvcMap.insert relation.internalRelationId relService.serviceName)

/-- The relations of a unit that are in trouble, with the services at their other ends. -/
def unitRelationErrors (unit : ServiceUnitState) (relSvcMap : Dict String String) :
    List ServiceRelationState → Dict String (List String) →
    Except StatusError (Dict String (List String))
  | [], errors => .ok errors
  | relation :: relations, errors => do
    let alivePath ← (relation.alivePath t unit).mapError .read
    let workflowState := nodes.relationWorkflow unit.internalId relation.internalRelationId
    let relSvcName := (relSvcMap.lookup relation.internalRelationId).getD ""
    if nodes.exists? alivePath ∧ relSvcName ≠ "" ∧ workflowState ≠ none ∧
        workflowState ≠ some "up" then
      unitRelationErrors unit relSvcMap relations (addTo errors relation.relationName relSvcName)
    else unitRelationErrors unit relSvcMap relations errors

def unitAgentState (unit : ServiceUnitState) : String :=
  match nodes.unitWorkflow unit.internalId with
  | none | some "" => "pending"
  | some state =>
    if nodes.unitAgent unit.internalId then state.map fun c => if c = '_' then '-' else c
    else "down"

def assignedMachineId (unit : ServiceUnitState) : StatusM (Option Nat) :=
  ExceptT.mk ((getAssignedMachineId t fuel unit).map fun x =>
    x.mapError fun e => .read (.machineUnit e))

/-- `_process_unit`. -/
def processUnit (service : ServiceState) (relations : List ServiceRelationState)
    (relSvcMap : Dict String String) (unit : ServiceUnitState) (s : StatusCommand) :
    StatusM StatusCommand := do
  let container ← liftExcept (fun e => .read (.container e)) (unit.getContainer t)
  let machineId ← assignedMachineId t fuel unit
  let info ← liftExcept id (s.serviceInfo service.serviceName)
  let errors ← liftExcept id (unitRelationErrors t nodes unit relSvcMap relations ∅)
  let u : UnitInfo :=
    { container := container.map ServiceUnitState.unitName
      machine := some machineId
      agentState := unitAgentState nodes unit
      openPorts := if info.exposed then some ((nodes.openPorts unit.internalId).map fun port =>
        toString port.1 ++ "/" ++ port.2) else none
      publicAddress := some (nodes.publicAddress unit.internalId)
      relationErrors := sortValues errors
      subordinates := [] }
  pure { s with
    unitData := s.unitData.insert unit.unitName u
    subordinates := match container with
      | none => s.subordinates
      | some container => addTo s.subordinates unit.serviceName container.serviceName
    seenMachines := s.seenMachines.insert machineId }

/-- The loop of `_process_units`, which keeps whether a unit has matched. -/
def processUnits (service : ServiceState) (relations : List ServiceRelationState)
    (relSvcMap : Dict String String) :
    List ServiceUnitState → Bool → StatusCommand → StatusM (Bool × StatusCommand)
  | [], unitMatched, s => pure (unitMatched, s)
  | unit :: units, unitMatched, s => do
    if ← liftExcept .glob (passes unit.unitName s.filterUnits) then
      let s ← processUnit t nodes fuel service relations relSvcMap unit s
      processUnits service relations relSvcMap units true s
    else processUnits service relations relSvcMap units unitMatched s

/-- `_process_service`. -/
def processService (service : ServiceState) (s : StatusCommand) : StatusM StatusCommand := do
  let charmId := nodes.charmId service.internalId
  let info : ServiceInfo :=
    { units := some []
      charm := nodes.charmName charmId
      relations := ∅
      subordinate := nodes.charmSubordinate charmId
      exposed := nodes.exposed service.internalId
      subordinateTo := none }
  let relations ← liftExcept .read (ask t (relationStatesForService service))
  let (relationData, relSvcMap) ← liftExcept id (mapRelations t service relations ∅ ∅)
  let s := s.setService service.serviceName { info with relations := relationData }
  let units ← liftExcept .read (getAllUnitStates k t service)
  let (unitMatched, s) ← processUnits t nodes fuel service relations relSvcMap units false s
  if s.filterUnits ≠ [] ∧ ¬ unitMatched then
    pure { s with serviceData := s.serviceData.erase service.serviceName }
  else do
    let info ← liftExcept id (s.serviceInfo service.serviceName)
    let (relationData, _) ←
      liftExcept id (mapRelations t service relations info.relations relSvcMap)
    pure (s.setService service.serviceName { info with relations := sortValues relationData })

/-- The loop of `_process_services`. -/
def processServices : List ServiceState → StatusCommand → StatusM StatusCommand
  | [], s => pure s
  | service :: services, s => do
    if ← liftExcept .glob (passes service.serviceName s.filterServices) then
      let s ← processService k t nodes fuel service s
      processServices services s
    else processServices services s

end gather

section nest

variable (k : TextKind)

/-- A unit is put under its container, or else among the units of the service in its name. -/
def nestUnit (unitName : String) (s : StatusCommand) : Except StatusError StatusCommand := do
  let u ← s.unitInfo unitName
  match u.container with
  | some container => do
    let d ← s.unitInfo container
    let s := s.setUnit container { d with subordinates := d.subordinates.insert unitName }
    let u ← s.unitInfo unitName
    .ok (s.setUnit unitName { u with container := none, machine := none, publicAddress := none })
  | none =>
    match parseUnitName k unitName with
    | none => .error (.valueError ("Not a proper unit name: " ++ unitName))
    | some (serviceName, _) => do
      let info ← s.serviceInfo serviceName
      match info.units with
      | none => .error (.keyError "units")
      | some units => .ok (s.setService serviceName { info with units := some (units.insert unitName) })

def nestUnits : List String → StatusCommand → Except StatusError StatusCommand
  | [], s => .ok s
  | unitName :: unitNames, s => do
    let s ← nestUnit k unitName s
    nestUnits unitNames s

/-- The services of subordinates lose their units. -/
def nameServices : List (String × List String) → StatusCommand → Except StatusError StatusCommand
  | [], s => .ok s
  | (subService, principalServices) :: rest, s => do
    let info ← s.serviceInfo subService
    nameServices rest (s.setService subService
      { info with subordinateTo := some (sorted principalServices), units := none })

/-- `_process_subordinates`. -/
def processSubordinates (s : StatusCommand) : Except StatusError StatusCommand := do
  let s ← nestUnits k s.unitData.keys s
  nameServices (s.subordinates.entries.map fun e => (e.1, e.2)) s

end nest

section machines

variable (t : InternalTopology) (nodes : StatusNodes)

/-- The state of a machine's agent; when it is gone, the units tell whether it ever ran. -/
def machineAgentState (machineId : String) : Except StatusError String :=
  if nodes.machineAgent machineId then .ok "running"
  else do
    let units ← (ask t (getAllServiceUnitStates machineId)).mapError .read
    .ok (if units.any fun unit => (nodes.unitWorkflow unit.internalId).getD "" ≠ "" then "down"
      else "not-started")

/-- `_process_machine`, for the machine of public id `id`. -/
def processMachine (machineId : String) (id : Nat) (s : StatusCommand) :
    Except StatusError StatusCommand := do
  let m : MachineInfo := ⟨(nodes.instanceId machineId).getD "pending", none, none, none⟩
  match (nodes.instanceId machineId).bind nodes.providerMachine with
  | none => .ok { s with machineData := s.machineData.insert id m }
  | some (dnsName, state) => do
    let agentState ← machineAgentState t nodes machineId
    let m : MachineInfo := ⟨m.instanceId, some dnsName, some state, some agentState⟩
    .ok { s with machineData := s.machineData.insert id m }

/-- The loop of `_process_machines`. -/
def processMachines : List String → StatusCommand → Except StatusError StatusCommand
  | [], s => .ok s
  | machineId :: machineIds, s => do
    match publicMachineId machineId with
    | none => .error (.read (.machineUnit (.badMachineId machineId)))
    | some id =>
      if (s.filterServices ≠ [] ∨ s.filterUnits ≠ []) ∧ some id ∉ s.seenMachines then
        processMachines machineIds s
      else do
        let s ← processMachine t nodes machineId id s
        processMachines machineIds s

end machines

/-- `__call__`: what is read, with the dictionaries of the units that it refers to. -/
def collect (k : TextKind) (t : InternalTopology) (nodes : StatusNodes) (fuel : Nat)
    (scope : Option (List String)) : StatusM StatusCommand := do
  let services ← liftExcept .read (ask t getAllServiceStates)
  let s ← processServices k t nodes fuel services (reset scope)
  let s ← liftExcept id (processSubordinates k s)
  liftExcept id (processMachines t nodes t.getMachines s)

end Juju.Control

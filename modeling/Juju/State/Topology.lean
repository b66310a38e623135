import Juju.Base.Dict
import Juju.Base.StateExcept

namespace Juju.State
open Juju.Base

/-- An entry of a service's "units"; a key that is absent, or None, is `none`. -/
structure ServiceUnit where
  sequence : Option Nat
  container : Option String
  machine : Option String

structure Service where
  name : String
  units : Dict String ServiceUnit

/-- What a relation records of one of its services. -/
structure RelationService where
  name : String
  role : String
  deriving DecidableEq

structure Relation where
  interface : String
  scope : String
  services : Dict String RelationService

/-- The map kept in `_state`, where an absent key stands for an empty dictionary. -/
structure InternalTopology where
  version : Nat
  machines : Dict String Unit
  services : Dict String Service
  unitSequence : Dict String Nat
  relations : Dict String Relation

inductive TopologyError where
  | duplicatedMachine (machineId : String)
  | machineHasUnits (machineId : String)
  | duplicatedService (serviceId : String)
  | serviceNameInUse (serviceName : String)
  | serviceInRelations (serviceId : String) (relations : List String)
  | unitAlreadyInService (unitId serviceId : String)
  | serviceUnitIdNotFound (unitId : String)
  | noContainerRelation
  | unitAlreadyAssigned (unitId serviceId : String)
  | unitNotAssigned (serviceId unitId : String)
  | relationIdInUse (relationId : String)
  | serviceAlreadyAssigned (serviceId relationId : String)
  | roleAlreadyProvided (serviceId role : String)
  | serviceNotAssigned (serviceId relationId : String)
  | relationNotFound (relationId : String)
  | machineNotFound (machineId : String)
  | serviceNotFound (serviceId : String)
  | serviceUnitNotFound (unitId serviceId : String)
  | keyError (key : String)
  deriving DecidableEq

abbrev TopologyM := EStateM TopologyError InternalTopology

/-- A relation as `get_relations_for_service` lists it. -/
structure ServiceRelation where
  relationId : String
  interface : String
  scope : String
  service : RelationService

/-- A freshly constructed or reset topology. -/
def freshTopology : InternalTopology := ⟨2, ∅, ∅, ∅, ∅⟩

namespace InternalTopology

variable (t : InternalTopology)

def hasMachine (machineId : String) : Bool := machineId ∈ t.machines

def hasService (serviceId : String) : Bool := serviceId ∈ t.services

def hasRelation (relationId : String) : Bool := relationId ∈ t.relations

/-- A unit, found under its service. -/
def serviceUnit? (serviceId unitId : String) : Option ServiceUnit :=
  (t.services.lookup serviceId).bind fun service => service.units.lookup unitId

def findServiceWithName (serviceName : String) : Option String :=
  (t.services.entries.find? fun e => e.2.name = serviceName).map Sigma.fst

def relationHasService (relationId serviceId : String) : Bool :=
  match t.relations.lookup relationId with
  | none => false
  | some relation => serviceId ∈ relation.services

def relationScope? (relationId : String) : Option String :=
  (t.relations.lookup relationId).map Relation.scope

def relationsForService (serviceId : String) : List ServiceRelation :=
  t.relations.entries.filterMap fun e =>
    (e.2.services.lookup serviceId).map fun service =>
      ⟨e.1, e.2.interface, e.2.scope, service⟩

end InternalTopology

def assertRelation (relationId : String) : TopologyM Unit := do
  let t ← get
  raiseIf (relationId ∉ t.relations) (.relationNotFound relationId)
  pure ()

def assertMachine (machineId : String) : TopologyM Unit := do
  let t ← get
  raiseIf (machineId ∉ t.machines) (.machineNotFound machineId)
  pure ()

def assertService (serviceId : String) : TopologyM Unit := do
  let t ← get
  raiseIf (serviceId ∉ t.services) (.serviceNotFound serviceId)
  pure ()

def assertServiceUnit (serviceId unitId : String) : TopologyM Unit := do
  assertService serviceId
  let t ← get
  raiseIf (t.serviceUnit? serviceId unitId = none) (.serviceUnitNotFound unitId serviceId)
  pure ()

/-- Changes a service in place. -/
def modifyService (serviceId : String) (f : Service → Service) : TopologyM Unit :=
  modify fun t =>
    match t.services.lookup serviceId with
    | none => t
    | some service => { t with services := t.services.insert serviceId (f service) }

/-- Changes a unit in place. -/
def modifyUnit (serviceId unitId : String) (f : ServiceUnit → ServiceUnit) : TopologyM Unit :=
  modifyService serviceId fun service =>
    match service.units.lookup unitId with
    | none => service
    | some unit => { service with units := service.units.insert unitId (f unit) }

/-- Changes a relation's services in place. -/
def modifyRelation (relationId : String)
    (f : Dict String RelationService → Dict String RelationService) : TopologyM Unit :=
  modify fun t =>
    match t.relations.lookup relationId with
    | none => t
    | some relation =>
      { t with relations :=
        t.relations.insert relationId { relation with services := f relation.services } }

def addMachine (machineId : String) : TopologyM Unit := do
  let t ← get
  raiseIf (machineId ∈ t.machines) (.duplicatedMachine machineId)
  modify fun t => { t with machines := t.machines.insert machineId () }

def machineHasUnits (machineId : String) : TopologyM Bool := do
  assertMachine machineId
  let t ← get
  pure (t.services.entries.any fun s =>
    s.2.units.entries.any fun u => u.2.machine = some machineId)

def removeMachine (machineId : String) : TopologyM Unit := do
  assertMachine machineId
  let hasUnits ← machineHasUnits machineId
  raiseIf hasUnits (.machineHasUnits machineId)
  modify fun t => { t with machines := t.machines.erase machineId }

def addService (serviceId serviceName : String) : TopologyM Unit := do
  let t ← get
  raiseIf (serviceId ∈ t.services) (.duplicatedService serviceId)
  raiseIf (t.services.entries.any fun e => e.2.name = serviceName)
    (.serviceNameInUse serviceName)
  modify fun t => { t with services := t.services.insert serviceId ⟨serviceName, ∅⟩ }
  let t ← get
  if serviceName ∉ t.unitSequence then
    modify fun t => { t with unitSequence := t.unitSequence.insert serviceName 0 }

def getRelationsForService (serviceId : String) : TopologyM (List ServiceRelation) := do
  assertService serviceId
  let t ← get
  pure (t.relationsForService serviceId)

def removeService (serviceId : String) : TopologyM Unit := do
  assertService serviceId
  let relations ← getRelationsForService serviceId
  raiseIf (relations ≠ [])
    (.serviceInRelations serviceId (relations.map ServiceRelation.relationId))
  modify fun t => { t with services := t.services.erase serviceId }

def getServiceUnitService (unitId : String) : TopologyM String := do
  let t ← get
  match t.services.entries.find? fun e => unitId ∈ e.2.units with
  | some e => pure e.1
  | none => throw (.serviceUnitIdNotFound unitId)

/-- The container scoped relation without which a subordinate unit is refused. -/
def checkContainer (serviceId containerId : String) : TopologyM Unit := do
  let principalUnitService ← getServiceUnitService containerId
  let relations ← getRelationsForService serviceId
  let t ← get
  raiseIf (¬ relations.any fun r => t.relationHasService r.relationId principalUnitService ∧
    t.relationScope? r.relationId = some "container") .noContainerRelation
  pure ()

/-- What `add_service_unit` does after its checks. -/
def numberUnit (serviceId unitId : String) (containerId : Option String) : TopologyM Nat := do
  modifyService serviceId fun service =>
    { service with units := service.units.insert unitId ⟨none, none, none⟩ }
  let t ← get
  match t.services.lookup serviceId with
  | none => throw (.keyError serviceId)
  | some service =>
    match t.unitSequence.lookup service.name with
    | none => throw (.keyError service.name)
    | some sequence =>
      modifyUnit serviceId unitId fun unit =>
        { unit with sequence := some sequence, container := containerId }
      modify fun t =>
        { t with unitSequence := t.unitSequence.insert service.name (sequence + 1) }
      pure sequence

def addServiceUnit (serviceId unitId : String) (containerId : Option String) :
    TopologyM Nat := do
  assertService serviceId
  let t ← get
  match t.services.entries.find? fun e => unitId ∈ e.2.units with
  | some e => throw (.unitAlreadyInService unitId e.1)
  | none =>
    match containerId with
    | some containerId => checkContainer serviceId containerId
    | none => pure ()
    numberUnit serviceId unitId containerId

def removeServiceUnit (serviceId unitId : String) : TopologyM Unit := do
  assertServiceUnit serviceId unitId
  modifyService serviceId fun service => { service with units := service.units.erase unitId }

def assignServiceUnitToMachine (serviceId unitId machineId : String) : TopologyM Unit := do
  assertServiceUnit serviceId unitId
  assertMachine machineId
  let t ← get
  raiseIf (((t.serviceUnit? serviceId unitId).bind ServiceUnit.machine).isSome)
    (.unitAlreadyAssigned unitId serviceId)
  modifyUnit serviceId unitId fun unit => { unit with machine := some machineId }

def unassignServiceUnitFromMachine (serviceId unitId : String) : TopologyM Unit := do
  assertServiceUnit serviceId unitId
  let t ← get
  raiseIf (((t.serviceUnit? serviceId unitId).bind ServiceUnit.machine).isNone)
    (.unitNotAssigned serviceId unitId)
  modifyUnit serviceId unitId fun unit => { unit with machine := none }

def addRelation (relationId relationType relationScope : String) : TopologyM Unit := do
  let t ← get
  raiseIf (relationId ∈ t.relations) (.relationIdInUse relationId)
  modify fun t =>
    { t with relations := t.relations.insert relationId ⟨relationType, relationScope, ∅⟩ }

def removeRelation (relationId : String) : TopologyM Unit := do
  assertRelation relationId
  modify fun t => { t with relations := t.relations.erase relationId }

/-- The services of a relation, looked up. -/
def InternalTopology.relationServices (t : InternalTopology) (relationId : String) :
    Dict String RelationService :=
  match t.relations.lookup relationId with
  | none => ∅
  | some relation => relation.services

/-- The first service listed that keeps `serviceId` out of the relation in this role. -/
def roleConflict (relationId serviceId role : String) :
    List (Sigma fun _ : String => RelationService) → Option TopologyError
  | [] => none
  | e :: services =>
    if e.1 = serviceId then some (.serviceAlreadyAssigned serviceId relationId)
    else if e.2.role = role then some (.roleAlreadyProvided e.1 e.2.role)
    else roleConflict relationId serviceId role services

def assignServiceToRelation (relationId serviceId name role : String) : TopologyM Unit := do
  assertService serviceId
  assertRelation relationId
  let t ← get
  match roleConflict relationId serviceId role (t.relationServices relationId).entries with
  | some e => throw e
  | none => modifyRelation relationId fun services => services.insert serviceId ⟨name, role⟩

def unassignServiceFromRelation (relationId serviceId : String) : TopologyM Unit := do
  assertService serviceId
  assertRelation relationId
  let t ← get
  raiseIf (serviceId ∉ t.relationServices relationId)
    (.serviceNotAssigned serviceId relationId)
  modifyRelation relationId fun services => services.erase serviceId

/-- A call of a public mutating operation. -/
inductive TopologyCall where
  | addMachine (machineId : String)
  | removeMachine (machineId : String)
  | addService (serviceId serviceName : String)
  | removeService (serviceId : String)
  | addServiceUnit (serviceId unitId : String) (containerId : Option String)
  | removeServiceUnit (serviceId unitId : String)
  | assignServiceUnitToMachine (serviceId unitId machineId : String)
  | unassignServiceUnitFromMachine (serviceId unitId : String)
  | addRelation (relationId relationType relationScope : String)
  | removeRelation (relationId : String)
  | assignServiceToRelation (relationId serviceId name role : String)
  | unassignServiceFromRelation (relationId serviceId : String)

/-- The topology after a call, whether it returned or raised. -/
def call (t : InternalTopology) : TopologyCall → InternalTopology
  | .addMachine machineId => leaves (addMachine machineId t)
  | .removeMachine machineId => leaves (removeMachine machineId t)
  | .addService serviceId serviceName => leaves (addService serviceId serviceName t)
  | .removeService serviceId => leaves (removeService serviceId t)
  | .addServiceUnit serviceId unitId containerId =>
    leaves (addServiceUnit serviceId unitId containerId t)
  | .removeServiceUnit serviceId unitId => leaves (removeServiceUnit serviceId unitId t)
  | .assignServiceUnitToMachine serviceId unitId machineId =>
    leaves (assignServiceUnitToMachine serviceId unitId machineId t)
  | .unassignServiceUnitFromMachine serviceId unitId =>
    leaves (unassignServiceUnitFromMachine serviceId unitId t)
  | .addRelation relationId relationType relationScope =>
    leaves (addRelation relationId relationType relationScope t)
  | .removeRelation relationId => leaves (removeRelation relationId t)
  | .assignServiceToRelation relationId serviceId name role =>
    leaves (assignServiceToRelation relationId serviceId name role t)
  | .unassignServiceFromRelation relationId serviceId =>
    leaves (unassignServiceFromRelation relationId serviceId t)

end Juju.State

import Juju.Base.Path
import Juju.State.TopologyCalls

namespace Juju.State
open Juju.Base

/-- The name `service_name/sequence` is kept in its two parts. -/
structure ServiceUnitState where
  internalServiceId : String
  serviceName : String
  sequence : Nat
  internalId : String

structure ServiceRelationState where
  internalServiceId : String
  internalRelationId : String
  relationScope : String
  relationRole : String
  relationName : String

structure UnitRelationState where
  internalServiceId : String
  internalUnitId : String
  internalRelationId : String
  relationScope : String

inductive UnitRelationError where
  | topology (e : TopologyError)
  | stateChanged
  | unknownRelationRole (relationId relationRole : String)
  deriving DecidableEq

/-- What a function that only reads the topology returns. -/
def read {α : Type} (t : InternalTopology) (m : TopologyM α) : Except UnitRelationError α :=
  match m t with
  | .ok a _ => .ok a
  | .error e _ => .error (.topology e)

def getServiceUnitPrincipal (unitId : String) : TopologyM (Option String) := do
  let t ← get
  match t.services.entries.find? fun e => unitId ∈ e.2.units with
  | some e => pure ((e.2.units.lookup unitId).bind ServiceUnit.container)
  | none => throw (.serviceUnitIdNotFound unitId)

def getServiceUnitContainer (unitId : String) : TopologyM (Option ServiceUnitState) := do
  match ← getServiceUnitPrincipal unitId with
  | none => pure none
  | some containerId =>
    let serviceId ← getServiceUnitService containerId
    assertServiceUnit serviceId containerId
    let t ← get
    match t.services.lookup serviceId,
        (t.serviceUnit? serviceId containerId).bind ServiceUnit.sequence with
    | some service, some sequence => pure (some ⟨serviceId, service.name, sequence, containerId⟩)
    | _, _ => throw (.keyError "sequence")

def findServiceUnitWithSequence (serviceId : String) (sequence : Nat) :
    TopologyM (Option String) := do
  assertService serviceId
  let t ← get
  match t.services.lookup serviceId with
  | none => throw (.keyError serviceId)
  | some service =>
    pure ((service.units.entries.find? fun e => e.2.sequence = some sequence).map Sigma.fst)

def getServiceUnitIdFromName (serviceName : String) (sequence : Nat) :
    TopologyM (Option String) := do
  let t ← get
  match t.findServiceWithName serviceName with
  | none => throw (.serviceNotFound "None")
  | some serviceId => findServiceUnitWithSequence serviceId sequence

def getRelationService (relationId serviceId : String) :
    TopologyM (String × RelationService) := do
  assertService serviceId
  assertRelation relationId
  let t ← get
  match t.relations.lookup relationId with
  | none => throw (.keyError relationId)
  | some relation =>
    match relation.services.lookup serviceId with
    | none => throw (.serviceNotAssigned serviceId relationId)
    | some service => pure (relation.interface, service)

/-- The container of a unit; an `InternalTopologyError` counts as none. -/
def ServiceUnitState.getContainer (t : InternalTopology) (u : ServiceUnitState) :
    Except UnitRelationError (Option ServiceUnitState) :=
  match read t (getServiceUnitContainer u.internalId) with
  | .ok container => .ok container
  | .error (.topology (.keyError key)) => .error (.topology (.keyError key))
  | .error _ => .ok none

namespace ServiceRelationState

def getScopePath (s : ServiceRelationState) (u : ServiceUnitState)
    (container : Option ServiceUnitState) : String :=
  let relationScopeValue :=
    if s.relationScope = "container" then
      match container with
      | none => u.internalId
      | some container => container.internalId
    else ""
  rstripSlash ("/relations/" ++ s.internalRelationId ++ "/" ++ relationScopeValue)

/-- The settings node that `add_unit_state` creates. -/
def addUnitStatePath (t : InternalTopology) (s : ServiceRelationState) (u : ServiceUnitState) :
    Except UnitRelationError String := do
  let container ← u.getContainer t
  .ok (s.getScopePath u container ++ "/settings/" ++ u.internalId)

end ServiceRelationState

namespace UnitRelationState

def getContainerId (t : InternalTopology) (r : UnitRelationState) :
    Except UnitRelationError (Option String) := do
  match ← read t (getServiceUnitContainer r.internalUnitId) with
  | none => .ok (if r.relationScope = "global" then none else some r.internalUnitId)
  | some container => .ok (some container.internalId)

def getSettingsPath (t : InternalTopology) (r : UnitRelationState) :
    Except UnitRelationError String := do
  let containerId ← r.getContainerId t
  let parts := ["/relations", r.internalRelationId, containerId.getD "", "settings",
    r.internalUnitId]
  .ok (joinPath (parts.filter (· ≠ "")))

def getRelationRole (t : InternalTopology) (r : UnitRelationState) :
    Except UnitRelationError String := do
  if ¬ (t.hasRelation r.internalRelationId ∧ t.hasService r.internalServiceId) then
    .error .stateChanged
  else do
    let (_, info) ← read t (getRelationService r.internalRelationId r.internalServiceId)
    .ok info.role

/-- The role under which the related units of a role are present. -/
def counterpart : String → Option String
  | "server" => some "client"
  | "client" => some "server"
  | "peer" => some "peer"
  | _ => none

def getRelatedUnitContainer (t : InternalTopology) (r : UnitRelationState) :
    Except UnitRelationError String := do
  let relationRole ← r.getRelationRole t
  let containerId ← if r.relationScope = "container" then r.getContainerId t else .ok none
  match counterpart relationRole with
  | none => .error (.unknownRelationRole r.internalRelationId relationRole)
  | some role =>
    .ok (joinPath (["/relations", r.internalRelationId] ++ containerId.toList ++ [role]))

/-- The settings node of a unit as its related units' watcher, which works from the path
`container` of their role, names it. -/
def watcherSettingsPath (container unitId : String) : String :=
  dirname container ++ "/settings/" ++ unitId

end UnitRelationState

/-- As `RelationHookContext.get_settings_path` for a unit, in the context of `r`. -/
def relationContextPath (t : InternalTopology) (r : UnitRelationState) (unitId : String) :
    Except UnitRelationError String :=
  if r.relationScope = "global" then
    .ok ("/relations/" ++ r.internalRelationId ++ "/settings/" ++ unitId)
  else do
    let unitSettingsPath ← r.getSettingsPath t
    .ok (beforeLast unitSettingsPath ++ "/" ++ unitId)

/-- As `DepartedRelationHookContext.get_settings_path`, for the unit of that name. -/
def departedContextPath (t : InternalTopology) (relationId serviceName : String)
    (sequence : Nat) : Except UnitRelationError String := do
  match ← read t (getServiceUnitIdFromName serviceName sequence) with
  | none => .error (.topology (.serviceUnitIdNotFound "None"))
  | some unitId =>
    let container ← read t (getServiceUnitContainer unitId)
    let containerInfo := match container with
      | none => ""
      | some container => container.internalId ++ "/"
    .ok ("/relations/" ++ relationId ++ "/" ++ containerInfo ++ "settings/" ++ unitId)

/-- A unit of a service of the relation, as the topology has it. -/
structure UnitInRelation (t : InternalTopology) (relationId : String) (relation : Relation) where
  serviceId : String
  service : Service
  info : RelationService
  unitId : String
  unit : ServiceUnit
  sequence : Nat
  hrelation : t.relations.lookup relationId = some relation
  hinfo : relation.services.lookup serviceId = some info
  hservice : t.services.lookup serviceId = some service
  hunit : service.units.lookup unitId = some unit
  hsequence : unit.sequence = some sequence

namespace UnitInRelation

variable {t : InternalTopology} {relationId : String} {relation : Relation}

def unitState (u : UnitInRelation t relationId relation) : ServiceUnitState :=
  ⟨u.serviceId, u.service.name, u.sequence, u.unitId⟩

def serviceRelationState (u : UnitInRelation t relationId relation) : ServiceRelationState :=
  ⟨u.serviceId, relationId, relation.scope, u.info.role, u.info.name⟩

def unitRelationState (u : UnitInRelation t relationId relation) : UnitRelationState :=
  ⟨u.serviceId, u.unitId, relationId, relation.scope⟩

end UnitInRelation

/-- The ways to the settings of a unit, its own and those of a related unit. -/
inductive SettingsAccess where
  | addUnitState
  | unitRelation
  | ownContext
  | relatedContext
  | relatedWatcher
  | departedContext

section access

variable {t : InternalTopology} {relationId : String} {relation : Relation}
  (u v : UnitInRelation t relationId relation)

/-- Where each way leads for the settings of `u`, with `v` the related unit. -/
def settingsPath : SettingsAccess → Except UnitRelationError String
  | .addUnitState => u.serviceRelationState.addUnitStatePath t u.unitState
  | .unitRelation => u.unitRelationState.getSettingsPath t
  | .ownContext => relationContextPath t u.unitRelationState u.unitId
  | .relatedContext => relationContextPath t v.unitRelationState u.unitId
  | .relatedWatcher => do
    let container ← v.unitRelationState.getRelatedUnitContainer t
    .ok (UnitRelationState.watcherSettingsPath container u.unitId)
  | .departedContext => departedContextPath t relationId u.service.name u.sequence

/-- `v` can watch its related units, and `u` is in its scope. -/
def Watches : Prop :=
  (∃ container, v.unitRelationState.getRelatedUnitContainer t = .ok container) ∧
    (relation.scope = "container" →
      u.unitRelationState.getContainerId t = v.unitRelationState.getContainerId t)

def PathsAgree : Prop := ∃ path, ∀ access, settingsPath u v access = .ok path

/-- Settings set in one way are those read in another. -/
def DataShared : Prop :=
  ∀ (nodes : Dict String String) (data : String) (writer reader : SettingsAccess),
    ∃ written found, settingsPath u v writer = .ok written ∧
      settingsPath u v reader = .ok found ∧ (nodes.insert written data).lookup found = some data

/-- A unit that is its own container in global scope, or in a container in container scope. -/
def InPlace : Prop :=
  relation.scope = "global" ∧ u.unit.container = none ∨
    relation.scope = "container" ∧ u.unit.container ≠ none

end access

end Juju.State

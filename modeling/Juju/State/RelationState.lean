import Juju.State.TopologyCalls

namespace Juju.State
open Juju.Base

structure RelationEndpoint where
  serviceName : String
  relationType : String
  relationName : String
  relationRole : String
  relationScope : String
  deriving DecidableEq

def RelationEndpoint.mayRelateTo (e other : RelationEndpoint) : Bool :=
  e.relationType = other.relationType ∧
    ((e.relationRole = "server" ∧ other.relationRole = "client") ∨
      (e.relationRole = "client" ∧ other.relationRole = "server") ∨
      (e.relationRole = "peer" ∧ other.relationRole = "peer"))

namespace InternalTopology

variable (t : InternalTopology)

/-- The relation lists the endpoint's service under the endpoint's relation name. -/
def takesPart (relation : Relation) (e : RelationEndpoint) : Bool :=
  match t.findServiceWithName e.serviceName with
  | none => false
  | some serviceId =>
    match relation.services.lookup serviceId with
    | none => false
    | some service => service.name = e.relationName

def hasRelationBetweenEndpoints (endpoints : List RelationEndpoint) : Bool :=
  t.relations.entries.any fun r =>
    endpoints.all fun e => t.takesPart r.2 e ∧ r.2.scope = e.relationScope

def getRelationBetweenEndpoints (endpoints : List RelationEndpoint) : Option String :=
  (t.relations.entries.find? fun r =>
    endpoints.head?.map RelationEndpoint.relationType = some r.2.interface ∧
      endpoints.all fun e => t.takesPart r.2 e).map Sigma.fst

end InternalTopology

inductive StateError where
  | topology (e : TopologyError)
  | typeError
  | duplicateEndpoints
  | incompatibleEndpoints
  | relationAlreadyExists
  | stateChanged
  deriving DecidableEq

/-- The checks of `add_relation_state` that read nothing but the endpoints. -/
def checkEndpoints : List RelationEndpoint → Except StateError Unit
  | [_] => .ok ()
  | [e, f] =>
    if e = f then .error .duplicateEndpoints
    else if (e.relationRole = "client" ∨ e.relationRole = "server" ∨
        f.relationRole = "client" ∨ f.relationRole = "server") ∧ ¬ e.mayRelateTo f then
      .error .incompatibleEndpoints
    else .ok ()
  | _ => .error .typeError

/-- The scope of a relation: "container" as soon as one endpoint has it. -/
def commonScope (endpoints : List RelationEndpoint) : String :=
  if endpoints.any fun e => e.relationScope = "container" then "container" else "global"

/-- An operation of the topology inside a change function. -/
def liftTopology {α : Type} (m : TopologyM α) : EStateM StateError InternalTopology α :=
  fun t => match m t with
    | .ok a t => .ok a t
    | .error e t => .error (.topology e) t

def assignEndpoint (relationId : String) (serviceId : Option String) (e : RelationEndpoint) :
    EStateM StateError InternalTopology Unit :=
  match serviceId with
  | none => throw (.topology (.serviceNotFound "None"))
  | some serviceId =>
    liftTopology (assignServiceToRelation relationId serviceId e.relationName e.relationRole)

/-- The loop over `services`, where `lastId` is the variable `service_id` that the closure
shares with the loop before it. -/
def assignEndpoints (relationId : String) (lastId : Option String) :
    List (Option String × RelationEndpoint) → EStateM StateError InternalTopology Unit
  | [] => pure ()
  | (serviceId, e) :: services => do
    let t ← get
    raiseIf (¬ ∃ id ∈ lastId, id ∈ t.services) .stateChanged
    assignEndpoint relationId serviceId e
    assignEndpoints relationId lastId services

/-- What an `add_relation_state` call knows once it has read the topology. -/
structure AddRelation where
  endpoints : List RelationEndpoint
  relationType : String
  scope : String
  serviceIds : List (Option String)

/-- The function that the call passes to `_retry_topology_change`. -/
def addRelationChange (add : AddRelation) (relationId : String) :
    EStateM StateError InternalTopology Unit := do
  let t ← get
  raiseIf (t.hasRelationBetweenEndpoints add.endpoints) .relationAlreadyExists
  liftTopology (addRelation relationId add.relationType add.scope)
  assignEndpoints relationId (add.serviceIds.getLast?.join) (add.serviceIds.zip add.endpoints)

def removeRelationChange (relationId : String) : EStateM StateError InternalTopology Unit := do
  let t ← get
  raiseIf (¬ t.hasRelation relationId) .stateChanged
  liftTopology (removeRelation relationId)

/-- `retry_change`: an atomic step that writes the changed topology unless the change raises. -/
def retryTopologyChange (change : EStateM StateError InternalTopology Unit)
    (t : InternalTopology) : InternalTopology × Except StateError Unit :=
  match change t with
  | .ok _ t' => (t', .ok ())
  | .error e _ => (t, .error e)

/-- Where a call of `add_relation_state` waits for ZooKeeper. -/
inductive AddProgress where
  | checked (add : AddRelation)
  | created (add : AddRelation) (relationId : String)

/-- The topology node and the calls of `add_relation_state` under way, named by `C`. -/
structure RelationManagers (C : Type) where
  topology : InternalTopology
  calls : C → Option AddProgress

/-- A step of a call; the creation of the nodes yields the id of the relation. -/
inductive RelationAction (C : Type) where
  | start (c : C) (endpoints : List RelationEndpoint)
  | create (c : C) (relationId : String)
  | commit (c : C)
  | remove (relationId : String)

def prepareAdd (t : InternalTopology) (endpoints : List RelationEndpoint) : AddRelation :=
  ⟨endpoints, (endpoints.head?.map RelationEndpoint.relationType).getD "",
    commonScope endpoints, endpoints.map fun e => t.findServiceWithName e.serviceName⟩

/-- `add_relation_state` up to the creation of its nodes. -/
def startAdd (t : InternalTopology) (endpoints : List RelationEndpoint) :
    Except StateError AddRelation :=
  match checkEndpoints endpoints with
  | .error e => .error e
  | .ok _ =>
    if t.hasRelationBetweenEndpoints endpoints then .error .relationAlreadyExists
    else .ok (prepareAdd t endpoints)

variable {C : Type} [DecidableEq C]

/-- One step, with the result of the call that it ends. -/
def relationStep (m : RelationManagers C) :
    RelationAction C → RelationManagers C × Option (Except StateError Unit)
  | .start c endpoints =>
    match m.calls c with
    | some _ => (m, none)
    | none =>
      match startAdd m.topology endpoints with
      | .error e => (m, some (.error e))
      | .ok add => ({ m with calls := Function.update m.calls c (some (.checked add)) }, none)
  | .create c relationId =>
    match m.calls c with
    | some (.checked add) =>
      ({ m with calls := Function.update m.calls c (some (.created add relationId)) }, none)
    | _ => (m, none)
  | .commit c =>
    match m.calls c with
    | some (.created add relationId) =>
      let (topology, result) := retryTopologyChange (addRelationChange add relationId) m.topology
      (⟨topology, Function.update m.calls c none⟩, some result)
    | _ => (m, none)
  | .remove relationId =>
    let (topology, result) := retryTopologyChange (removeRelationChange relationId) m.topology
    ({ m with topology := topology }, some result)

def relationRun (m : RelationManagers C) (actions : List (RelationAction C)) :
    RelationManagers C :=
  actions.foldl (fun m a => (relationStep m a).1) m

end Juju.State

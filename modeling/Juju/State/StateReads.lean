import Juju.State.MachineUnits
import Juju.State.StateManagers
import Juju.State.UnitNameLookups

namespace Juju.State
open Juju.Base
open Juju.Lib

def ServiceUnitState.unitName (u : ServiceUnitState) : String :=
  Juju.State.unitName u.serviceName u.sequence

/-- `_parse_unit_name`, where it does not raise. -/
def parseUnitName (k : TextKind) (unitName : String) : Option (String × Int) :=
  (cutLast '/' unitName.toList).bind fun parts =>
    (k.int parts.2).map fun sequence => (String.ofList parts.1, sequence)

/-- What reading states off the topology may raise. -/
inductive StateReadError where
  | topology (e : TopologyError)
  | container (e : UnitRelationError)
  | machineUnit (e : MachineUnitError)
  | stateChanged
  | badUnitName (unitName : String)

def ask {α : Type} (t : InternalTopology) (m : TopologyM α) : Except StateReadError α :=
  match m t with
  | .ok a _ => .ok a
  | .error e _ => .error (.topology e)

/-- The states of services, found by their ids. -/
def serviceStates : List String → TopologyM (List ServiceState)
  | [] => pure []
  | serviceId :: serviceIds => do
    let serviceName ← getServiceName serviceId
    let states ← serviceStates serviceIds
    pure (⟨serviceId, serviceName⟩ :: states)

def getAllServiceStates : TopologyM (List ServiceState) := do
  let t ← get
  serviceStates t.services.keys

/-- The services of a relation. -/
def getServiceStates (relationId : String) : TopologyM (List ServiceState) := do
  assertRelation relationId
  let t ← get
  serviceStates (t.relationServices relationId).keys

def relationStatesForService (service : ServiceState) : TopologyM (List ServiceRelationState) := do
  let relations ← getRelationsForService service.internalId
  pure (relations.map fun info =>
    ⟨service.internalId, info.relationId, info.scope, info.service.role, info.service.name⟩)

section units

variable (k : TextKind) (t : InternalTopology) (service : ServiceState)

/-- The state of a unit, found by the sequence in its name. -/
def unitStateOf (unitId : String) : Except StateReadError ServiceUnitState := do
  let name ← ask t (getServiceUnitName service.internalId unitId)
  match parseUnitName k name with
  | none => .error (.badUnitName name)
  | some (_, sequence) => do
    let internalUnitId ← ask t (findServiceUnitWithInteger service.internalId sequence)
    .ok ⟨service.internalId, service.serviceName, sequence.toNat, internalUnitId.getD "None"⟩

def unitStatesOf : List String → Except StateReadError (List ServiceUnitState)
  | [] => .ok []
  | unitId :: unitIds => do
    let state ← unitStateOf k t service unitId
    let states ← unitStatesOf unitIds
    .ok (state :: states)

def getAllUnitStates : Except StateReadError (List ServiceUnitState) :=
  match t.services.lookup service.internalId with
  | none => .error .stateChanged
  | some info => unitStatesOf k t service info.units.keys

end units

/-- The node that says that a unit has joined a relation. -/
def ServiceRelationState.alivePath (t : InternalTopology) (r : ServiceRelationState)
    (u : ServiceUnitState) : Except StateReadError String :=
  if r.relationScope = "global" then
    .ok ("/relations/" ++ r.internalRelationId ++ "/" ++ r.relationRole ++ "/" ++ u.internalId)
  else
    match u.getContainer t with
    | .error e => .error (.container e)
    | .ok container =>
      .ok (r.getScopePath u container ++ "/" ++ r.relationRole ++ "/" ++ u.internalId)

theorem parseUnitName_unitName (k : TextKind) (serviceName : String) (sequence : Nat) :
    parseUnitName k (unitName serviceName sequence) = some (serviceName, (sequence : Int)) := by
  have hdigits : '/' ∉ Nat.toDigits 10 sequence := by
    intro hin
    have hdigit := TextKind.toDigits_isDigit sequence '/' hin
    simp at hdigit
  have hcut : cutLast '/' (unitName serviceName sequence).toList =
      some (serviceName.toList, Nat.toDigits 10 sequence) := by
    apply (cutLast_eq_some _ _ _ _).mpr
    constructor
    · simp [unitName, Nat.toString_eq_repr, Nat.toList_repr]
    · exact hdigits
  rw [parseUnitName, hcut, Option.bind_some, k.int_toDigits, Option.map_some,
    String.ofList_toList]

theorem ask_ok {α : Type} (t t' : InternalTopology) (m : TopologyM α) (a : α)
    (h : m t = .ok a t') : ask t m = .ok a := by
  rw [ask, h]

section services

variable {t : InternalTopology}

theorem getServiceName_service (serviceId : String) (service : Service)
    (hs : t.services.lookup serviceId = some service) :
    getServiceName serviceId t = .ok service.name t := by
  have hin : serviceId ∈ t.services := (Dict.mem_iff_lookup _ _).mpr ⟨service, hs⟩
  simp [getServiceName, hin, hs]

/-- Services that are there are read, each with its name. -/
theorem serviceStates_spec (serviceIds : List String) (hin : ∀ id ∈ serviceIds, id ∈ t.services) :
    ∃ states, serviceStates serviceIds t = .ok states t ∧
      states.map ServiceState.internalId = serviceIds ∧ ∀ state ∈ states, ∃ service,
        t.services.lookup state.internalId = some service ∧ state.serviceName = service.name := by
  induction serviceIds with
  | nil => exact ⟨[], rfl, rfl, by simp⟩
  | cons id serviceIds ih =>
    obtain ⟨states, hstates, hids, hnames⟩ := ih fun id' h => hin id' (List.mem_cons_of_mem _ h)
    obtain ⟨service, hs⟩ := (Dict.mem_iff_lookup _ _).mp (hin id List.mem_cons_self)
    refine ⟨⟨id, service.name⟩ :: states, ?_, by simp [hids], ?_⟩
    · rw [serviceStates, bind_of_ok _ _ _ _ _ (getServiceName_service id service hs),
        bind_of_ok _ _ _ _ _ hstates]
      rfl
    · intro state hstate
      rcases List.mem_cons.mp hstate with rfl | hstate
      · exact ⟨service, hs, rfl⟩
      · exact hnames state hstate

theorem getAllServiceStates_spec (t : InternalTopology) :
    ∃ states, getAllServiceStates t = .ok states t ∧
      states.map ServiceState.internalId = t.services.keys ∧ ∀ state ∈ states, ∃ service,
        t.services.lookup state.internalId = some service ∧ state.serviceName = service.name :=
  serviceStates_spec t.services.keys fun _ hid => AList.mem_keys.mp hid

theorem getServiceStates_spec (h : Integrity t) (relationId : String) (relation : Relation)
    (hr : t.relations.lookup relationId = some relation) :
    ∃ states, getServiceStates relationId t = .ok states t ∧
      states.map ServiceState.internalId = relation.services.keys ∧ ∀ state ∈ states, ∃ service,
        t.services.lookup state.internalId = some service ∧ state.serviceName = service.name := by
  have hin : relationId ∈ t.relations := (Dict.mem_iff_lookup _ _).mpr ⟨relation, hr⟩
  have hkeys : (t.relationServices relationId).keys = relation.services.keys := by
    simp only [InternalTopology.relationServices, hr]
  obtain ⟨states, hstates, hspec⟩ := serviceStates_spec (t := t) relation.services.keys
    fun id hid => h.relationService relationId relation id hr (AList.mem_keys.mp hid)
  refine ⟨states, ?_, hspec⟩
  rw [getServiceStates, assertRelation_bind, if_pos hin, get_bind, hkeys, hstates]

end services

section unitStates

variable {t : InternalTopology} (h : Integrity t) (k : TextKind)
include h

theorem unitStateOf_unit (service : ServiceState) (info : Service) (uid : String)
    (hs : t.services.lookup service.internalId = some info) (hname : service.serviceName = info.name)
    (hin : uid ∈ info.units) : ∃ u, unitStateOf k t service uid = .ok u ∧
      t.unitState service.internalId uid = some u := by
  obtain ⟨unit, hu⟩ := (Dict.mem_iff_lookup _ _).mp hin
  obtain ⟨n, hn, hrun⟩ := getServiceUnitName_unit h service.internalId uid info unit hs hu
  refine ⟨⟨service.internalId, info.name, n, uid⟩, ?_, ?_⟩
  · have hfound := getServiceUnitIdFromName_unit h service.internalId uid info unit n hs hu hn
    have hservice := findServiceWithName_service h service.internalId info hs
    have hfind : ask t (findServiceUnitWithInteger service.internalId (n : Int)) =
        .ok (some uid) := by
      simp only [read, getServiceUnitIdFromName, get_bind, hservice] at hfound
      simp only [ask, findServiceUnitWithInteger]
      cases hrun : findServiceUnitWithSequence service.internalId n t with
      | ok found t' =>
        rw [hrun] at hfound
        simpa using hfound
      | error e t' =>
        rw [hrun] at hfound
        cases hfound
    rw [unitStateOf, ask_ok _ _ _ _ hrun]
    simp only [Except.bind, bind, parseUnitName_unitName, hfind, hname]
    rfl
  · simp [InternalTopology.unitState, hs, hu, hn]

/-- The units of a service are read, each with the sequence in its name. -/
theorem getAllUnitStates_spec (service : ServiceState) (info : Service)
    (hs : t.services.lookup service.internalId = some info)
    (hname : service.serviceName = info.name) :
    ∃ units, getAllUnitStates k t service = .ok units ∧
      ∀ u, u ∈ units ↔ ∃ uid, t.unitState service.internalId uid = some u := by
  have hall (uids : List String) (hin : ∀ uid ∈ uids, uid ∈ info.units) :
      ∃ units, unitStatesOf k t service uids = .ok units ∧
        ∀ u, u ∈ units ↔ ∃ uid ∈ uids, t.unitState service.internalId uid = some u := by
    induction uids with
    | nil => exact ⟨[], rfl, by simp⟩
    | cons uid uids ih =>
      obtain ⟨units, hunits, hmem⟩ := ih fun uid' h => hin uid' (List.mem_cons_of_mem _ h)
      obtain ⟨u, hrun, hu⟩ :=
        unitStateOf_unit h k service info uid hs hname (hin uid List.mem_cons_self)
      refine ⟨u :: units, by rw [unitStatesOf, hrun]; simp only [bind, Except.bind, hunits], ?_⟩
      intro u'
      rw [List.mem_cons, hmem, List.exists_mem_cons_iff]
      exact or_congr_left (by rw [hu, Option.some.injEq, eq_comm])
  obtain ⟨units, hunits, hmem⟩ := hall info.units.keys fun uid huid => AList.mem_keys.mp huid
  refine ⟨units, by rw [getAllUnitStates, hs]; exact hunits, fun u => ?_⟩
  rw [hmem]
  constructor
  · rintro ⟨uid, -, hu⟩
    exact ⟨uid, hu⟩
  · rintro ⟨uid, hu⟩
    refine ⟨uid, ?_, hu⟩
    obtain ⟨info', hs', hmap⟩ := Option.bind_eq_some_iff.mp hu
    obtain rfl := Option.some.inj (hs'.symm.trans hs)
    obtain ⟨n, hn, -⟩ := Option.map_eq_some_iff.mp hmap
    obtain ⟨unit, hunit, -⟩ := Option.bind_eq_some_iff.mp hn
    exact AList.mem_keys.mpr ((Dict.mem_iff_lookup _ _).mpr ⟨unit, hunit⟩)

end unitStates

end Juju.State

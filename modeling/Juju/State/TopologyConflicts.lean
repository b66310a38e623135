import Juju.State.TopologyNames
import Juju.State.UnitLookups

namespace Juju.State
open Juju.Base

/-- The container's service has a relation of container scope with the service. -/
def ContainerRelated (t : InternalTopology) (serviceId containerId : String) : Prop :=
  ∃ principalId relationId relation, t.serviceUnit? principalId containerId ≠ none ∧
    t.relations.lookup relationId = some relation ∧ relation.scope = "container" ∧
    principalId ∈ relation.services ∧ serviceId ∈ relation.services

section succeeds

variable {t : InternalTopology}

theorem addMachine_succeeds (id : String) (hnew : id ∉ t.machines) :
    ∃ t', addMachine id t = .ok () t' := by
  simp only [addMachine, get_bind, raiseIf_bind, modify_run, if_neg hnew]
  exact ⟨_, rfl⟩

/-- `machine_has_units` reads the topology. -/
theorem machineHasUnits_succeeds (id : String) (hin : id ∈ t.machines) :
    ∃ hasUnits, machineHasUnits id t = .ok hasUnits t := by
  simp only [machineHasUnits, assertMachine_bind, get_bind, pure_run, if_pos hin]
  exact ⟨_, rfl⟩

theorem removeMachine_succeeds (id : String) (hin : id ∈ t.machines)
    (hfree : machineHasUnits id t = .ok false t) : ∃ t', removeMachine id t = .ok () t' := by
  rw [removeMachine, assertMachine_bind, if_pos hin, bind_of_ok _ _ _ _ _ hfree]
  exact ⟨_, rfl⟩

theorem addService_succeeds (id name : String) (hnew : id ∉ t.services)
    (hname : t.findServiceWithName name = none) : ∃ t', addService id name t = .ok () t' := by
  have hnone : ¬ t.services.entries.any fun e => decide (e.2.name = name) := by
    rw [List.any_eq_true]
    rintro ⟨e, he, hn⟩
    exact List.find?_eq_none.mp (Option.map_eq_none_iff.mp hname) e he hn
  simp only [addService, get_bind, raiseIf_bind, modify_bind, if_neg hnew, if_neg hnone]
  split <;> exact ⟨_, rfl⟩

theorem removeService_succeeds (id : String) (hin : id ∈ t.services)
    (hfree : t.relationsForService id = []) : ∃ t', removeService id t = .ok () t' := by
  simp only [removeService, getRelationsForService, bind_assoc, assertService_bind, get_bind,
    pure_bind, raiseIf_bind, modify_run, if_pos hin, hfree]
  exact ⟨_, rfl⟩

theorem removeServiceUnit_succeeds (sid uid : String) (hin : t.serviceUnit? sid uid ≠ none) :
    ∃ t', removeServiceUnit sid uid t = .ok () t' := by
  obtain ⟨unit, hunit⟩ := Option.ne_none_iff_exists'.mp hin
  obtain ⟨service, hs, hu⟩ := Option.bind_eq_some_iff.mp hunit
  have hservice : sid ∈ t.services := (Dict.mem_iff_lookup _ _).mpr ⟨service, hs⟩
  rw [removeServiceUnit, assertServiceUnit_bind, if_pos hservice, if_neg hin,
    modifyService_run _ _ _ _ hs]
  exact ⟨_, rfl⟩

/-- Writing the machine of a unit that exists. -/
theorem modifyUnit_succeeds (sid uid : String) (f : ServiceUnit → ServiceUnit)
    (hin : t.serviceUnit? sid uid ≠ none) : ∃ t', modifyUnit sid uid f t = .ok () t' := by
  obtain ⟨unit, hunit⟩ := Option.ne_none_iff_exists'.mp hin
  obtain ⟨service, hs, hu⟩ := Option.bind_eq_some_iff.mp hunit
  exact ⟨_, modifyUnit_run _ _ _ _ _ _ hs hu⟩

theorem mem_services_of_unit (sid uid : String) (hin : t.serviceUnit? sid uid ≠ none) :
    sid ∈ t.services := by
  obtain ⟨unit, hunit⟩ := Option.ne_none_iff_exists'.mp hin
  obtain ⟨service, hs, -⟩ := Option.bind_eq_some_iff.mp hunit
  exact (Dict.mem_iff_lookup _ _).mpr ⟨service, hs⟩

theorem assignServiceUnitToMachine_succeeds (sid uid m : String)
    (hin : t.serviceUnit? sid uid ≠ none) (hm : m ∈ t.machines)
    (hfree : t.unitMachine sid uid = none) :
    ∃ t', assignServiceUnitToMachine sid uid m t = .ok () t' := by
  have hnot : ¬ ((t.serviceUnit? sid uid).bind ServiceUnit.machine).isSome := by
    rw [← InternalTopology.unitMachine, hfree]
    decide
  simp only [assignServiceUnitToMachine, assertServiceUnit_bind, assertMachine_bind, get_bind,
    raiseIf_bind, if_pos (mem_services_of_unit sid uid hin), if_neg hin, if_pos hm, if_neg hnot]
  exact modifyUnit_succeeds sid uid _ hin

theorem unassignServiceUnitFromMachine_succeeds (sid uid : String)
    (hin : t.serviceUnit? sid uid ≠ none) (hsome : (t.unitMachine sid uid).isSome) :
    ∃ t', unassignServiceUnitFromMachine sid uid t = .ok () t' := by
  have hnot : ¬ ((t.serviceUnit? sid uid).bind ServiceUnit.machine).isNone := by
    rw [← InternalTopology.unitMachine]
    simpa [Option.isNone_iff_eq_none, Option.isSome_iff_ne_none] using hsome
  simp only [unassignServiceUnitFromMachine, assertServiceUnit_bind, get_bind, raiseIf_bind,
    if_pos (mem_services_of_unit sid uid hin), if_neg hin, if_neg hnot]
  exact modifyUnit_succeeds sid uid _ hin

/-- The container, whose name needs its sequence, is found when its unit is there. -/
theorem getServiceUnitContainer_present (h : Integrity t) (sid uid : String) (unit : ServiceUnit)
    (hunit : t.serviceUnit? sid uid = some unit) (c : String) (hc : unit.container = some c)
    (psid : String) (hpsid : t.serviceUnit? psid c ≠ none) :
    ∃ service principal n, t.services.lookup psid = some service ∧
      service.units.lookup c = some principal ∧ principal.sequence = some n ∧
      getServiceUnitContainer uid t = .ok (some ⟨psid, service.name, n, c⟩) t := by
  obtain ⟨service, hs, hu⟩ := Option.bind_eq_some_iff.mp hunit
  obtain ⟨principal, hprincipal⟩ := Option.ne_none_iff_exists'.mp hpsid
  obtain ⟨service', hs', hu'⟩ := Option.bind_eq_some_iff.mp hprincipal
  obtain ⟨n, -, hn, -⟩ := h.sequenceBelow psid service' c principal hs' hprincipal
  refine ⟨service', principal, n, hs', hu', hn, ?_⟩
  rw [getServiceUnitContainer,
    bind_of_ok _ _ _ _ _ (getServiceUnitPrincipal_unit h sid uid service unit hs hu), hc]
  dsimp only
  rw [bind_of_ok _ _ _ _ _ (getServiceUnitService_unit h psid c service' principal hs' hu'),
    assertServiceUnit_bind, if_pos (mem_services_of_unit psid c hpsid), if_neg hpsid, get_bind]
  simp [hs', hprincipal, hn]

theorem getServiceUnitContainer_none (h : Integrity t) (sid uid : String) (unit : ServiceUnit)
    (hunit : t.serviceUnit? sid uid = some unit) (hc : unit.container = none) :
    getServiceUnitContainer uid t = .ok none t := by
  obtain ⟨service, hs, hu⟩ := Option.bind_eq_some_iff.mp hunit
  rw [getServiceUnitContainer,
    bind_of_ok _ _ _ _ _ (getServiceUnitPrincipal_unit h sid uid service unit hs hu), hc]
  rfl

theorem getServiceUnitContainer_succeeds (h : Integrity t) (sid uid : String) (unit : ServiceUnit)
    (hunit : t.serviceUnit? sid uid = some unit)
    (hcontainer : ∀ c ∈ unit.container, ∃ psid, t.serviceUnit? psid c ≠ none) :
    ∃ container, getServiceUnitContainer uid t = .ok container t ∧
      (container = none ↔ unit.container = none) := by
  cases hc : unit.container with
  | none => exact ⟨none, getServiceUnitContainer_none h sid uid unit hunit hc, by simp⟩
  | some c =>
    obtain ⟨psid, hpsid⟩ := hcontainer c hc
    obtain ⟨service, principal, n, -, -, -, hfound⟩ :=
      getServiceUnitContainer_present h sid uid unit hunit c hc psid hpsid
    exact ⟨_, hfound, by simp⟩

theorem checkContainer_succeeds (h : Integrity t) (sid c : String)
    (hrelated : ContainerRelated t sid c) : checkContainer sid c t = .ok () t := by
  obtain ⟨psid, rid, relation, hpsid, hr, hscope, hprincipal, hsid⟩ := hrelated
  obtain ⟨unit, hunit⟩ := Option.ne_none_iff_exists'.mp hpsid
  obtain ⟨service, hs, hu⟩ := Option.bind_eq_some_iff.mp hunit
  obtain ⟨info, hinfo⟩ := (Dict.mem_iff_lookup _ _).mp hsid
  have hlisted : (⟨rid, relation.interface, relation.scope, info⟩ : ServiceRelation) ∈
      t.relationsForService sid :=
    List.mem_filterMap.mpr ⟨⟨rid, relation⟩, (Dict.mem_entries_iff _ _).mpr hr, by simp [hinfo]⟩
  have hfound : (t.relationsForService sid).any fun r =>
      t.relationHasService r.relationId psid ∧ t.relationScope? r.relationId = some "container" := by
    rw [List.any_eq_true]
    exact ⟨_, hlisted, by simp [InternalTopology.relationHasService,
      InternalTopology.relationScope?, hr, hscope, hprincipal]⟩
  rw [checkContainer,
    bind_of_ok _ _ _ _ _ (getServiceUnitService_unit h psid c service unit hs hu),
    getRelationsForService, bind_assoc, assertService_bind,
    if_pos (h.relationService rid relation sid hr hsid)]
  simp only [bind_assoc, get_bind, pure_bind, raiseIf_bind, hfound, not_true_eq_false, if_false]
  rfl

theorem addServiceUnit_succeeds (h : Integrity t) (sid uid : String) (container : Option String)
    (hin : sid ∈ t.services) (hnew : ¬ t.Names .unit uid)
    (hrelated : ∀ c ∈ container, ContainerRelated t sid c) :
    ∃ n t', addServiceUnit sid uid container t = .ok n t' := by
  obtain ⟨service, hs⟩ := (Dict.mem_iff_lookup _ _).mp hin
  obtain ⟨n, hn⟩ := (Dict.mem_iff_lookup _ _).mp (h.serviceCounter sid service hs)
  have hfind : t.services.entries.find? (fun e => decide (uid ∈ e.2.units)) = none := by
    rw [List.find?_eq_none]
    intro e he hmem
    obtain ⟨unit, hunit⟩ := (Dict.mem_iff_lookup _ _).mp (of_decide_eq_true hmem)
    have hlookup := (Dict.mem_entries_iff _ _).mp he
    exact hnew ⟨e.1, by simp [serviceUnit?_lookup t e.1 uid e.2 hlookup, hunit]⟩
  have hnumber := numberUnit_run sid uid container t service n hs hn
  rw [addServiceUnit, assertService_bind, if_pos hin, get_bind, hfind]
  cases container with
  | none => exact ⟨n, _, hnumber⟩
  | some c =>
    simp only
    rw [bind_of_ok _ _ _ _ _ (checkContainer_succeeds h sid c (hrelated c rfl))]
    exact ⟨n, _, hnumber⟩

theorem addRelation_succeeds (rid relationType scope : String) (hnew : rid ∉ t.relations) :
    addRelation rid relationType scope t = .ok ()
      { t with relations := t.relations.insert rid ⟨relationType, scope, ∅⟩ } := by
  simp only [addRelation, get_bind, raiseIf_bind, modify_run, if_neg hnew]

theorem removeRelation_succeeds (rid : String) (hin : rid ∈ t.relations) :
    ∃ t', removeRelation rid t = .ok () t' := by
  simp only [removeRelation, assertRelation_bind, modify_run, if_pos hin]
  exact ⟨_, rfl⟩

theorem assignServiceToRelation_succeeds (rid sid name role : String) (relation : Relation)
    (hin : sid ∈ t.services) (hr : t.relations.lookup rid = some relation)
    (hfree : ∀ other x, relation.services.lookup other = some x → other ≠ sid ∧ x.role ≠ role) :
    assignServiceToRelation rid sid name role t = .ok () { t with
      relations := t.relations.insert rid
        { relation with services := relation.services.insert sid ⟨name, role⟩ } } := by
  have hrelation : rid ∈ t.relations := (Dict.mem_iff_lookup _ _).mpr ⟨relation, hr⟩
  have hnone : roleConflict rid sid role (t.relationServices rid).entries = none := by
    rw [roleConflict_eq_none]
    intro e he
    simp only [InternalTopology.relationServices, hr] at he
    exact hfree e.1 e.2 ((Dict.mem_entries_iff _ _).mp he)
  simp only [assignServiceToRelation, assertService_bind, assertRelation_bind, get_bind,
    if_pos hin, if_pos hrelation, hnone, modifyRelation_run _ _ _ _ hr]

end succeeds

/-- The services of a relation to add are there, each once and in a role of its own. -/
def Assignable (t : InternalTopology) (services : List (Option String × RelationEndpoint)) : Prop :=
  (∀ p ∈ services, ∃ id ∈ p.1, id ∈ t.services) ∧
    services.Pairwise fun p q => p.1 ≠ q.1 ∧ p.2.relationRole ≠ q.2.relationRole

/-- What the guards of a change function leave open: no relation came to a service that is being
removed; a container is there and related; a unit to assign has its container and no other
machine, and the machine is there; services to relate are all there, if the last one is. -/
def TopologyChange.Covered (satisfies : String → Except NodeError Bool) (t : InternalTopology) :
    TopologyChange → Prop
  | .removeService id => t.relationsForService id = []
  | .addUnit sid _ container => sid ∈ t.services → ∀ c ∈ container, ContainerRelated t sid c
  | .assignUnit u m => ∀ unit, t.serviceUnit? u.internalServiceId u.internalId = some unit →
      (∀ c ∈ unit.container, ∃ psid, t.serviceUnit? psid c ≠ none) ∧
      (unit.container = none → unit.machine = none → m ∈ t.machines)
  | .assignUnusedUnit u => ∀ m t', unusedMachine satisfies t.getMachines t = .ok m t' →
      t.unitMachine u.internalServiceId u.internalId = none
  | .addRelation add _ => ¬ t.hasRelationBetweenEndpoints add.endpoints →
      (∃ id ∈ add.serviceIds.getLast?.join, id ∈ t.services) →
      Assignable t (add.serviceIds.zip add.endpoints)
  | _ => True

section documented

variable {t : InternalTopology}

theorem onTopology_succeeds {α : Type} (m : TopologyM α) (a : α) (t' : InternalTopology)
    (h : m t = .ok a t') : onTopology m t = .ok a t' := by
  simp [onTopology, EStateM.adaptExcept, h]

/-- A result that is an error is one of the documented ones. -/
def EndsDocumented {α : Type} (r : EStateM.Result ManagerError InternalTopology α) : Prop :=
  ∀ e t', r = .error e t' → e.Documented

theorem endsDocumented_ok {α : Type} (a : α) (t' : InternalTopology) :
    EndsDocumented (.ok a t') := fun _ _ h => by cases h

theorem endsDocumented_error {α : Type} (e : ManagerError) (t' : InternalTopology)
    (he : e.Documented) : EndsDocumented (.error e t' : EStateM.Result _ _ α) := by
  intro _ _ h
  cases h
  exact he

theorem endsDocumented_succeeds {α : Type} (m : TopologyM α) (h : ∃ a t', m t = .ok a t') :
    EndsDocumented (onTopology m t) := by
  obtain ⟨a, t', hm⟩ := h
  rw [onTopology_succeeds m a t' hm]
  exact endsDocumented_ok a t'

theorem mem_getMachines (id : String) : id ∈ t.getMachines ↔ id ∈ t.machines := by
  rw [InternalTopology.getMachines, List.mem_mergeSort]
  exact AList.mem_keys

/-- The search finds a machine of the topology, or ends with one of the documented errors. -/
theorem unusedMachine_cases (satisfies : String → Except NodeError Bool) (machines : List String)
    (hin : ∀ m ∈ machines, m ∈ t.machines) :
    (∃ m ∈ t.machines, unusedMachine satisfies machines t = .ok m t) ∨
      ∃ e, e.Documented ∧ unusedMachine satisfies machines t = .error e t := by
  induction machines with
  | nil => exact Or.inr ⟨.noUnusedMachines, by simp [ManagerError.Documented], rfl⟩
  | cons m machines ih =>
    have hrest := ih fun m' hm' => hin m' (List.mem_cons_of_mem _ hm')
    have hm := hin m List.mem_cons_self
    unfold unusedMachine
    split
    · exact hrest
    · obtain ⟨hasUnits, hrun⟩ := machineHasUnits_succeeds m hm
      rw [bind_of_ok _ _ _ _ _ (onTopology_succeeds _ _ _ hrun)]
      cases hasUnits with
      | true => exact hrest
      | false =>
        simp only [Bool.false_eq_true, if_false]
        cases satisfies m with
        | error e => exact Or.inr ⟨.node e, by simp [ManagerError.Documented], rfl⟩
        | ok found =>
          cases found with
          | true => exact Or.inl ⟨m, hm, rfl⟩
          | false => exact hrest

/-- Services that can be assigned are, one after the other. -/
theorem assignEndpoints_succeeds (t : InternalTopology) (rid : String) (lastId : Option String)
    (services : List (Option String × RelationEndpoint)) (relation : Relation)
    (hlast : ∃ id ∈ lastId, id ∈ t.services) (hr : t.relations.lookup rid = some relation)
    (hassign : Assignable t services)
    (hfree : ∀ p ∈ services, ∀ sid x, relation.services.lookup sid = some x →
      some sid ≠ p.1 ∧ x.role ≠ p.2.relationRole) :
    ∃ t', assignEndpoints rid lastId services t = .ok () t' := by
  induction services generalizing t relation with
  | nil => exact ⟨t, rfl⟩
  | cons p services ih =>
    obtain ⟨serviceId, e⟩ := p
    obtain ⟨hin, hpairs⟩ := hassign
    obtain ⟨sid, hsid, hservice⟩ := hin _ List.mem_cons_self
    obtain rfl : serviceId = some sid := hsid
    obtain ⟨hfirst, hothers⟩ := List.pairwise_cons.mp hpairs
    have hrun := assignServiceToRelation_succeeds rid sid e.relationName e.relationRole relation
      hservice hr fun other x hx => by
        obtain ⟨hid, hrole⟩ := hfree _ List.mem_cons_self other x hx
        exact ⟨fun heq => hid (congrArg some heq), hrole⟩
    simp only [assignEndpoints, get_bind, raiseIf_bind, if_neg (not_not.mpr hlast),
      assignEndpoint]
    rw [bind_of_ok _ _ _ _ _ (by simp only [liftTopology, hrun]; rfl)]
    refine ih _ { relation with
      services := relation.services.insert sid ⟨e.relationName, e.relationRole⟩ } hlast
      (by rw [Dict.lookup_insert, if_pos rfl])
      ⟨fun q hq => hin q (List.mem_cons_of_mem _ hq), hothers⟩ ?_
    intro q hq other x hx
    simp only [Dict.lookup_insert] at hx
    split at hx
    · obtain rfl := Option.some.inj hx
      subst ‹other = sid›
      exact hfirst q hq
    · exact hfree q (List.mem_cons_of_mem _ hq) other x hx

theorem addRelationChange_documented (add : AddRelation) (rid : String)
    (hnew : rid ∉ t.relations)
    (hcovered : TopologyChange.Covered (fun _ => .ok true) t (.addRelation add rid)) :
    EndsDocumented (onRelation (addRelationChange add rid) t) := by
  have hstate (e : StateError) (he : ∀ e', e ≠ .topology e') : (ManagerError.state e).Documented :=
    ⟨by simp, fun e' h => he e' (ManagerError.state.inj h)⟩
  unfold onRelation EStateM.adaptExcept addRelationChange
  simp only [get_bind, raiseIf_bind]
  by_cases hhas : t.hasRelationBetweenEndpoints add.endpoints
  · simp only [if_pos hhas]
    exact endsDocumented_error _ _ (hstate _ (by simp))
  · simp only [if_neg hhas]
    rw [bind_of_ok _ _ _ _ _
      (by simp only [liftTopology, addRelation_succeeds rid add.relationType add.scope hnew]; rfl)]
    by_cases hlast : ∃ id ∈ add.serviceIds.getLast?.join, id ∈ t.services
    · obtain ⟨t', hrun⟩ := assignEndpoints_succeeds
        { t with relations := t.relations.insert rid ⟨add.relationType, add.scope, ∅⟩ } rid _
        (add.serviceIds.zip add.endpoints) ⟨add.relationType, add.scope, ∅⟩ hlast
        (by rw [Dict.lookup_insert, if_pos rfl]) (hcovered hhas hlast)
        (fun p _ sid x hx => by simp at hx)
      simp only [hrun]
      exact endsDocumented_ok _ _
    · cases hzip : add.serviceIds.zip add.endpoints with
      | nil => exact endsDocumented_ok _ _
      | cons p services =>
        simp only [assignEndpoints, get_bind, raiseIf_bind, if_pos hlast]
        exact endsDocumented_error _ _ (hstate _ (by simp))

end documented

end Juju.State

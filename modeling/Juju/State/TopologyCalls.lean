import Juju.State.TopologyIntegrity

namespace Juju.State
open Juju.Base

section calls

@[simp] theorem assertMachine_bind {α : Type} (machineId : String) (f : Unit → TopologyM α)
    (t : InternalTopology) : (assertMachine machineId >>= f) t =
      if machineId ∈ t.machines then f () t else .error (.machineNotFound machineId) t := by
  by_cases hm : machineId ∈ t.machines <;> simp [assertMachine, bind_assoc, hm]

@[simp] theorem assertRelation_bind {α : Type} (relationId : String) (f : Unit → TopologyM α)
    (t : InternalTopology) : (assertRelation relationId >>= f) t =
      if relationId ∈ t.relations then f () t else .error (.relationNotFound relationId) t := by
  by_cases hr : relationId ∈ t.relations <;> simp [assertRelation, bind_assoc, hr]

@[simp] theorem assertService_bind {α : Type} (serviceId : String) (f : Unit → TopologyM α)
    (t : InternalTopology) : (assertService serviceId >>= f) t =
      if serviceId ∈ t.services then f () t else .error (.serviceNotFound serviceId) t := by
  by_cases hs : serviceId ∈ t.services <;> simp [assertService, bind_assoc, hs]

/-- A unit that passes `_assert_service_unit` is found. -/
@[simp] theorem assertServiceUnit_bind {α : Type} (serviceId unitId : String)
    (f : Unit → TopologyM α) (t : InternalTopology) :
    (assertServiceUnit serviceId unitId >>= f) t =
      if serviceId ∈ t.services then
        if t.serviceUnit? serviceId unitId = none then
          .error (.serviceUnitNotFound unitId serviceId) t
        else f () t
      else .error (.serviceNotFound serviceId) t := by
  simp [assertServiceUnit, bind_assoc]

@[simp] theorem modifyService_run (serviceId : String) (f : Service → Service)
    (t : InternalTopology) (service : Service) (hs : t.services.lookup serviceId = some service) :
    modifyService serviceId f t =
      .ok () { t with services := t.services.insert serviceId (f service) } := by
  simp [modifyService, hs]

@[simp] theorem modifyUnit_run (serviceId unitId : String) (f : ServiceUnit → ServiceUnit)
    (t : InternalTopology) (service : Service) (unit : ServiceUnit)
    (hs : t.services.lookup serviceId = some service)
    (hu : service.units.lookup unitId = some unit) :
    modifyUnit serviceId unitId f t = .ok ()
      { t with
        services := t.services.insert serviceId
          { service with units := service.units.insert unitId (f unit) } } := by
  simp [modifyUnit, modifyService, hs, hu]

@[simp] theorem modifyRelation_run (relationId : String)
    (f : Dict String RelationService → Dict String RelationService) (t : InternalTopology)
    (relation : Relation) (hr : t.relations.lookup relationId = some relation) :
    modifyRelation relationId f t = .ok ()
      { t with
        relations := t.relations.insert relationId
          { relation with services := f relation.services } } := by
  simp [modifyRelation, hr]

/-- The check of the container leaves the topology alone. -/
theorem checkContainer_cases (serviceId containerId : String) (t : InternalTopology) :
    (∃ e, checkContainer serviceId containerId t = .error e t) ∨
      checkContainer serviceId containerId t = .ok () t := by
  simp only [checkContainer, getServiceUnitService, getRelationsForService, bind_assoc, get_bind]
  cases t.services.entries.find? fun e => containerId ∈ e.2.units with
  | none => exact Or.inl ⟨_, rfl⟩
  | some e =>
    simp only [pure_bind, assertService_bind, get_bind, raiseIf_bind, pure_run]
    split
    · split
      · exact Or.inl ⟨_, rfl⟩
      · exact Or.inr rfl
    · exact Or.inl ⟨_, rfl⟩

theorem numberUnit_run (serviceId unitId : String) (containerId : Option String)
    (t : InternalTopology) (service : Service) (n : Nat)
    (hs : t.services.lookup serviceId = some service)
    (hn : t.unitSequence.lookup service.name = some n) :
    numberUnit serviceId unitId containerId t = .ok n { t with
      services := t.services.insert serviceId
        { service with units := service.units.insert unitId ⟨some n, containerId, none⟩ },
      unitSequence := t.unitSequence.insert service.name (n + 1) } := by
  simp [numberUnit, modifyService, modifyUnit, hs, hn, AList.insert_insert]
  rfl

theorem addServiceUnit_cases (serviceId unitId : String) (containerId : Option String)
    (t : InternalTopology) :
    (∃ e, addServiceUnit serviceId unitId containerId t = .error e t) ∨
      ∃ service, t.services.lookup serviceId = some service ∧
        (∀ sid, t.serviceUnit? sid unitId = none) ∧
        (∀ c ∈ containerId, checkContainer serviceId c t = .ok () t) ∧
        addServiceUnit serviceId unitId containerId t =
          numberUnit serviceId unitId containerId t := by
  simp only [addServiceUnit, assertService_bind, get_bind]
  by_cases hin : serviceId ∈ t.services
  · obtain ⟨service, hs⟩ := (Dict.mem_iff_lookup _ _).mp hin
    cases hfind : t.services.entries.find? fun e => unitId ∈ e.2.units with
    | some e => exact Or.inl ⟨.unitAlreadyInService unitId e.1, by simp [hin]⟩
    | none =>
      have hnew (sid : String) : t.serviceUnit? sid unitId = none := by
        cases hother : t.services.lookup sid with
        | none => simp [InternalTopology.serviceUnit?, hother]
        | some other =>
          have hnot := List.find?_eq_none.mp hfind ⟨sid, other⟩
            ((Dict.mem_entries_iff _ _).mpr hother)
          rw [serviceUnit?_lookup t sid unitId other hother]
          exact AList.lookup_eq_none.mpr (by simpa using hnot)
      cases containerId with
      | none => exact Or.inr ⟨service, hs, hnew, by simp, by simp [hin]⟩
      | some c =>
        rcases checkContainer_cases serviceId c t with ⟨e, he⟩ | hok
        · exact Or.inl ⟨e, by simp [hin, bind, EStateM.bind, he]⟩
        · exact Or.inr ⟨service, hs, hnew, by simpa using hok,
            by simp [hin, bind, EStateM.bind, hok]⟩
  · exact Or.inl ⟨.serviceNotFound serviceId, by simp [hin]⟩

/-- A service that is let in has a role of its own. -/
theorem roleConflict_eq_none (relationId serviceId role : String)
    (entries : List (Sigma fun _ : String => RelationService)) :
    roleConflict relationId serviceId role entries = none ↔
      ∀ e ∈ entries, e.1 ≠ serviceId ∧ e.2.role ≠ role := by
  induction entries with
  | nil => simp [roleConflict]
  | cons e entries ih =>
    by_cases hs : e.1 = serviceId
    · simp [roleConflict, hs]
    · by_cases hr : e.2.role = role
      · simp [roleConflict, hs, hr]
      · simp [roleConflict, hs, hr, ih]

/-- What a call leaves of a topology: one that raises leaves it as it was, but for a unit that
cannot be numbered. -/
inductive CallEffect (t : InternalTopology) : TopologyCall → InternalTopology → Prop where
  | refused (c : TopologyCall) : CallEffect t c t
  | machineAdded (machineId : String) : machineId ∉ t.machines →
      CallEffect t (.addMachine machineId) { t with machines := t.machines.insert machineId () }
  | machineRemoved (machineId : String) :
      (∀ sid uid unit, t.serviceUnit? sid uid = some unit → unit.machine ≠ some machineId) →
      CallEffect t (.removeMachine machineId) { t with machines := t.machines.erase machineId }
  | serviceAdded (serviceId serviceName : String) (sequences : Dict String Nat) :
      serviceId ∉ t.services →
      (∀ sid service, t.services.lookup sid = some service → service.name ≠ serviceName) →
      (∀ name n, t.unitSequence.lookup name = some n → sequences.lookup name = some n) →
      serviceName ∈ sequences →
      CallEffect t (.addService serviceId serviceName) { t with
        services := t.services.insert serviceId ⟨serviceName, ∅⟩, unitSequence := sequences }
  | serviceRemoved (serviceId : String) : t.relationsForService serviceId = [] →
      CallEffect t (.removeService serviceId) { t with services := t.services.erase serviceId }
  | unitAdded (serviceId unitId : String) (containerId : Option String) (service : Service)
      (n : Nat) : t.services.lookup serviceId = some service →
      t.unitSequence.lookup service.name = some n → (∀ sid, t.serviceUnit? sid unitId = none) →
      (∀ c ∈ containerId, checkContainer serviceId c t = .ok () t) →
      CallEffect t (.addServiceUnit serviceId unitId containerId) { t with
        services := t.services.insert serviceId
          { service with units := service.units.insert unitId ⟨some n, containerId, none⟩ },
        unitSequence := t.unitSequence.insert service.name (n + 1) }
  | unitUnnumbered (serviceId unitId : String) (containerId : Option String) (service : Service) :
      t.services.lookup serviceId = some service → t.unitSequence.lookup service.name = none →
      CallEffect t (.addServiceUnit serviceId unitId containerId) { t with
        services := t.services.insert serviceId
          { service with units := service.units.insert unitId ⟨none, none, none⟩ } }
  | unitRemoved (serviceId unitId : String) (service : Service) :
      t.services.lookup serviceId = some service →
      CallEffect t (.removeServiceUnit serviceId unitId) { t with
        services := t.services.insert serviceId
          { service with units := service.units.erase unitId } }
  | unitAssigned (serviceId unitId machineId : String) (service : Service) (unit : ServiceUnit) :
      t.services.lookup serviceId = some service → service.units.lookup unitId = some unit →
      machineId ∈ t.machines → unit.machine = none →
      CallEffect t (.assignServiceUnitToMachine serviceId unitId machineId) { t with
        services := t.services.insert serviceId { service with
          units := service.units.insert unitId { unit with machine := some machineId } } }
  | unitUnassigned (serviceId unitId : String) (service : Service) (unit : ServiceUnit) :
      t.services.lookup serviceId = some service → service.units.lookup unitId = some unit →
      CallEffect t (.unassignServiceUnitFromMachine serviceId unitId) { t with
        services := t.services.insert serviceId { service with
          units := service.units.insert unitId { unit with machine := none } } }
  | relationAdded (relationId relationType relationScope : String) : relationId ∉ t.relations →
      CallEffect t (.addRelation relationId relationType relationScope) { t with
        relations := t.relations.insert relationId ⟨relationType, relationScope, ∅⟩ }
  | relationRemoved (relationId : String) : relationId ∈ t.relations →
      CallEffect t (.removeRelation relationId)
        { t with relations := t.relations.erase relationId }
  | serviceAssigned (relationId serviceId name role : String) (relation : Relation) :
      serviceId ∈ t.services → t.relations.lookup relationId = some relation →
      (∀ sid x, relation.services.lookup sid = some x → sid ≠ serviceId ∧ x.role ≠ role) →
      CallEffect t (.assignServiceToRelation relationId serviceId name role) { t with
        relations := t.relations.insert relationId
          { relation with services := relation.services.insert serviceId ⟨name, role⟩ } }
  | serviceUnassigned (relationId serviceId : String) (relation : Relation) :
      t.relations.lookup relationId = some relation → serviceId ∈ relation.services →
      CallEffect t (.unassignServiceFromRelation relationId serviceId) { t with
        relations := t.relations.insert relationId
          { relation with services := relation.services.erase serviceId } }

section effects

variable (t : InternalTopology)

theorem addMachine_effect (machineId : String) :
    CallEffect t (.addMachine machineId) (leaves (addMachine machineId t)) := by
  simp only [addMachine, get_bind, raiseIf_bind, modify_run]
  split
  · exact .refused _
  · rename_i hnew
    exact .machineAdded machineId hnew

theorem removeMachine_effect (machineId : String) :
    CallEffect t (.removeMachine machineId) (leaves (removeMachine machineId t)) := by
  simp only [removeMachine, machineHasUnits, bind_assoc, assertMachine_bind, get_bind, pure_bind,
    raiseIf_bind, modify_run]
  split
  · split
    · exact .refused _
    · rename_i hfree
      apply CallEffect.machineRemoved
      intro sid uid unit hu hm
      obtain ⟨service, hs, hu⟩ := Option.bind_eq_some_iff.mp hu
      apply hfree
      rw [List.any_eq_true]
      refine ⟨⟨sid, service⟩, (Dict.mem_entries_iff _ _).mpr hs, ?_⟩
      rw [List.any_eq_true]
      exact ⟨⟨uid, unit⟩, (Dict.mem_entries_iff _ _).mpr hu, by simpa using hm⟩
  · exact .refused _

theorem addService_effect (serviceId serviceName : String) :
    CallEffect t (.addService serviceId serviceName)
      (leaves (addService serviceId serviceName t)) := by
  simp only [addService, get_bind, raiseIf_bind, modify_bind]
  split
  · exact .refused _
  · rename_i hnew
    split
    · exact .refused _
    · rename_i hnone
      have hname (sid : String) (service : Service)
          (hs : t.services.lookup sid = some service) : service.name ≠ serviceName := by
        intro he
        apply hnone
        rw [List.any_eq_true]
        exact ⟨⟨sid, service⟩, (Dict.mem_entries_iff _ _).mpr hs, by simpa using he⟩
      split
      · rename_i hfirst
        apply CallEffect.serviceAdded serviceId serviceName _ hnew hname
        · intro name n hn
          rw [Dict.lookup_insert, if_neg, hn]
          intro he
          exact hfirst ((Dict.mem_iff_lookup _ _).mpr ⟨n, he ▸ hn⟩)
        · exact (AList.mem_insert _).mpr (Or.inl rfl)
      · rename_i hold
        exact .serviceAdded serviceId serviceName _ hnew hname (fun _ _ hn => hn)
          (by simpa using hold)

theorem removeService_effect (serviceId : String) :
    CallEffect t (.removeService serviceId) (leaves (removeService serviceId t)) := by
  simp only [removeService, getRelationsForService, bind_assoc, assertService_bind, get_bind,
    pure_bind, raiseIf_bind, modify_run]
  split
  · split
    · exact .refused _
    · rename_i hfree
      exact .serviceRemoved serviceId (not_not.mp hfree)
  · exact .refused _

theorem addServiceUnit_effect (serviceId unitId : String) (containerId : Option String) :
    CallEffect t (.addServiceUnit serviceId unitId containerId)
      (leaves (addServiceUnit serviceId unitId containerId t)) := by
  rcases addServiceUnit_cases serviceId unitId containerId t with
    ⟨e, he⟩ | ⟨service, hs, hnew, hcontainer, hrun⟩
  · rw [he]
    exact .refused _
  · cases hn : t.unitSequence.lookup service.name with
    | none =>
      have hraises : leaves (numberUnit serviceId unitId containerId t) = { t with
          services := t.services.insert serviceId
            { service with units := service.units.insert unitId ⟨none, none, none⟩ } } := by
        simp [numberUnit, modifyService, hs, hn]
      rw [hrun, hraises]
      exact .unitUnnumbered serviceId unitId containerId service hs hn
    | some n =>
      rw [hrun, numberUnit_run _ _ _ _ _ _ hs hn, leaves_ok]
      exact .unitAdded serviceId unitId containerId service n hs hn hnew hcontainer

theorem removeServiceUnit_effect (serviceId unitId : String) :
    CallEffect t (.removeServiceUnit serviceId unitId)
      (leaves (removeServiceUnit serviceId unitId t)) := by
  simp only [removeServiceUnit, assertServiceUnit_bind]
  split
  · rename_i hin
    obtain ⟨service, hs⟩ := (Dict.mem_iff_lookup _ _).mp hin
    split
    · exact .refused _
    · rw [modifyService_run _ _ _ _ hs, leaves_ok]
      exact .unitRemoved serviceId unitId service hs
  · exact .refused _

theorem assignServiceUnitToMachine_effect (serviceId unitId machineId : String) :
    CallEffect t (.assignServiceUnitToMachine serviceId unitId machineId)
      (leaves (assignServiceUnitToMachine serviceId unitId machineId t)) := by
  simp only [assignServiceUnitToMachine, assertServiceUnit_bind, assertMachine_bind, get_bind,
    raiseIf_bind]
  split
  · split
    · exact .refused _
    · rename_i hunit
      obtain ⟨unit, hunit⟩ := Option.ne_none_iff_exists'.mp hunit
      obtain ⟨service, hs, hu⟩ := Option.bind_eq_some_iff.mp hunit
      split
      · rename_i hin
        split
        · exact .refused _
        · rename_i hfree
          rw [modifyUnit_run _ _ _ _ _ _ hs hu, leaves_ok]
          exact .unitAssigned serviceId unitId machineId service unit hs hu hin
            (by simpa [hunit] using hfree)
      · exact .refused _
  · exact .refused _

theorem unassignServiceUnitFromMachine_effect (serviceId unitId : String) :
    CallEffect t (.unassignServiceUnitFromMachine serviceId unitId)
      (leaves (unassignServiceUnitFromMachine serviceId unitId t)) := by
  simp only [unassignServiceUnitFromMachine, assertServiceUnit_bind, get_bind, raiseIf_bind]
  split
  · split
    · exact .refused _
    · rename_i hunit
      obtain ⟨unit, hunit⟩ := Option.ne_none_iff_exists'.mp hunit
      obtain ⟨service, hs, hu⟩ := Option.bind_eq_some_iff.mp hunit
      split
      · exact .refused _
      · rw [modifyUnit_run _ _ _ _ _ _ hs hu, leaves_ok]
        exact .unitUnassigned serviceId unitId service unit hs hu
  · exact .refused _

theorem addRelation_effect (relationId relationType relationScope : String) :
    CallEffect t (.addRelation relationId relationType relationScope)
      (leaves (addRelation relationId relationType relationScope t)) := by
  simp only [addRelation, get_bind, raiseIf_bind, modify_run]
  split
  · exact .refused _
  · rename_i hnew
    exact .relationAdded relationId relationType relationScope hnew

theorem removeRelation_effect (relationId : String) :
    CallEffect t (.removeRelation relationId) (leaves (removeRelation relationId t)) := by
  simp only [removeRelation, assertRelation_bind, modify_run]
  split
  · rename_i hin
    exact .relationRemoved relationId hin
  · exact .refused _

theorem assignServiceToRelation_effect (relationId serviceId name role : String) :
    CallEffect t (.assignServiceToRelation relationId serviceId name role)
      (leaves (assignServiceToRelation relationId serviceId name role t)) := by
  simp only [assignServiceToRelation, assertService_bind, assertRelation_bind, get_bind]
  split
  · rename_i hservice
    split
    · rename_i hrelation
      obtain ⟨relation, hr⟩ := (Dict.mem_iff_lookup _ _).mp hrelation
      cases hconflict : roleConflict relationId serviceId role
          (t.relationServices relationId).entries with
      | some e => exact .refused _
      | none =>
        have hnone := (roleConflict_eq_none _ _ _ _).mp hconflict
        simp only [InternalTopology.relationServices, hr] at hnone
        have hrun := modifyRelation_run relationId
          (fun services => services.insert serviceId ⟨name, role⟩) t relation hr
        show CallEffect t _ (leaves (modifyRelation relationId _ t))
        rw [hrun, leaves_ok]
        exact .serviceAssigned relationId serviceId name role relation hservice hr
          fun sid x hx => hnone ⟨sid, x⟩ ((Dict.mem_entries_iff _ _).mpr hx)
    · exact .refused _
  · exact .refused _

theorem unassignServiceFromRelation_effect (relationId serviceId : String) :
    CallEffect t (.unassignServiceFromRelation relationId serviceId)
      (leaves (unassignServiceFromRelation relationId serviceId t)) := by
  simp only [unassignServiceFromRelation, assertService_bind, assertRelation_bind, get_bind,
    raiseIf_bind]
  split
  · split
    · rename_i hrelation
      obtain ⟨relation, hr⟩ := (Dict.mem_iff_lookup _ _).mp hrelation
      split
      · exact .refused _
      · rename_i hin
        rw [modifyRelation_run _ _ _ _ hr, leaves_ok]
        exact .serviceUnassigned relationId serviceId relation hr
          (by simpa [InternalTopology.relationServices, hr] using hin)
    · exact .refused _
  · exact .refused _

theorem call_effect (c : TopologyCall) : CallEffect t c (call t c) := by
  cases c with
  | addMachine machineId => exact addMachine_effect t machineId
  | removeMachine machineId => exact removeMachine_effect t machineId
  | addService serviceId serviceName => exact addService_effect t serviceId serviceName
  | removeService serviceId => exact removeService_effect t serviceId
  | addServiceUnit serviceId unitId containerId =>
    exact addServiceUnit_effect t serviceId unitId containerId
  | removeServiceUnit serviceId unitId => exact removeServiceUnit_effect t serviceId unitId
  | assignServiceUnitToMachine serviceId unitId machineId =>
    exact assignServiceUnitToMachine_effect t serviceId unitId machineId
  | unassignServiceUnitFromMachine serviceId unitId =>
    exact unassignServiceUnitFromMachine_effect t serviceId unitId
  | addRelation relationId relationType relationScope =>
    exact addRelation_effect t relationId relationType relationScope
  | removeRelation relationId => exact removeRelation_effect t relationId
  | assignServiceToRelation relationId serviceId name role =>
    exact assignServiceToRelation_effect t relationId serviceId name role
  | unassignServiceFromRelation relationId serviceId =>
    exact unassignServiceFromRelation_effect t relationId serviceId

end effects

variable {t : InternalTopology} (h : Integrity t)
include h

theorem integrity_freeService (serviceId : String)
    (hfree : t.relationsForService serviceId = []) :
    Integrity { t with services := t.services.erase serviceId } := by
  apply integrity_removeService h
  intro rid relation hr hin
  obtain ⟨x, hx⟩ := (Dict.mem_iff_lookup _ _).mp hin
  have hmem : (⟨rid, relation.interface, relation.scope, x⟩ : ServiceRelation) ∈
      t.relationsForService serviceId := by
    rw [InternalTopology.relationsForService, List.mem_filterMap]
    exact ⟨⟨rid, relation⟩, (Dict.mem_entries_iff _ _).mpr hr, by simp [hx]⟩
  rw [hfree] at hmem
  simp at hmem

/-- Where `add_service_unit` gets past its checks, it numbers the new unit from the counter. -/
theorem integrity_addUnit (serviceId unitId : String) (containerId : Option String)
    (service : Service) (n : Nat) (hs : t.services.lookup serviceId = some service)
    (hn : t.unitSequence.lookup service.name = some n)
    (hnew : ∀ sid, t.serviceUnit? sid unitId = none) :
    Integrity { t with
      services := t.services.insert serviceId
        { service with units := service.units.insert unitId ⟨some n, containerId, none⟩ },
      unitSequence := t.unitSequence.insert service.name (n + 1) } := by
  have hlookup (uid : String) := serviceUnit?_lookup t serviceId uid service hs
  have hbelow (uid : String) (unit : ServiceUnit) (hu : service.units.lookup uid = some unit) :
      ∃ k, unit.sequence = some k ∧ k < n := by
    obtain ⟨k, counter, hk, hcounter, hlt⟩ :=
      h.sequenceBelow serviceId service uid unit hs ((hlookup uid).trans hu)
    rw [hn] at hcounter
    exact ⟨k, hk, Option.some.inj hcounter ▸ hlt⟩
  have hcases (uid : String) (unit : ServiceUnit)
      (hu : (service.units.insert unitId ⟨some n, containerId, none⟩).lookup uid = some unit) :
      (uid = unitId ∧ unit = ⟨some n, containerId, none⟩) ∨
        service.units.lookup uid = some unit := by
    rw [Dict.lookup_insert] at hu
    split at hu
    · exact Or.inl ⟨‹_›, (Option.some.inj hu).symm⟩
    · exact Or.inr hu
  apply integrity_setUnits h serviceId service _ _ hs
  · intro uid unit m hu hm
    rcases hcases uid unit hu with ⟨-, rfl⟩ | hold
    · simp at hm
    · exact h.unitMachine serviceId uid unit m ((hlookup uid).trans hold) hm
  · intro uid sid unit hin hu
    rcases (AList.mem_insert _).mp hin with rfl | hin
    · rw [hnew sid] at hu
      simp at hu
    · obtain ⟨old, hold⟩ := (Dict.mem_iff_lookup _ _).mp hin
      exact h.unitService sid serviceId uid unit old hu ((hlookup uid).trans hold)
  · intro uid₁ uid₂ unit₁ unit₂ h₁ h₂ he
    rcases hcases _ _ h₁ with ⟨e₁, rfl⟩ | o₁ <;> rcases hcases _ _ h₂ with ⟨e₂, rfl⟩ | o₂
    · exact e₁.trans e₂.symm
    · obtain ⟨k, hk, hlt⟩ := hbelow uid₂ unit₂ o₂
      have hnk : n = k := Option.some.inj (he.trans hk)
      omega
    · obtain ⟨k, hk, hlt⟩ := hbelow uid₁ unit₁ o₁
      have hnk : k = n := Option.some.inj (hk.symm.trans he)
      omega
    · exact h.unitSequence serviceId uid₁ uid₂ unit₁ unit₂ ((hlookup _).trans o₁)
        ((hlookup _).trans o₂) he
  · intro uid unit hu
    rcases hcases uid unit hu with ⟨-, rfl⟩ | hold
    · exact ⟨n, n + 1, rfl, by rw [Dict.lookup_insert, if_pos rfl], by omega⟩
    · obtain ⟨k, hk, hlt⟩ := hbelow uid unit hold
      exact ⟨k, n + 1, hk, by rw [Dict.lookup_insert, if_pos rfl], by omega⟩
  · intro name k hk
    rw [Dict.lookup_insert]
    split
    · subst ‹name = service.name›
      exact ⟨n + 1, rfl, by rw [hn] at hk; obtain rfl := Option.some.inj hk; omega⟩
    · exact ⟨k, hk, le_rfl⟩

theorem integrity_removeUnit (serviceId unitId : String) (service : Service)
    (hs : t.services.lookup serviceId = some service) :
    Integrity { t with
      services := t.services.insert serviceId
        { service with units := service.units.erase unitId } } := by
  apply integrity_narrowUnits h serviceId service _ hs
  intro uid unit hu
  rw [Dict.lookup_erase] at hu
  split at hu
  · simp at hu
  · exact ⟨unit, hu, rfl, fun m hm => h.unitMachine serviceId uid unit m
      ((serviceUnit?_lookup t serviceId uid service hs).trans hu) hm⟩

/-- Writing the machine of a unit that exists. -/
theorem integrity_setMachine (serviceId unitId : String) (service : Service) (unit : ServiceUnit)
    (machine : Option String) (hs : t.services.lookup serviceId = some service)
    (hu : service.units.lookup unitId = some unit)
    (hin : ∀ m, machine = some m → m ∈ t.machines) :
    Integrity { t with
      services := t.services.insert serviceId { service with
        units := service.units.insert unitId { unit with machine := machine } } } := by
  apply integrity_narrowUnits h serviceId service _ hs
  intro uid unit' hunit
  rw [Dict.lookup_insert] at hunit
  split at hunit
  · obtain rfl := Option.some.inj hunit
    exact ⟨unit, by rw [‹uid = unitId›, hu], rfl, hin⟩
  · exact ⟨unit', hunit, rfl, fun m hm => h.unitMachine serviceId uid unit' m
      ((serviceUnit?_lookup t serviceId uid service hs).trans hunit) hm⟩

theorem integrity_assignService (relationId serviceId name role : String) (relation : Relation)
    (hservice : serviceId ∈ t.services) (hr : t.relations.lookup relationId = some relation)
    (hother : ∀ sid x, relation.services.lookup sid = some x → sid ≠ serviceId ∧ x.role ≠ role) :
    Integrity { t with
      relations := t.relations.insert relationId
        { relation with services := relation.services.insert serviceId ⟨name, role⟩ } } := by
  apply integrity_setRelation h
  · intro sid hsid
    rcases (AList.mem_insert _).mp hsid with rfl | hsid
    · exact hservice
    · exact h.relationService relationId relation sid hr hsid
  · intro sid₁ sid₂ x₁ x₂ h₁ h₂ he
    simp only [Dict.lookup_insert] at h₁ h₂
    split at h₁ <;> split at h₂
    · simp_all
    · obtain rfl := Option.some.inj h₁
      exact absurd he.symm (hother sid₂ x₂ h₂).2
    · obtain rfl := Option.some.inj h₂
      exact absurd he (hother sid₁ x₁ h₁).2
    · exact h.relationRole relationId relation sid₁ sid₂ x₁ x₂ hr h₁ h₂ he

theorem integrity_unassignService (relationId serviceId : String) (relation : Relation)
    (hr : t.relations.lookup relationId = some relation) :
    Integrity { t with
      relations := t.relations.insert relationId
        { relation with services := relation.services.erase serviceId } } := by
  apply integrity_setRelation h
  · intro sid hsid
    exact h.relationService relationId relation sid hr (AList.mem_erase.mp hsid).2
  · intro sid₁ sid₂ x₁ x₂ h₁ h₂ he
    simp only [Dict.lookup_erase] at h₁ h₂
    split at h₁ <;> split at h₂
    · simp at h₁
    · simp at h₁
    · simp at h₂
    · exact h.relationRole relationId relation sid₁ sid₂ x₁ x₂ hr h₁ h₂ he

theorem effect_integrity {c : TopologyCall} {t' : InternalTopology} (heffect : CallEffect t c t') :
    Integrity t' := by
  cases heffect with
  | refused => exact h
  | machineAdded machineId => exact integrity_addMachine h machineId
  | machineRemoved machineId hfree => exact integrity_removeMachine h machineId hfree
  | serviceAdded serviceId serviceName sequences _ hname hkeep hin =>
    exact integrity_addService h serviceId serviceName sequences hname hkeep hin
  | serviceRemoved serviceId hfree => exact integrity_freeService h serviceId hfree
  | unitAdded serviceId unitId containerId service n hs hn hnew _ =>
    exact integrity_addUnit h serviceId unitId containerId service n hs hn hnew
  | unitUnnumbered serviceId unitId containerId service hs hn =>
    obtain ⟨n, hcounter⟩ := (Dict.mem_iff_lookup _ _).mp (h.serviceCounter serviceId service hs)
    cases hn.symm.trans hcounter
  | unitRemoved serviceId unitId service hs =>
    exact integrity_removeUnit h serviceId unitId service hs
  | unitAssigned serviceId unitId machineId service unit hs hu hin _ =>
    exact integrity_setMachine h serviceId unitId service unit (some machineId) hs hu
      fun m hm => Option.some.inj hm ▸ hin
  | unitUnassigned serviceId unitId service unit hs hu =>
    exact integrity_setMachine h serviceId unitId service unit none hs hu (by simp)
  | relationAdded relationId => exact integrity_setRelation h relationId _ (by simp) (by simp)
  | relationRemoved relationId => exact integrity_removeRelation h relationId
  | serviceAssigned relationId serviceId name role relation hservice hr hother =>
    exact integrity_assignService h relationId serviceId name role relation hservice hr hother
  | serviceUnassigned relationId serviceId relation hr =>
    exact integrity_unassignService h relationId serviceId relation hr

/-- No call, whether it returns or raises, breaks the integrity of a topology. -/
theorem call_integrity (c : TopologyCall) : Integrity (call t c) :=
  effect_integrity h (call_effect t c)

theorem calls_integrity (calls : List TopologyCall) : Integrity (calls.foldl call t) := by
  induction calls generalizing t with
  | nil => exact h
  | cons c calls ih => exact ih (call_integrity h c)

end calls

/-- Every topology that calls lead to from a fresh one has integrity. -/
theorem reachable_integrity (calls : List TopologyCall) :
    Integrity (calls.foldl call freshTopology) :=
  calls_integrity freshTopology_integrity calls

end Juju.State

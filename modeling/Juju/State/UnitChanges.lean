import Juju.State.TopologyCalls

namespace Juju.State
open Juju.Base

/-- The units that a call takes out of the topology. -/
def Removes (t : InternalTopology) : TopologyCall → String → String → Prop
  | .removeServiceUnit serviceId unitId, sid, uid =>
    sid = serviceId ∧ uid = unitId ∧ t.serviceUnit? sid uid ≠ none
  | .removeService serviceId, sid, uid =>
    sid = serviceId ∧ t.relationsForService sid = [] ∧ t.serviceUnit? sid uid ≠ none
  | _, _, _ => False

/-- What a call does to the units: it adds one, writes the machine of one, or does no more than
take some out. -/
inductive UnitsAfter (t t' : InternalTopology) : TopologyCall → Prop where
  | kept (c : TopologyCall) : (∀ sid uid, Removes t c sid uid → t'.serviceUnit? sid uid = none) →
      (∀ sid uid, ¬ Removes t c sid uid → t'.serviceUnit? sid uid = t.serviceUnit? sid uid) →
      UnitsAfter t t' c
  | added (serviceId unitId : String) (container : Option String) (n : Nat) :
      (∀ sid, t.serviceUnit? sid unitId = none) →
      (∀ c ∈ container, ∃ sid, t.serviceUnit? sid c ≠ none) →
      (∀ sid uid, t'.serviceUnit? sid uid = if sid = serviceId ∧ uid = unitId
        then some ⟨some n, container, none⟩ else t.serviceUnit? sid uid) →
      UnitsAfter t t' (.addServiceUnit serviceId unitId container)
  | machineSet (c : TopologyCall) (serviceId unitId : String) (unit : ServiceUnit)
      (machine : Option String) : t.serviceUnit? serviceId unitId = some unit →
      (∀ sid uid, ¬ Removes t c sid uid) →
      (∀ sid uid, t'.serviceUnit? sid uid = if sid = serviceId ∧ uid = unitId
        then some { unit with machine := machine } else t.serviceUnit? sid uid) →
      UnitsAfter t t' c

section units

variable (t : InternalTopology)

theorem unitsAfter_same (c : TopologyCall) (t' : InternalTopology)
    (hremoves : ∀ sid uid, ¬ Removes t c sid uid)
    (hsame : ∀ sid uid, t'.serviceUnit? sid uid = t.serviceUnit? sid uid) : UnitsAfter t t' c :=
  .kept c (fun sid uid h => absurd h (hremoves sid uid)) fun sid uid _ => hsame sid uid

theorem serviceUnit?_of_services (t' : InternalTopology) (h : t'.services = t.services)
    (sid uid : String) : t'.serviceUnit? sid uid = t.serviceUnit? sid uid := by
  rw [InternalTopology.serviceUnit?, h, InternalTopology.serviceUnit?]

/-- A service is written with the units it had, but for one. -/
theorem serviceUnit?_setUnit (t' : InternalTopology) (serviceId unitId : String)
    (service : Service) (units : Dict String ServiceUnit) (unit : Option ServiceUnit)
    (hs : t.services.lookup serviceId = some service)
    (ht' : t'.services = t.services.insert serviceId { service with units := units })
    (hunits : ∀ uid, units.lookup uid = if uid = unitId then unit else service.units.lookup uid)
    (sid uid : String) :
    t'.serviceUnit? sid uid =
      if sid = serviceId ∧ uid = unitId then unit else t.serviceUnit? sid uid := by
  rw [serviceUnit?_insert t t' serviceId sid uid _ ht']
  by_cases hsid : sid = serviceId
  · subst hsid
    by_cases huid : uid = unitId
    · simp [hunits, huid]
    · simp [hunits, huid, serviceUnit?_lookup t sid uid service hs]
  · simp [hsid]

theorem removeService_units (serviceId : String) :
    UnitsAfter t (call t (.removeService serviceId)) (.removeService serviceId) := by
  simp only [call, removeService, getRelationsForService, bind_assoc, assertService_bind, get_bind,
    pure_bind, raiseIf_bind, modify_run]
  have hno (hsid : serviceId ∉ t.services) (uid : String) : t.serviceUnit? serviceId uid = none := by
    rw [InternalTopology.serviceUnit?, AList.lookup_eq_none.mpr hsid]
    rfl
  split
  · split
    · rename_i hrelations
      exact unitsAfter_same t _ _ (fun sid uid h => hrelations (h.1 ▸ h.2.1)) fun _ _ => rfl
    · rename_i hrelations
      refine .kept _ (fun sid uid h => ?_) fun sid uid h => ?_
      · rw [leaves_ok, serviceUnit?_erase t _ serviceId sid uid rfl, if_pos h.1]
      · rw [leaves_ok, serviceUnit?_erase t _ serviceId sid uid rfl]
        by_cases hsid : sid = serviceId
        · rw [if_pos hsid]
          by_contra hunit
          exact h ⟨hsid, hsid ▸ not_not.mp hrelations, fun hnone => hunit hnone.symm⟩
        · rw [if_neg hsid]
  · rename_i hsid
    exact unitsAfter_same t _ _ (fun sid uid h => h.2.2 (h.1 ▸ hno hsid uid)) fun _ _ => rfl

theorem removeServiceUnit_units (serviceId unitId : String) :
    UnitsAfter t (call t (.removeServiceUnit serviceId unitId))
      (.removeServiceUnit serviceId unitId) := by
  simp only [call, removeServiceUnit, assertServiceUnit_bind]
  split
  · rename_i hin
    obtain ⟨service, hs⟩ := (Dict.mem_iff_lookup _ _).mp hin
    split
    · rename_i hnone
      refine unitsAfter_same t _ _ (fun sid uid h => ?_) fun _ _ => rfl
      obtain ⟨rfl, rfl, hunit⟩ := h
      exact hunit hnone
    · rw [modifyService_run _ _ _ _ hs, leaves_ok]
      have hunit (sid uid : String) := serviceUnit?_setUnit t
        { t with
          services := t.services.insert serviceId
            { service with units := service.units.erase unitId } }
        serviceId unitId service _ none hs rfl
        (fun uid => Dict.lookup_erase service.units unitId uid) sid uid
      refine .kept _ (fun sid uid h => ?_) fun sid uid h => ?_
      · rw [hunit, if_pos ⟨h.1, h.2.1⟩]
      · rw [hunit]
        split
        · rename_i hsame
          by_contra hnone
          exact h ⟨hsame.1, hsame.2, fun h => hnone h.symm⟩
        · rfl
  · rename_i hin
    refine unitsAfter_same t _ _ (fun sid uid h => ?_) fun _ _ => rfl
    obtain ⟨rfl, rfl, hunit⟩ := h
    rw [InternalTopology.serviceUnit?, AList.lookup_eq_none.mpr hin] at hunit
    exact hunit rfl

/-- Only a unit that is there can be named as a container. -/
theorem checkContainer_present (serviceId containerId : String)
    (h : checkContainer serviceId containerId t = .ok () t) :
    ∃ sid, t.serviceUnit? sid containerId ≠ none := by
  simp only [checkContainer, getServiceUnitService, bind_assoc, get_bind] at h
  cases hfind : t.services.entries.find? fun e => containerId ∈ e.2.units with
  | none =>
    rw [hfind] at h
    cases h
  | some e =>
    have hs : t.services.lookup e.1 = some e.2 :=
      (Dict.mem_entries_iff t.services e).mp (List.mem_of_find?_eq_some hfind)
    have hin : containerId ∈ e.2.units := by simpa using List.find?_some hfind
    obtain ⟨unit, hu⟩ := (Dict.mem_iff_lookup _ _).mp hin
    refine ⟨e.1, ?_⟩
    rw [serviceUnit?_lookup t e.1 containerId e.2 hs, hu]
    exact Option.some_ne_none unit

theorem setMachine_units (c : TopologyCall) (serviceId unitId : String) (service : Service)
    (unit : ServiceUnit) (machine : Option String) (hremoves : ∀ sid uid, ¬ Removes t c sid uid)
    (hs : t.services.lookup serviceId = some service)
    (hu : service.units.lookup unitId = some unit) :
    UnitsAfter t { t with
      services := t.services.insert serviceId { service with
        units := service.units.insert unitId { unit with machine := machine } } } c := by
  have hunit : t.serviceUnit? serviceId unitId = some unit :=
    (serviceUnit?_lookup t serviceId unitId service hs).trans hu
  apply UnitsAfter.machineSet c serviceId unitId unit machine hunit hremoves
  exact serviceUnit?_setUnit t _ serviceId unitId service _ _ hs rfl
    fun uid => Dict.lookup_insert service.units unitId uid _

/-- A new service has no units. -/
theorem serviceUnit?_newService (serviceId serviceName : String) (sequences : Dict String Nat)
    (hnew : serviceId ∉ t.services) (sid uid : String) :
    InternalTopology.serviceUnit? { t with
      services := t.services.insert serviceId ⟨serviceName, ∅⟩, unitSequence := sequences }
      sid uid = t.serviceUnit? sid uid := by
  rw [serviceUnit?_insert t _ serviceId sid uid ⟨serviceName, ∅⟩ rfl]
  split
  · rename_i hsid
    rw [hsid, InternalTopology.serviceUnit?, AList.lookup_eq_none.mpr hnew]
    rfl
  · rfl

theorem call_units (h : Integrity t) (c : TopologyCall) : UnitsAfter t (call t c) c := by
  by_cases hservice : ∃ sid, c = .removeService sid
  · obtain ⟨sid, rfl⟩ := hservice
    exact removeService_units t sid
  by_cases hunit : ∃ sid uid, c = .removeServiceUnit sid uid
  · obtain ⟨sid, uid, rfl⟩ := hunit
    exact removeServiceUnit_units t sid uid
  have hremoves : ∀ sid uid, ¬ Removes t c sid uid := by
    intro sid uid hremoved
    cases c with
    | removeService serviceId => exact hservice ⟨serviceId, rfl⟩
    | removeServiceUnit serviceId unitId => exact hunit ⟨serviceId, unitId, rfl⟩
    | _ => exact hremoved
  have heffect := call_effect t c
  generalize call t c = t' at heffect
  cases heffect with
  | serviceAdded serviceId serviceName sequences hnew =>
    exact unitsAfter_same t _ _ hremoves
      (serviceUnit?_newService t serviceId serviceName sequences hnew)
  | serviceRemoved serviceId => exact absurd ⟨serviceId, rfl⟩ hservice
  | unitAdded serviceId unitId containerId service n hs _ hnew hcontainer =>
    apply UnitsAfter.added serviceId unitId containerId n hnew
      (fun c hc => checkContainer_present t serviceId c (hcontainer c hc))
    exact serviceUnit?_setUnit t _ serviceId unitId service _ _ hs rfl
      fun uid => Dict.lookup_insert service.units unitId uid _
  | unitUnnumbered serviceId unitId containerId service hs hn =>
    obtain ⟨n, hcounter⟩ := (Dict.mem_iff_lookup _ _).mp (h.serviceCounter serviceId service hs)
    cases hn.symm.trans hcounter
  | unitRemoved serviceId unitId => exact absurd ⟨serviceId, unitId, rfl⟩ hunit
  | unitAssigned serviceId unitId machineId service unit hs hu =>
    exact setMachine_units t _ serviceId unitId service unit (some machineId) hremoves hs hu
  | unitUnassigned serviceId unitId service unit hs hu =>
    exact setMachine_units t _ serviceId unitId service unit none hremoves hs hu
  | _ => exact unitsAfter_same t _ _ hremoves (serviceUnit?_of_services t _ rfl)

end units

end Juju.State

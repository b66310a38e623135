import Juju.Control.StatusGather

namespace Juju.Control
open Juju.Base
open Juju.Lib
open Juju.State

section gathers

variable (k : TextKind) {t : InternalTopology} (h : ManagerMade t) (nodes : StatusNodes)
  (fuel : Nat) (hfuel : Fueled t fuel)
include h hfuel

theorem processUnit_returns (service : ServiceState) (relations : List ServiceRelationState)
    (relSvcMap : Dict String String) (sid uid : String) (unit : ServiceUnitState)
    (hunit : t.unitState sid uid = some unit) (s : StatusCommand)
    (hin : service.serviceName ∈ s.serviceData) :
    ∃ s', Returns (processUnit t nodes fuel service relations relSvcMap unit s) s' ∧
      s'.serviceData = s.serviceData ∧ s'.filterServices = s.filterServices ∧
      s'.filterUnits = s.filterUnits := by
  obtain ⟨container, hcontainer, -⟩ := getContainer_ok h sid uid unit hunit
  obtain ⟨machineId, hmachine⟩ := assignedMachineId_returns h fuel hfuel sid uid unit hunit
  obtain ⟨info, hinfo⟩ := (Dict.mem_iff_lookup _ _).mp hin
  obtain ⟨errors, herrors⟩ :=
    unitRelationErrors_ok h nodes relSvcMap relations ∅ sid uid unit hunit
  simp only [processUnit, returns_bind, returns_lift, returns_pure]
  exact ⟨_, ⟨container, hcontainer, machineId, hmachine, info, (serviceInfo_ok _ _ _).mpr hinfo,
    errors, herrors, rfl⟩, rfl, rfl, rfl⟩

theorem processUnits_returns (service : ServiceState) (relations : List ServiceRelationState)
    (relSvcMap : Dict String String) (units : List ServiceUnitState)
    (hunits : ∀ u ∈ units, ∃ sid uid, t.unitState sid uid = some u) (matched : Bool)
    (s : StatusCommand) (hin : service.serviceName ∈ s.serviceData)
    (hglobs : ∀ u ∈ units, ∃ b, passes u.unitName s.filterUnits = .ok b) :
    ∃ result, Returns (processUnits t nodes fuel service relations relSvcMap units matched s)
        result ∧ result.2.serviceData = s.serviceData ∧
      result.2.filterServices = s.filterServices ∧ result.2.filterUnits = s.filterUnits := by
  induction units generalizing matched s with
  | nil => exact ⟨(matched, s), (returns_pure _ _).mpr rfl, rfl, rfl, rfl⟩
  | cons unit units ih =>
    have hrest := ih fun u hu => hunits u (List.mem_cons_of_mem _ hu)
    obtain ⟨b, hb⟩ := hglobs unit List.mem_cons_self
    have hglobs' := fun u hu => hglobs u (List.mem_cons_of_mem _ hu)
    simp only [processUnits, returns_bind, returns_lift]
    cases b with
    | true =>
      obtain ⟨sid, uid, hunit⟩ := hunits unit List.mem_cons_self
      obtain ⟨s₁, hs₁, hdata, hservices, hfilter⟩ := processUnit_returns h nodes fuel hfuel service
        relations relSvcMap sid uid unit hunit s hin
      obtain ⟨result, hresult, hdata', hservices', hfilter'⟩ :=
        hrest true s₁ (hdata ▸ hin) (hfilter ▸ hglobs')
      refine ⟨result, ⟨true, hb, ?_⟩, hdata'.trans hdata, hservices'.trans hservices,
        hfilter'.trans hfilter⟩
      simp only [if_true, returns_bind]
      exact ⟨s₁, hs₁, hresult⟩
    | false =>
      obtain ⟨result, hresult, hkept⟩ := hrest matched s hin hglobs'
      exact ⟨result, ⟨false, hb, by simpa using hresult⟩, hkept⟩

theorem processService_returns (service : ServiceState) (hservice : ReadOff t service)
    (s : StatusCommand)
    (hglobs : ∀ uid u, t.unitState service.internalId uid = some u →
      ∃ b, passes u.unitName s.filterUnits = .ok b) :
    ∃ s', Returns (processService k t nodes fuel service s) s' ∧
      s'.filterServices = s.filterServices ∧ s'.filterUnits = s.filterUnits := by
  obtain ⟨info, hinfo, hname⟩ := hservice
  obtain ⟨relations, hrelations, hremote⟩ := relationStates_ok h service info hinfo hname
  obtain ⟨units, hunits, hmem⟩ := getAllUnitStates_spec h.integrity k service info hinfo hname
  obtain ⟨⟨relationData, relSvcMap⟩, hmap⟩ := mapRelations_ok service relations hremote ∅ ∅
  let entry : ServiceInfo :=
    { units := some []
      charm := nodes.charmName (nodes.charmId service.internalId)
      relations := relationData
      subordinate := nodes.charmSubordinate (nodes.charmId service.internalId)
      exposed := nodes.exposed service.internalId
      subordinateTo := none }
  have hentry : service.serviceName ∈ (s.setService service.serviceName entry).serviceData :=
    (AList.mem_insert _).mpr (Or.inl rfl)
  obtain ⟨⟨matched, s₁⟩, hs₁, hdata, hservices, hfilter⟩ := processUnits_returns h nodes fuel hfuel
    service relations relSvcMap units
    (fun u hu => ⟨_, (hmem u).mp hu⟩) false _ hentry
    (fun u hu => by
      obtain ⟨uid, hstate⟩ := (hmem u).mp hu
      exact hglobs uid u hstate)
  have hlast : ∃ s', Returns (if s₁.filterUnits ≠ [] ∧ ¬ matched then
      pure { s₁ with serviceData := s₁.serviceData.erase service.serviceName }
    else do
      let info ← liftExcept id (s₁.serviceInfo service.serviceName)
      let mapped ← liftExcept id (mapRelations t service relations info.relations relSvcMap)
      pure (s₁.setService service.serviceName { info with relations := sortValues mapped.1 }))
      s' ∧ s'.filterServices = s₁.filterServices ∧ s'.filterUnits = s₁.filterUnits := by
    split
    · exact ⟨_, (returns_pure _ _).mpr rfl, rfl, rfl⟩
    · have hin : service.serviceName ∈ s₁.serviceData := by
        rw [show s₁.serviceData = _ from hdata]
        exact hentry
      obtain ⟨info', hinfo'⟩ := (Dict.mem_iff_lookup _ _).mp hin
      obtain ⟨result, hresult⟩ := mapRelations_ok service relations hremote info'.relations relSvcMap
      simp only [returns_bind, returns_lift, returns_pure]
      exact ⟨_, ⟨info', (serviceInfo_ok _ _ _).mpr hinfo', result, hresult, rfl⟩, rfl, rfl⟩
  obtain ⟨s', hs', hservices', hfilter'⟩ := hlast
  refine ⟨s', ?_, hservices'.trans hservices, hfilter'.trans hfilter⟩
  simp only [processService, returns_bind, returns_lift]
  exact ⟨relations, hrelations, (relationData, relSvcMap), hmap, units, hunits, (matched, s₁), hs₁,
    hs'⟩

theorem processServices_returns (services : List ServiceState)
    (hservices : ∀ service ∈ services, ReadOff t service) (s : StatusCommand)
    (hglobs : ∀ service ∈ services, ∃ b, passes service.serviceName s.filterServices = .ok b ∧
      (b = true → ∀ uid u, t.unitState service.internalId uid = some u →
        ∃ b', passes u.unitName s.filterUnits = .ok b')) :
    ∃ s', Returns (processServices k t nodes fuel services s) s' := by
  induction services generalizing s with
  | nil => exact ⟨s, (returns_pure _ _).mpr rfl⟩
  | cons service services ih =>
    have hrest := ih fun x hx => hservices x (List.mem_cons_of_mem _ hx)
    obtain ⟨b, hb, hunits⟩ := hglobs service List.mem_cons_self
    have hglobs' := fun x hx => hglobs x (List.mem_cons_of_mem _ hx)
    simp only [processServices, returns_bind, returns_lift]
    cases b with
    | true =>
      obtain ⟨s₁, hs₁, hfilter, hfilterUnits⟩ := processService_returns k h nodes fuel hfuel service
        (hservices service List.mem_cons_self) s (hunits rfl)
      obtain ⟨s', hs'⟩ := hrest s₁ (by rw [hfilter, hfilterUnits]; exact hglobs')
      refine ⟨s', true, hb, ?_⟩
      simp only [if_true, returns_bind]
      exact ⟨s₁, hs₁, hs'⟩
    | false =>
      obtain ⟨s', hs'⟩ := hrest s hglobs'
      exact ⟨s', false, hb, by simpa using hs'⟩

/-- Where each glob can be translated, the first pass returns. -/
theorem gather_returns (scope : Option (List String)) (hmatch : Matchable t scope)
    (services : List ServiceState) (hservices : ask t getAllServiceStates = .ok services) :
    ∃ s, Returns (processServices k t nodes fuel services (reset scope)) s := by
  obtain ⟨services', hread, hoff, -, -⟩ := serviceStates_read t h.integrity
  obtain rfl := Except.ok.inj (hread.symm.trans hservices)
  refine processServices_returns k h nodes fuel hfuel services' hoff _ fun service hservice => ?_
  obtain ⟨info, hinfo, hname⟩ := hoff service hservice
  obtain ⟨b, hb, hunits⟩ := hmatch service.internalId info hinfo
  exact ⟨b, hname ▸ hb, hunits⟩

end gathers

end Juju.Control

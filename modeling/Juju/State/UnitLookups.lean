import Juju.State.SettingsPath

namespace Juju.State
open Juju.Base

section topology

variable {t : InternalTopology} (h : Integrity t)
include h

/-- A search through the services finds a unit under its service. -/
theorem find_unit (serviceId unitId : String) (service : Service) (unit : ServiceUnit)
    (hs : t.services.lookup serviceId = some service)
    (hu : service.units.lookup unitId = some unit) :
    t.services.entries.find? (fun e => unitId ∈ e.2.units) = some ⟨serviceId, service⟩ := by
  have hunit : t.serviceUnit? serviceId unitId = some unit := by
    rw [serviceUnit?_lookup t serviceId unitId service hs, hu]
  cases hf : t.services.entries.find? (fun e => unitId ∈ e.2.units) with
  | none =>
    have hnot := List.find?_eq_none.mp hf ⟨serviceId, service⟩
      ((Dict.mem_entries_iff _ _).mpr hs)
    exact absurd ((Dict.mem_iff_lookup _ _).mpr ⟨unit, hu⟩) (by simpa using hnot)
  | some e =>
    have hlookup := (Dict.mem_entries_iff _ _).mp (List.mem_of_find?_eq_some hf)
    have hmem : unitId ∈ e.2.units := by simpa using List.find?_some hf
    obtain ⟨unit', hu'⟩ := (Dict.mem_iff_lookup _ _).mp hmem
    have hunit' : t.serviceUnit? e.1 unitId = some unit' := by
      rw [serviceUnit?_lookup t e.1 unitId e.2 hlookup, hu']
    have hid : e.1 = serviceId := h.unitService _ _ _ _ _ hunit' hunit
    have hsame : e.2 = service := by
      rw [hid, hs] at hlookup
      exact (Option.some.inj hlookup).symm
    rw [← hid, ← hsame]

theorem getServiceUnitService_unit (serviceId unitId : String) (service : Service)
    (unit : ServiceUnit) (hs : t.services.lookup serviceId = some service)
    (hu : service.units.lookup unitId = some unit) :
    getServiceUnitService unitId t = .ok serviceId t := by
  simp [getServiceUnitService, find_unit h serviceId unitId service unit hs hu]

theorem getServiceUnitPrincipal_unit (serviceId unitId : String) (service : Service)
    (unit : ServiceUnit) (hs : t.services.lookup serviceId = some service)
    (hu : service.units.lookup unitId = some unit) :
    getServiceUnitPrincipal unitId t = .ok unit.container t := by
  simp [getServiceUnitPrincipal, find_unit h serviceId unitId service unit hs hu, hu]

/-- A unit's container is none, a unit of the topology, or one that is gone. -/
theorem getServiceUnitContainer_unit (serviceId unitId : String) (service : Service)
    (unit : ServiceUnit) (hs : t.services.lookup serviceId = some service)
    (hu : service.units.lookup unitId = some unit) :
    (unit.container = none ∧ read t (getServiceUnitContainer unitId) = .ok none) ∨
      ∃ containerId, unit.container = some containerId ∧
        ((∃ serviceId' unit' container, t.serviceUnit? serviceId' containerId = some unit' ∧
            container.internalId = containerId ∧
            read t (getServiceUnitContainer unitId) = .ok (some container)) ∨
          ∃ e, read t (getServiceUnitContainer unitId) = .error e) := by
  have hprincipal := getServiceUnitPrincipal_unit h serviceId unitId service unit hs hu
  cases hc : unit.container with
  | none =>
    rw [hc] at hprincipal
    exact Or.inl ⟨rfl, by simp [read, getServiceUnitContainer, bind_run, hprincipal]⟩
  | some containerId =>
    rw [hc] at hprincipal
    refine Or.inr ⟨containerId, rfl, ?_⟩
    cases hr : read t (getServiceUnitContainer unitId) with
    | error e => exact Or.inr ⟨e, rfl⟩
    | ok container =>
      left
      cases hf : t.services.entries.find? (fun e => containerId ∈ e.2.units) with
      | none =>
        simp [read, getServiceUnitContainer, bind_run, hprincipal, getServiceUnitService, hf]
          at hr
      | some e =>
        have hlookup := (Dict.mem_entries_iff _ _).mp (List.mem_of_find?_eq_some hf)
        have hmem : containerId ∈ e.2.units := by simpa using List.find?_some hf
        obtain ⟨unit', hu'⟩ := (Dict.mem_iff_lookup _ _).mp hmem
        have hunit' : t.serviceUnit? e.1 containerId = some unit' := by
          rw [serviceUnit?_lookup t e.1 containerId e.2 hlookup, hu']
        obtain ⟨sequence, -, hsequence, -⟩ :=
          h.sequenceBelow e.1 e.2 containerId unit' hlookup hunit'
        have hin : e.1 ∈ t.services := (Dict.mem_iff_lookup _ _).mpr ⟨e.2, hlookup⟩
        refine ⟨e.1, unit', ⟨e.1, e.2.name, sequence, containerId⟩, hunit', rfl, ?_⟩
        have hassert : assertServiceUnit e.1 containerId t = .ok () t := by
          simp [assertServiceUnit, hin, hunit', raiseIf]
        rw [← hr]
        simp [read, getServiceUnitContainer, bind_run, hprincipal, getServiceUnitService, hf,
          hassert, hunit', hlookup, hsequence]

theorem findServiceWithName_service (serviceId : String) (service : Service)
    (hs : t.services.lookup serviceId = some service) :
    t.findServiceWithName service.name = some serviceId := by
  cases hf : t.services.entries.find? (fun e => e.2.name = service.name) with
  | none =>
    have hnot := List.find?_eq_none.mp hf ⟨serviceId, service⟩
      ((Dict.mem_entries_iff _ _).mpr hs)
    simp at hnot
  | some e =>
    have hlookup := (Dict.mem_entries_iff _ _).mp (List.mem_of_find?_eq_some hf)
    have hsame : e.2.name = service.name := by simpa using List.find?_some hf
    have hid := h.serviceName _ _ _ _ hlookup hs hsame
    simp [InternalTopology.findServiceWithName, hf, hid]

/-- The name of a unit leads back to its id. -/
theorem getServiceUnitIdFromName_unit (serviceId unitId : String) (service : Service)
    (unit : ServiceUnit) (sequence : Nat) (hs : t.services.lookup serviceId = some service)
    (hu : service.units.lookup unitId = some unit) (hn : unit.sequence = some sequence) :
    read t (getServiceUnitIdFromName service.name sequence) = .ok (some unitId) := by
  have hname := findServiceWithName_service h serviceId service hs
  have hunit (uid : String) := serviceUnit?_lookup t serviceId uid service hs
  have hsequence : (service.units.entries.find? fun e => e.2.sequence = some sequence).map
      Sigma.fst = some unitId := by
    cases hf : service.units.entries.find? (fun e => e.2.sequence = some sequence) with
    | none =>
      have hnot := List.find?_eq_none.mp hf ⟨unitId, unit⟩ ((Dict.mem_entries_iff _ _).mpr hu)
      simp [hn] at hnot
    | some e =>
      have hlookup := (Dict.mem_entries_iff _ _).mp (List.mem_of_find?_eq_some hf)
      have hsame : e.2.sequence = some sequence := by simpa using List.find?_some hf
      have hid := h.unitSequence serviceId e.1 unitId e.2 unit ((hunit e.1).trans hlookup)
        ((hunit unitId).trans hu) (hsame.trans hn.symm)
      simp [hid]
  have hin : serviceId ∈ t.services := (Dict.mem_iff_lookup _ _).mpr ⟨service, hs⟩
  simp [read, getServiceUnitIdFromName, hname, findServiceUnitWithSequence, hin, hs, hsequence]

end topology

end Juju.State

import Juju.Control.StatusReads

namespace Juju.Control
open Juju.Base
open Juju.Lib
open Juju.State

/-- A unit of the topology that the scope lets through. -/
structure Handles (t : InternalTopology) (scope : Option (List String)) (u : ServiceUnitState) :
    Prop where
  unit : ∃ sid uid, t.unitState sid uid = some u
  service : passes u.serviceName (digestScope scope).1 = .ok true
  name : passes u.unitName (digestScope scope).2 = .ok true

/-- Each glob that is tried can be translated. -/
def Matchable (t : InternalTopology) (scope : Option (List String)) : Prop :=
  ∀ sid service, t.services.lookup sid = some service →
    ∃ b, passes service.name (digestScope scope).1 = .ok b ∧
      (b = true → ∀ uid u, t.unitState sid uid = some u →
        ∃ b', passes u.unitName (digestScope scope).2 = .ok b')

/-- What the first pass has gathered of the units `H`. -/
structure Gathered (t : InternalTopology) (H : ServiceUnitState → Prop) (s : StatusCommand) :
    Prop where
  units : ∀ name x, s.unitData.lookup name = some x → ∃ u c, H u ∧ u.unitName = name ∧
    u.getContainer t = .ok c ∧ x.container = c.map ServiceUnitState.unitName ∧ x.subordinates = []
  present : ∀ u, H u → u.unitName ∈ s.unitData
  services : ∀ u, H u → u.serviceName ∈ s.serviceData
  empty : ∀ name info, s.serviceData.lookup name = some info → info.units = some []
  subordinates : ∀ name, name ∈ s.subordinates ↔
    ∃ u c, H u ∧ u.serviceName = name ∧ u.getContainer t = .ok (some c)

theorem gathered_congr (t : InternalTopology) (H H' : ServiceUnitState → Prop) (s : StatusCommand)
    (hsame : ∀ u, H u ↔ H' u) (h : Gathered t H s) : Gathered t H' s := by
  obtain rfl : H = H' := funext fun u => propext (hsame u)
  exact h

theorem serviceInfo_ok (s : StatusCommand) (name : String) (info : ServiceInfo) :
    s.serviceInfo name = .ok info ↔ s.serviceData.lookup name = some info := by
  unfold StatusCommand.serviceInfo
  split <;> simp_all

theorem unitInfo_ok (s : StatusCommand) (name : String) (u : UnitInfo) :
    s.unitInfo name = .ok u ↔ s.unitData.lookup name = some u := by
  unfold StatusCommand.unitInfo
  split <;> simp_all

section units

variable (t : InternalTopology) (nodes : StatusNodes) (fuel : Nat) (service : ServiceState)
  (relations : List ServiceRelationState) (relSvcMap : Dict String String)

theorem processUnit_gathered (H : ServiceUnitState → Prop) (unit : ServiceUnitState)
    (s s' : StatusCommand) (hname : unit.serviceName = service.serviceName)
    (hs : Gathered t H s)
    (hrun : Returns (processUnit t nodes fuel service relations relSvcMap unit s) s') :
    Gathered t (fun u => H u ∨ u = unit) s' ∧ s'.serviceData = s.serviceData ∧
      s'.filterServices = s.filterServices ∧ s'.filterUnits = s.filterUnits := by
  simp only [processUnit, returns_bind, returns_lift, returns_pure] at hrun
  obtain ⟨container, hcontainer, machineId, -, info, hinfo, errors, -, rfl⟩ := hrun
  have hservice : unit.serviceName ∈ s.serviceData :=
    (Dict.mem_iff_lookup _ _).mpr ⟨info, hname ▸ (serviceInfo_ok _ _ _).mp hinfo⟩
  refine ⟨⟨?_, ?_, ?_, hs.empty, ?_⟩, rfl, rfl, rfl⟩
  · intro name x hx
    rw [Dict.lookup_insert] at hx
    split at hx
    · obtain rfl := Option.some.inj hx
      exact ⟨unit, container, Or.inr rfl, Eq.symm ‹_›, hcontainer, rfl, rfl⟩
    · obtain ⟨u, c, hu, hrest⟩ := hs.units name x hx
      exact ⟨u, c, Or.inl hu, hrest⟩
  · rintro u (hu | rfl)
    · exact (AList.mem_insert _).mpr (Or.inr (hs.present u hu))
    · exact (AList.mem_insert _).mpr (Or.inl rfl)
  · rintro u (hu | rfl)
    · exact hs.services u hu
    · exact hservice
  · intro name
    have hold := hs.subordinates name
    cases container with
    | none =>
      rw [hold]
      constructor
      · rintro ⟨u, c, hu, hrest⟩
        exact ⟨u, c, Or.inl hu, hrest⟩
      · rintro ⟨u, c, hu | rfl, hsame, hc⟩
        · exact ⟨u, c, hu, hsame, hc⟩
        · rw [hcontainer] at hc
          cases hc
    | some container =>
      simp only [addTo, AList.mem_insert, hold]
      constructor
      · rintro (rfl | ⟨u, c, hu, hrest⟩)
        · exact ⟨unit, container, Or.inr rfl, rfl, hcontainer⟩
        · exact ⟨u, c, Or.inl hu, hrest⟩
      · rintro ⟨u, c, hu | rfl, hsame, hc⟩
        · exact Or.inr ⟨u, c, hu, hsame, hc⟩
        · exact Or.inl hsame.symm

/-- The units of a service that the filter lets through are gathered. -/
theorem processUnits_gathered (units : List ServiceUnitState)
    (hnames : ∀ u ∈ units, u.serviceName = service.serviceName) (H : ServiceUnitState → Prop)
    (m m' : Bool) (s s' : StatusCommand) (hs : Gathered t H s)
    (hrun : Returns (processUnits t nodes fuel service relations relSvcMap units m s) (m', s')) :
    Gathered t (fun u => H u ∨ (u ∈ units ∧ passes u.unitName s.filterUnits = .ok true)) s' ∧
      s'.serviceData = s.serviceData ∧ s'.filterServices = s.filterServices ∧
      s'.filterUnits = s.filterUnits ∧
      (∀ u ∈ units, ∃ b, passes u.unitName s.filterUnits = .ok b) ∧
      (m' = true ↔ m = true ∨ ∃ u ∈ units, passes u.unitName s.filterUnits = .ok true) := by
  induction units generalizing H m s with
  | nil =>
    simp only [processUnits, returns_pure, Prod.mk.injEq] at hrun
    obtain ⟨rfl, rfl⟩ := hrun
    exact ⟨gathered_congr t H _ _ (by simp) hs, rfl, rfl, rfl, by simp, by simp⟩
  | cons unit units ih =>
    have hrest := ih fun u hu => hnames u (List.mem_cons_of_mem _ hu)
    simp only [processUnits, returns_bind, returns_lift] at hrun
    obtain ⟨b, hb, hrun⟩ := hrun
    cases b with
    | true =>
      simp only [if_true, returns_bind] at hrun
      obtain ⟨s₁, hunit, hrun⟩ := hrun
      obtain ⟨hs₁, hdata₁, hservices₁, hfilter₁⟩ := processUnit_gathered t nodes fuel service
        relations relSvcMap H unit s s₁ (hnames unit List.mem_cons_self) hs hunit
      obtain ⟨hs', hdata, hservices, hfilter, hglobs, hmatched⟩ := hrest _ _ s₁ hs₁ hrun
      rw [hfilter₁] at hs' hfilter hglobs hmatched
      refine ⟨gathered_congr t _ _ s' (fun u => ?_) hs', hdata.trans hdata₁,
        hservices.trans hservices₁, hfilter, ?_, ?_⟩
      · rw [List.mem_cons]
        constructor
        · rintro ((hu | rfl) | ⟨hu, hpass⟩)
          · exact Or.inl hu
          · exact Or.inr ⟨Or.inl rfl, hb⟩
          · exact Or.inr ⟨Or.inr hu, hpass⟩
        · rintro (hu | ⟨rfl | hu, hpass⟩)
          · exact Or.inl (Or.inl hu)
          · exact Or.inl (Or.inr rfl)
          · exact Or.inr ⟨hu, hpass⟩
      · exact List.forall_mem_cons.mpr ⟨⟨true, hb⟩, hglobs⟩
      · simp [hmatched, hb]
    | false =>
      simp only [Bool.false_eq_true, if_false] at hrun
      obtain ⟨hs', hdata, hservices, hfilter, hglobs, hmatched⟩ := hrest _ _ s hs hrun
      refine ⟨gathered_congr t _ _ s' (fun u => ?_) hs', hdata, hservices, hfilter, ?_, ?_⟩
      · rw [List.mem_cons]
        constructor
        · rintro (hu | ⟨hu, hpass⟩)
          · exact Or.inl hu
          · exact Or.inr ⟨Or.inr hu, hpass⟩
        · rintro (hu | ⟨rfl | hu, hpass⟩)
          · exact Or.inl hu
          · rw [hb] at hpass
            cases hpass
          · exact Or.inr ⟨hu, hpass⟩
      · exact List.forall_mem_cons.mpr ⟨⟨false, hb⟩, hglobs⟩
      · simp [hmatched, hb]

end units

section services

variable (k : TextKind) {t : InternalTopology} (nodes : StatusNodes) (fuel : Nat)

/-- A service that is read off the topology. -/
def ReadOff (t : InternalTopology) (service : ServiceState) : Prop :=
  ∃ info, t.services.lookup service.internalId = some info ∧ service.serviceName = info.name

/-- A unit of a service, let through by a filter. -/
def LetThrough (t : InternalTopology) (filterUnits : List String) (service : ServiceState)
    (u : ServiceUnitState) : Prop :=
  (∃ uid, t.unitState service.internalId uid = some u) ∧ passes u.unitName filterUnits = .ok true

theorem unitState_service (service : ServiceState) (hservice : ReadOff t service) (uid : String)
    (u : ServiceUnitState) (hu : t.unitState service.internalId uid = some u) :
    u.serviceName = service.serviceName := by
  obtain ⟨info, hs, hname⟩ := hservice
  obtain ⟨info', hs', hmap⟩ := Option.bind_eq_some_iff.mp hu
  obtain rfl := Option.some.inj (hs'.symm.trans hs)
  obtain ⟨n, -, rfl⟩ := Option.map_eq_some_iff.mp hmap
  exact hname.symm

theorem setService_gathered (H : ServiceUnitState → Prop) (s : StatusCommand) (name : String)
    (info : ServiceInfo) (hinfo : info.units = some []) (hs : Gathered t H s) :
    Gathered t H (s.setService name info) := by
  refine ⟨hs.units, hs.present, fun u hu => ?_, fun name' info' hlookup => ?_, hs.subordinates⟩
  · exact (AList.mem_insert _).mpr (Or.inr (hs.services u hu))
  · simp only [StatusCommand.setService, Dict.lookup_insert] at hlookup
    split at hlookup
    · obtain rfl := Option.some.inj hlookup
      exact hinfo
    · exact hs.empty name' info' hlookup

/-- A service is left out only when none of its units is gathered. -/
theorem processService_gathered (h : Integrity t) (service : ServiceState)
    (hservice : ReadOff t service) (H : ServiceUnitState → Prop) (s s' : StatusCommand)
    (hfresh : ∀ u, H u → u.serviceName ≠ service.serviceName) (hs : Gathered t H s)
    (hrun : Returns (processService k t nodes fuel service s) s') :
    Gathered t (fun u => H u ∨ LetThrough t s.filterUnits service u) s' ∧
      s'.filterServices = s.filterServices ∧ s'.filterUnits = s.filterUnits ∧
      ∀ uid u, t.unitState service.internalId uid = some u →
        ∃ b, passes u.unitName s.filterUnits = .ok b := by
  simp only [processService, returns_bind, returns_lift] at hrun
  obtain ⟨relations, -, ⟨relationData, relSvcMap⟩, -, units, hunits, ⟨matched, s₁⟩, hprocess,
    hrun⟩ := hrun
  obtain ⟨info, hinfo, hname⟩ := hservice
  obtain ⟨units', hunits', hmem⟩ := getAllUnitStates_spec h k service info hinfo hname
  obtain rfl := Except.ok.inj (hunits.symm.trans hunits')
  have hnames : ∀ u ∈ units, u.serviceName = service.serviceName := by
    intro u hu
    obtain ⟨uid, hstate⟩ := (hmem u).mp hu
    exact unitState_service service ⟨info, hinfo, hname⟩ uid u hstate
  obtain ⟨hs₁, hdata, hservices, hfilter, hglobs, hmatched⟩ :=
    processUnits_gathered t nodes fuel service relations relSvcMap units hnames H false matched _ s₁
      (setService_gathered H s service.serviceName _ rfl hs) hprocess
  simp only [StatusCommand.setService] at hs₁ hservices hfilter hglobs hmatched
  have hs₁' : Gathered t (fun u => H u ∨ LetThrough t s.filterUnits service u) s₁ :=
    gathered_congr t _ _ s₁ (fun u => by rw [hmem]; rfl) hs₁
  have hall (uid : String) (u : ServiceUnitState)
      (hstate : t.unitState service.internalId uid = some u) :
      ∃ b, passes u.unitName s.filterUnits = .ok b := hglobs u ((hmem u).mpr ⟨uid, hstate⟩)
  split at hrun
  · rename_i hout
    obtain rfl := (returns_pure _ _).mp hrun
    refine ⟨⟨hs₁'.units, hs₁'.present, fun u hu => ?_, fun name info' hlookup => ?_,
      hs₁'.subordinates⟩, hservices, hfilter, hall⟩
    · refine AList.mem_erase.mpr ⟨?_, hs₁'.services u hu⟩
      rcases hu with hu | ⟨hstate, hpass⟩
      · exact hfresh u hu
      · exact absurd (hmatched.mpr (Or.inr ⟨u, (hmem u).mpr hstate, hpass⟩)) hout.2
    · rw [Dict.lookup_erase] at hlookup
      split at hlookup
      · cases hlookup
      · exact hs₁'.empty name info' hlookup
  · simp only [returns_bind, returns_lift, returns_pure] at hrun
    obtain ⟨info', hinfo', result, -, rfl⟩ := hrun
    exact ⟨setService_gathered _ s₁ service.serviceName _
      (hs₁'.empty _ info' ((serviceInfo_ok _ _ _).mp hinfo')) hs₁', hservices, hfilter, hall⟩

/-- All units of the services that the filters let through are gathered. -/
theorem processServices_gathered (h : Integrity t) (services : List ServiceState)
    (hservices : ∀ service ∈ services, ReadOff t service)
    (hapart : (services.map ServiceState.serviceName).Nodup) (H : ServiceUnitState → Prop)
    (s s' : StatusCommand)
    (hfresh : ∀ u, H u → ∀ service ∈ services, u.serviceName ≠ service.serviceName)
    (hs : Gathered t H s)
    (hrun : Returns (processServices k t nodes fuel services s) s') :
    Gathered t (fun u => H u ∨ ∃ service ∈ services,
        passes service.serviceName s.filterServices = .ok true ∧
          LetThrough t s.filterUnits service u) s' ∧
      ∀ service ∈ services, ∃ b, passes service.serviceName s.filterServices = .ok b ∧
        (b = true → ∀ uid u, t.unitState service.internalId uid = some u →
          ∃ b', passes u.unitName s.filterUnits = .ok b') := by
  induction services generalizing H s with
  | nil =>
    obtain rfl := (returns_pure _ _).mp hrun
    exact ⟨gathered_congr t H _ _ (by simp) hs, by simp⟩
  | cons service services ih =>
    have hservice := hservices service List.mem_cons_self
    rw [List.map_cons, List.nodup_cons] at hapart
    have hothers : ∀ other ∈ services, service.serviceName ≠ other.serviceName :=
      fun other hother hsame => hapart.1 (hsame ▸ List.mem_map_of_mem hother)
    have hrest := ih (fun x hx => hservices x (List.mem_cons_of_mem _ hx)) hapart.2
    simp only [processServices, returns_bind, returns_lift] at hrun
    obtain ⟨b, hb, hrun⟩ := hrun
    cases b with
    | true =>
      simp only [if_true, returns_bind] at hrun
      obtain ⟨s₁, hprocess, hrun⟩ := hrun
      obtain ⟨hs₁, hfilter₁, hunits₁, hglobs₁⟩ := processService_gathered k nodes fuel h service
        hservice H s s₁ (fun u hu => hfresh u hu service List.mem_cons_self) hs hprocess
      have hfresh₁ : ∀ u, (H u ∨ LetThrough t s.filterUnits service u) →
          ∀ other ∈ services, u.serviceName ≠ other.serviceName := by
        rintro u (hu | ⟨⟨uid, hstate⟩, -⟩) other hother
        · exact hfresh u hu other (List.mem_cons_of_mem _ hother)
        · rw [unitState_service service hservice uid u hstate]
          exact hothers other hother
      obtain ⟨hs', hglobs⟩ := hrest _ s₁ hfresh₁ hs₁ hrun
      rw [hfilter₁, hunits₁] at hs' hglobs
      refine ⟨gathered_congr t _ _ s' (fun u => ?_) hs',
        List.forall_mem_cons.mpr ⟨⟨true, hb, fun _ => hglobs₁⟩, hglobs⟩⟩
      rw [List.exists_mem_cons_iff]
      constructor
      · rintro ((hu | hu) | hu)
        · exact Or.inl hu
        · exact Or.inr (Or.inl ⟨hb, hu⟩)
        · exact Or.inr (Or.inr hu)
      · rintro (hu | ⟨-, hu⟩ | hu)
        · exact Or.inl (Or.inl hu)
        · exact Or.inl (Or.inr hu)
        · exact Or.inr hu
    | false =>
      simp only [Bool.false_eq_true, if_false] at hrun
      obtain ⟨hs', hglobs⟩ := hrest H s
        (fun u hu other hother => hfresh u hu other (List.mem_cons_of_mem _ hother)) hs hrun
      refine ⟨gathered_congr t _ _ s' (fun u => ?_) hs',
        List.forall_mem_cons.mpr ⟨⟨false, hb, by simp⟩, hglobs⟩⟩
      rw [List.exists_mem_cons_iff]
      simp [hb]

end services

/-- The states of the services, each under a name of its own. -/
theorem serviceStates_read (t : InternalTopology) (h : Integrity t) :
    ∃ services, ask t getAllServiceStates = .ok services ∧
      (∀ service ∈ services, ReadOff t service) ∧
      (services.map ServiceState.serviceName).Nodup ∧
      ∀ sid info, t.services.lookup sid = some info →
        ∃ service ∈ services, service.internalId = sid ∧ service.serviceName = info.name := by
  obtain ⟨services, hrun, hids, hnames⟩ := getAllServiceStates_spec t
  refine ⟨services, ask_ok _ _ _ _ hrun, hnames, ?_, fun sid info hs => ?_⟩
  · have hnodup : (services.map ServiceState.internalId).Nodup := by
      rw [hids]
      exact t.services.nodupKeys
    rw [List.Nodup, List.pairwise_map] at hnodup ⊢
    refine List.Pairwise.imp_of_mem (fun {a b} ha hb hne hsame => hne ?_) hnodup
    obtain ⟨info, hs, hname⟩ := hnames a ha
    obtain ⟨info', hs', hname'⟩ := hnames b hb
    exact h.serviceName _ _ info info' hs hs' (by rw [← hname, ← hname', hsame])
  · have hin : sid ∈ services.map ServiceState.internalId := by
      rw [hids]
      exact AList.mem_keys.mpr ((Dict.mem_iff_lookup _ _).mpr ⟨info, hs⟩)
    obtain ⟨service, hservice, rfl⟩ := List.mem_map.mp hin
    obtain ⟨info', hs', hname⟩ := hnames service hservice
    obtain rfl := Option.some.inj (hs'.symm.trans hs)
    exact ⟨service, hservice, rfl, hname⟩

/-- The first pass gathers the units that the scope lets through. -/
theorem gather_handled (k : TextKind) (t : InternalTopology) (nodes : StatusNodes) (fuel : Nat)
    (scope : Option (List String)) (h : Integrity t) (services : List ServiceState)
    (s : StatusCommand) (hservices : ask t getAllServiceStates = .ok services)
    (hrun : Returns (processServices k t nodes fuel services (reset scope)) s) :
    Gathered t (Handles t scope) s ∧ Matchable t scope := by
  obtain ⟨services', hread, hoff, hapart, hall⟩ := serviceStates_read t h
  obtain rfl := Except.ok.inj (hread.symm.trans hservices)
  have hempty : Gathered t (fun _ => False) (reset scope) := by
    constructor <;> simp [reset]
  obtain ⟨hs, hglobs⟩ := processServices_gathered k nodes fuel h services' hoff hapart _ _ s
    (fun _ hu => hu.elim) hempty hrun
  refine ⟨gathered_congr t _ _ s (fun u => ?_) hs, fun sid info hinfo => ?_⟩
  · constructor
    · rintro (hfalse | ⟨service, hservice, hpass, ⟨uid, hstate⟩, hunit⟩)
      · exact hfalse.elim
      · rw [← unitState_service service (hoff service hservice) uid u hstate] at hpass
        exact ⟨⟨_, uid, hstate⟩, hpass, hunit⟩
    · rintro ⟨⟨sid, uid, hstate⟩, hpass, hunit⟩
      obtain ⟨info, hinfo, -⟩ := Option.bind_eq_some_iff.mp hstate
      obtain ⟨service, hservice, rfl, -⟩ := hall sid info hinfo
      rw [unitState_service service (hoff service hservice) uid u hstate] at hpass
      exact Or.inr ⟨service, hservice, hpass, ⟨uid, hstate⟩, hunit⟩
  · obtain ⟨service, hservice, rfl, hname⟩ := hall sid info hinfo
    obtain ⟨b, hb, hunits⟩ := hglobs service hservice
    exact ⟨b, hname ▸ hb, hunits⟩

end Juju.Control

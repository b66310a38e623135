import Juju.Base.Runs
import Juju.State.TopologyConflicts
import Juju.State.UnitChanges

namespace Juju.State
open Juju.Base

/-- The unit that a unit names as its container is in the topology. -/
def ContainersPresent (t : InternalTopology) : Prop :=
  ∀ sid uid unit c, t.serviceUnit? sid uid = some unit → unit.container = some c →
    ∃ psid, t.serviceUnit? psid c ≠ none

/-- A call that takes a unit out of the topology takes out the units contained in it. -/
def TakesContained (t : InternalTopology) (call : TopologyCall) : Prop :=
  ∀ sid uid unit psid c, t.serviceUnit? sid uid = some unit → unit.container = some c →
    Removes t call psid c → Removes t call sid uid

/-- What `get_service_unit_container` returns for a unit whose container is there. -/
def ContainerFound (t : InternalTopology) (uid : String) (unit : ServiceUnit) : Prop :=
  match unit.container with
  | none => getServiceUnitContainer uid t = .ok none t
  | some c => ∃ psid service principal n, t.services.lookup psid = some service ∧
      service.units.lookup c = some principal ∧ principal.sequence = some n ∧
      getServiceUnitContainer uid t = .ok (some ⟨psid, service.name, n, c⟩) t

theorem container_found (t : InternalTopology) (h : Integrity t) (hpresent : ContainersPresent t)
    (sid uid : String) (unit : ServiceUnit) (hunit : t.serviceUnit? sid uid = some unit) :
    ContainerFound t uid unit := by
  unfold ContainerFound
  split
  · rename_i hc
    exact getServiceUnitContainer_none h sid uid unit hunit hc
  · rename_i c hc
    obtain ⟨psid, hpsid⟩ := hpresent sid uid unit c hunit hc
    exact ⟨psid, getServiceUnitContainer_present h sid uid unit hunit c hc psid hpsid⟩

/-- A call keeps the containers present just when it takes out what they contain. -/
theorem call_containersPresent (t : InternalTopology) (h : Integrity t)
    (hpresent : ContainersPresent t) (c : TopologyCall) :
    ContainersPresent (call t c) ↔ TakesContained t c := by
  cases call_units t h c with
  | kept _ hgone hkept =>
    constructor
    · intro hafter sid uid unit psid cid hunit hcontainer hremoves
      by_contra hstays
      have hunit' := (hkept sid uid hstays).trans hunit
      obtain ⟨psid', hpsid'⟩ := hafter sid uid unit cid hunit' hcontainer
      have hstill : ¬ Removes t c psid' cid := fun h => hpsid' (hgone psid' cid h)
      rw [hkept psid' cid hstill] at hpsid'
      have hthere : t.serviceUnit? psid cid ≠ none := by
        cases c with
        | removeServiceUnit _ _ => exact hremoves.2.2
        | removeService _ => exact hremoves.2.2
        | _ => cases hremoves
      obtain ⟨unit₁, h₁⟩ := Option.ne_none_iff_exists'.mp hthere
      obtain ⟨unit₂, h₂⟩ := Option.ne_none_iff_exists'.mp hpsid'
      exact hstill (h.unitService psid psid' cid unit₁ unit₂ h₁ h₂ ▸ hremoves)
    · intro htakes sid uid unit cid hunit hcontainer
      have hstays : ¬ Removes t c sid uid := fun h => by
        rw [hgone sid uid h] at hunit
        cases hunit
      rw [hkept sid uid hstays] at hunit
      obtain ⟨psid, hpsid⟩ := hpresent sid uid unit cid hunit hcontainer
      have hcontainer' : ¬ Removes t c psid cid := fun h =>
        hstays (htakes sid uid unit psid cid hunit hcontainer h)
      refine ⟨psid, ?_⟩
      rwa [hkept psid cid hcontainer']
  | added serviceId unitId container n hnew hin hafter =>
    refine ⟨fun _ _ _ _ _ _ _ _ hremoves => hremoves, fun _ sid uid unit cid hunit hcontainer => ?_⟩
    have hold : ∃ psid, t.serviceUnit? psid cid ≠ none := by
      rw [hafter] at hunit
      split at hunit
      · obtain rfl := Option.some.inj hunit
        exact hin cid hcontainer
      · exact hpresent sid uid unit cid hunit hcontainer
    obtain ⟨psid, hpsid⟩ := hold
    refine ⟨psid, ?_⟩
    rw [hafter]
    split
    · nofun
    · exact hpsid
  | machineSet _ serviceId unitId unit₀ machine hunit₀ hremoves hafter =>
    refine ⟨fun _ _ _ _ psid cid _ _ h => absurd h (hremoves psid cid),
      fun _ sid uid unit cid hunit hcontainer => ?_⟩
    have hold : ∃ psid, t.serviceUnit? psid cid ≠ none := by
      rw [hafter] at hunit
      split at hunit
      · obtain rfl := Option.some.inj hunit
        exact hpresent serviceId unitId unit₀ cid hunit₀ hcontainer
      · exact hpresent sid uid unit cid hunit hcontainer
    obtain ⟨psid, hpsid⟩ := hold
    refine ⟨psid, ?_⟩
    rw [hafter]
    split
    · nofun
    · exact hpsid

/-- As long as no call takes out a unit without what it contains, every container is found; and
only such a call has one dangle. -/
theorem containers_present (t : InternalTopology)
    (h : Reachable (· = freshTopology) (fun t c => some (call t c)) TakesContained t) :
    (∀ sid uid unit, t.serviceUnit? sid uid = some unit → ContainerFound t uid unit) ∧
      ∀ c, ContainersPresent (call t c) ↔ TakesContained t c := by
  have hinv := reachable_invariant (fun t => Integrity t ∧ ContainersPresent t)
    (fun t ht => by
      subst ht
      exact ⟨freshTopology_integrity, fun _ _ _ _ hunit => by cases hunit⟩)
    (fun t t' c hi hc hs => by
      obtain rfl := Option.some.inj hs
      exact ⟨call_integrity hi.1 c, (call_containersPresent t hi.1 hi.2 c).mpr hc⟩) t h
  exact ⟨container_found t hinv.1 hinv.2, call_containersPresent t hinv.1 hinv.2⟩

/-- A unit of one service, and one subordinate to it of another. -/
def addSubordinate : List TopologyCall :=
  [.addService "service-0" "mysql", .addService "service-1" "logging",
    .addRelation "relation-0" "juju-info" "container",
    .assignServiceToRelation "relation-0" "service-0" "juju-info" "server",
    .assignServiceToRelation "relation-0" "service-1" "info" "client",
    .addServiceUnit "service-0" "unit-0" none,
    .addServiceUnit "service-1" "unit-1" (some "unit-0")]

theorem containers_present_subordinate :
    ∃ t, Reachable (· = freshTopology) (fun t c => some (call t c)) TakesContained t ∧
      t.serviceUnit? "service-1" "unit-1" = some ⟨some 0, some "unit-0", none⟩ ∧
      ContainerFound t "unit-1" ⟨some 0, some "unit-0", none⟩ := by
  have hadds : ∀ c ∈ addSubordinate, ∀ t, TakesContained t c := by
    intro c hc t sid uid unit psid cid _ _ hremoves
    simp only [addSubordinate, List.mem_cons, List.not_mem_nil, or_false] at hc
    rcases hc with rfl | rfl | rfl | rfl | rfl | rfl | rfl <;> exact hremoves
  have hrun : Reachable (· = freshTopology) (fun t c => some (call t c)) TakesContained _ :=
    reachable_events addSubordinate hadds freshTopology _ (.init _ rfl) rfl
  exact ⟨_, hrun, rfl, (containers_present _ hrun).1 "service-1" "unit-1" _ rfl⟩

/-- The principal unit goes, and the lookup of its subordinate's container raises. -/
theorem removed_principal_dangles :
    ∃ t, Reachable (· = freshTopology) (fun t c => some (call t c)) (fun _ _ => True) t ∧
      t.serviceUnit? "service-1" "unit-1" = some ⟨some 0, some "unit-0", none⟩ ∧
      ¬ ContainersPresent t ∧
      getServiceUnitContainer "unit-1" t = .error (.serviceUnitIdNotFound "unit-0") t := by
  have hrun : Reachable (· = freshTopology) (fun t c => some (call t c)) (fun _ _ => True) _ :=
    reachable_stepAll (fun _ _ => trivial)
      (addSubordinate ++ [TopologyCall.removeServiceUnit "service-0" "unit-0"]) freshTopology _
      (.init _ rfl) rfl
  refine ⟨_, hrun, rfl, fun hpresent => ?_, rfl⟩
  obtain ⟨sid, hsid⟩ := hpresent "service-1" "unit-1" _ "unit-0" rfl rfl
  obtain ⟨unit, hunit⟩ := Option.ne_none_iff_exists'.mp hsid
  obtain ⟨service, hs, hu⟩ := Option.bind_eq_some_iff.mp hunit
  have hlisted := (Dict.mem_entries_iff _ ⟨sid, service⟩).mpr hs
  have hnone : ∀ e ∈ (List.foldl call freshTopology (addSubordinate ++
      [TopologyCall.removeServiceUnit "service-0" "unit-0"])).services.entries,
      e.2.units.lookup "unit-0" = none := by decide
  exact absurd (hnone _ hlisted) (by simp [hu])

end Juju.State

import Juju.State.StateManagers

namespace Juju.State
open Juju.Base

/-- The topology knows a service, unit, machine or relation of this id. -/
def InternalTopology.Names (t : InternalTopology) : NodeKind → String → Prop
  | .service, id => id ∈ t.services
  | .unit, id => ∃ sid, t.serviceUnit? sid id ≠ none
  | .machine, id => id ∈ t.machines
  | .relation, id => id ∈ t.relations

/-- The id that an operation may bring in. -/
def TopologyCall.creates : TopologyCall → Option (NodeKind × String)
  | .addMachine id => some (.machine, id)
  | .addService id _ => some (.service, id)
  | .addServiceUnit _ id _ => some (.unit, id)
  | .addRelation id _ _ => some (.relation, id)
  | _ => none

/-- The id that a change function may bring in. -/
def TopologyChange.creates : TopologyChange → Option (NodeKind × String)
  | .addMachine id => some (.machine, id)
  | .addService id _ => some (.service, id)
  | .addUnit _ id _ => some (.unit, id)
  | .addRelation _ id => some (.relation, id)
  | _ => none

section keeps

variable {ε σ α : Type} (P : σ → Prop)

theorem keeps_raiseIf (p : Prop) [Decidable p] (e : ε) :
    Keeps P (raiseIf p e : EStateM ε σ Unit) := by
  intro s hs
  unfold raiseIf
  split <;> exact hs

theorem keeps_adaptExcept {ε' : Type} (f : ε → ε') (m : EStateM ε σ α) (h : Keeps P m) :
    Keeps P (m.adaptExcept f) := by
  intro s hs
  have hm := h s hs
  unfold EStateM.adaptExcept
  cases hrun : m s with
  | ok a s' => rwa [hrun] at hm
  | error e s' => rwa [hrun] at hm

end keeps

section names

variable (kind : NodeKind) (id : String)

/-- The topology does not know the id. -/
def Unnamed (t : InternalTopology) : Prop := ¬ t.Names kind id

/-- An id comes in where something of its kind does. -/
theorem unnamed_of (t t' : InternalTopology) (h : Unnamed kind id t)
    (hservices : kind = .service → id ∈ t'.services → id ∈ t.services)
    (hunits : kind = .unit → ∀ sid, t'.serviceUnit? sid id ≠ none →
      ∃ sid, t.serviceUnit? sid id ≠ none)
    (hmachines : kind = .machine → id ∈ t'.machines → id ∈ t.machines)
    (hrelations : kind = .relation → id ∈ t'.relations → id ∈ t.relations) :
    Unnamed kind id t' := by
  intro hnamed
  apply h
  cases kind with
  | service => exact hservices rfl hnamed
  | unit =>
    obtain ⟨sid, hsid⟩ := hnamed
    exact hunits rfl sid hsid
  | machine => exact hmachines rfl hnamed
  | relation => exact hrelations rfl hnamed

/-- A service that is written brings in the units that its new state has. -/
theorem unnamed_service (t : InternalTopology) (h : Unnamed kind id t) (serviceId : String)
    (service service' : Service) (sequences : Dict String Nat)
    (hs : t.services.lookup serviceId = some service)
    (hunits : kind = .unit → id ∈ service'.units → id ∈ service.units) :
    Unnamed kind id { t with
      services := t.services.insert serviceId service', unitSequence := sequences } := by
  apply unnamed_of kind id t _ h
  · intro _ hin
    rcases (AList.mem_insert _).mp hin with rfl | hin
    · exact (Dict.mem_iff_lookup _ _).mpr ⟨service, hs⟩
    · exact hin
  · intro hkind sid hsid
    rw [serviceUnit?_insert t _ serviceId sid id service' rfl] at hsid
    split at hsid
    · obtain ⟨unit, hunit⟩ := (Dict.mem_iff_lookup _ _).mp
        (hunits hkind (AList.lookup_isSome.mp (Option.isSome_iff_ne_none.mpr hsid)))
      exact ⟨serviceId, by simp [serviceUnit?_lookup t _ _ service hs, hunit]⟩
    · exact ⟨sid, hsid⟩
  · exact fun _ hin => hin
  · exact fun _ hin => hin

/-- A relation that is written is none that comes in. -/
theorem unnamed_relation (t : InternalTopology) (h : Unnamed kind id t) (relationId : String)
    (relation : Relation) (hold : kind = .relation → relationId = id → id ∈ t.relations) :
    Unnamed kind id { t with relations := t.relations.insert relationId relation } := by
  apply unnamed_of kind id t _ h
  · exact fun _ hin => hin
  · exact fun _ sid hsid => ⟨sid, hsid⟩
  · exact fun _ hin => hin
  · intro hkind hin
    rcases (AList.mem_insert _).mp hin with he | hin
    · exact hold hkind he.symm
    · exact hin

/-- An operation brings in no id but its own. -/
theorem call_unnamed (c : TopologyCall) (t : InternalTopology)
    (hnew : c.creates ≠ some (kind, id)) (h : Unnamed kind id t) :
    Unnamed kind id (call t c) := by
  have heffect := call_effect t c
  generalize call t c = t' at heffect
  -- a new unit is no unit of this id
  have hunit (unitId : String) (hother : kind = .unit → unitId ≠ id) (service : Service)
      (unit : ServiceUnit) : kind = .unit → id ∈ service.units.insert unitId unit →
        id ∈ service.units := by
    intro hkind hin
    exact ((AList.mem_insert _).mp hin).resolve_left fun he => hother hkind he.symm
  -- nor is a unit that has been written
  have hwritten (unitId : String) (service : Service) (unit unit' : ServiceUnit)
      (hu : service.units.lookup unitId = some unit) :
      kind = .unit → id ∈ service.units.insert unitId unit' → id ∈ service.units := by
    intro _ hin
    rcases (AList.mem_insert _).mp hin with rfl | hin
    · exact (Dict.mem_iff_lookup _ _).mpr ⟨unit, hu⟩
    · exact hin
  cases heffect with
  | refused => exact h
  | machineAdded machineId =>
    refine unnamed_of kind id t _ h (fun _ hin => hin) (fun _ sid hsid => ⟨sid, hsid⟩) ?_
      fun _ hin => hin
    intro hkind hin
    exact ((AList.mem_insert _).mp hin).resolve_left fun he => hnew (by rw [hkind, he]; rfl)
  | machineRemoved machineId =>
    exact unnamed_of kind id t _ h (fun _ hin => hin) (fun _ sid hsid => ⟨sid, hsid⟩)
      (fun _ hin => (AList.mem_erase.mp hin).2) fun _ hin => hin
  | serviceAdded serviceId serviceName sequences =>
    refine unnamed_of kind id t _ h ?_ ?_ (fun _ hin => hin) fun _ hin => hin
    · intro hkind hin
      exact ((AList.mem_insert _).mp hin).resolve_left fun he => hnew (by rw [hkind, he]; rfl)
    · intro _ sid hsid
      rw [serviceUnit?_insert t _ serviceId sid id ⟨serviceName, ∅⟩ rfl] at hsid
      split at hsid
      · simp at hsid
      · exact ⟨sid, hsid⟩
  | serviceRemoved serviceId =>
    refine unnamed_of kind id t _ h (fun _ hin => (AList.mem_erase.mp hin).2) ?_
      (fun _ hin => hin) fun _ hin => hin
    intro _ sid hsid
    rw [serviceUnit?_erase t _ serviceId sid id rfl] at hsid
    split at hsid
    · exact absurd rfl hsid
    · exact ⟨sid, hsid⟩
  | unitAdded serviceId unitId containerId service n hs =>
    exact unnamed_service kind id t h serviceId service _ _ hs
      (hunit unitId (fun hkind he => hnew (by rw [hkind, ← he]; rfl)) service _)
  | unitUnnumbered serviceId unitId containerId service hs =>
    exact unnamed_service kind id t h serviceId service _ t.unitSequence hs
      (hunit unitId (fun hkind he => hnew (by rw [hkind, ← he]; rfl)) service _)
  | unitRemoved serviceId unitId service hs =>
    exact unnamed_service kind id t h serviceId service _ t.unitSequence hs
      fun _ hin => (AList.mem_erase.mp hin).2
  | unitAssigned serviceId unitId machineId service unit hs hu =>
    exact unnamed_service kind id t h serviceId service _ t.unitSequence hs
      (hwritten unitId service unit _ hu)
  | unitUnassigned serviceId unitId service unit hs hu =>
    exact unnamed_service kind id t h serviceId service _ t.unitSequence hs
      (hwritten unitId service unit _ hu)
  | relationAdded relationId relationType relationScope =>
    apply unnamed_relation kind id t h
    intro hkind he
    exact absurd (by rw [hkind, ← he]; rfl) hnew
  | relationRemoved relationId =>
    exact unnamed_of kind id t _ h (fun _ hin => hin) (fun _ sid hsid => ⟨sid, hsid⟩)
      (fun _ hin => hin) fun _ hin => (AList.mem_erase.mp hin).2
  | serviceAssigned relationId serviceId name role relation _ hr =>
    apply unnamed_relation kind id t h
    exact fun _ he => (Dict.mem_iff_lookup _ _).mpr ⟨relation, he ▸ hr⟩
  | serviceUnassigned relationId serviceId relation hr =>
    apply unnamed_relation kind id t h
    exact fun _ he => (Dict.mem_iff_lookup _ _).mpr ⟨relation, he ▸ hr⟩

end names

end Juju.State

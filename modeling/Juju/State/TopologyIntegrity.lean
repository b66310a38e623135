import Juju.State.Topology

namespace Juju.State
open Juju.Base

/-- The references between the maps of a topology hold, and its names and numbers are unique. -/
structure Integrity (t : InternalTopology) : Prop where
  unitMachine : ∀ sid uid unit m, t.serviceUnit? sid uid = some unit →
    unit.machine = some m → m ∈ t.machines
  unitService : ∀ sid₁ sid₂ uid unit₁ unit₂, t.serviceUnit? sid₁ uid = some unit₁ →
    t.serviceUnit? sid₂ uid = some unit₂ → sid₁ = sid₂
  serviceName : ∀ sid₁ sid₂ service₁ service₂, t.services.lookup sid₁ = some service₁ →
    t.services.lookup sid₂ = some service₂ → service₁.name = service₂.name → sid₁ = sid₂
  relationService : ∀ rid relation sid, t.relations.lookup rid = some relation →
    sid ∈ relation.services → sid ∈ t.services
  relationRole : ∀ rid relation sid₁ sid₂ x₁ x₂, t.relations.lookup rid = some relation →
    relation.services.lookup sid₁ = some x₁ → relation.services.lookup sid₂ = some x₂ →
    x₁.role = x₂.role → sid₁ = sid₂
  unitSequence : ∀ sid uid₁ uid₂ unit₁ unit₂, t.serviceUnit? sid uid₁ = some unit₁ →
    t.serviceUnit? sid uid₂ = some unit₂ → unit₁.sequence = unit₂.sequence → uid₁ = uid₂
  sequenceBelow : ∀ sid service uid unit, t.services.lookup sid = some service →
    t.serviceUnit? sid uid = some unit → ∃ n counter, unit.sequence = some n ∧
      t.unitSequence.lookup service.name = some counter ∧ n < counter
  serviceCounter : ∀ sid service, t.services.lookup sid = some service →
    service.name ∈ t.unitSequence

theorem freshTopology_integrity : Integrity freshTopology := by
  constructor <;> simp [freshTopology, InternalTopology.serviceUnit?]

section writes

variable {t : InternalTopology} (h : Integrity t)
include h

theorem integrity_addMachine (machineId : String) :
    Integrity { t with machines := t.machines.insert machineId () } := by
  refine { h with unitMachine := ?_ }
  intro sid uid unit m hunit hm
  have hin := h.unitMachine sid uid unit m hunit hm
  exact (AList.mem_insert _).mpr (Or.inr hin)

theorem integrity_removeMachine (machineId : String)
    (hfree : ∀ sid uid unit, t.serviceUnit? sid uid = some unit →
      unit.machine ≠ some machineId) :
    Integrity { t with machines := t.machines.erase machineId } := by
  refine { h with unitMachine := ?_ }
  intro sid uid unit m hunit hm
  have hin := h.unitMachine sid uid unit m hunit hm
  have hne : m ≠ machineId := fun he => hfree sid uid unit hunit (he ▸ hm)
  exact AList.mem_erase.mpr ⟨hne, hin⟩

/-- A relation is written with known services in distinct roles. -/
theorem integrity_setRelation (relationId : String) (relation : Relation)
    (hservices : ∀ sid ∈ relation.services, sid ∈ t.services)
    (hroles : ∀ sid₁ sid₂ x₁ x₂, relation.services.lookup sid₁ = some x₁ →
      relation.services.lookup sid₂ = some x₂ → x₁.role = x₂.role → sid₁ = sid₂) :
    Integrity { t with relations := t.relations.insert relationId relation } := by
  have hlookup (rid : String) (r : Relation)
      (hr : (t.relations.insert relationId relation).lookup rid = some r) :
      r = relation ∨ t.relations.lookup rid = some r := by
    rw [Dict.lookup_insert] at hr
    by_cases hrid : rid = relationId
    · rw [if_pos hrid] at hr
      exact Or.inl (Option.some.inj hr).symm
    · rw [if_neg hrid] at hr
      exact Or.inr hr
  refine { h with relationService := ?_, relationRole := ?_ }
  · intro rid r sid hr hsid
    rcases hlookup rid r hr with rfl | hold
    · exact hservices sid hsid
    · exact h.relationService rid r sid hold hsid
  · intro rid r sid₁ sid₂ x₁ x₂ hr h₁ h₂ hrole
    rcases hlookup rid r hr with rfl | hold
    · exact hroles sid₁ sid₂ x₁ x₂ h₁ h₂ hrole
    · exact h.relationRole rid r sid₁ sid₂ x₁ x₂ hold h₁ h₂ hrole

theorem integrity_removeRelation (relationId : String) :
    Integrity { t with relations := t.relations.erase relationId } := by
  have hlookup (rid : String) (r : Relation)
      (hr : (t.relations.erase relationId).lookup rid = some r) :
      t.relations.lookup rid = some r := by
    rw [Dict.lookup_erase] at hr
    by_cases hrid : rid = relationId
    · simp [hrid] at hr
    · rwa [if_neg hrid] at hr
  refine { h with relationService := ?_, relationRole := ?_ }
  · intro rid r sid hr hsid
    exact h.relationService rid r sid (hlookup rid r hr) hsid
  · intro rid r sid₁ sid₂ x₁ x₂ hr h₁ h₂ hrole
    exact h.relationRole rid r sid₁ sid₂ x₁ x₂ (hlookup rid r hr) h₁ h₂ hrole

end writes

section lookups

variable (t t' : InternalTopology) (serviceId sid uid : String) (service : Service)

theorem serviceUnit?_lookup (hs : t.services.lookup serviceId = some service) :
    t.serviceUnit? serviceId uid = service.units.lookup uid := by
  simp [InternalTopology.serviceUnit?, hs]

theorem serviceUnit?_insert (hs : t'.services = t.services.insert serviceId service) :
    t'.serviceUnit? sid uid =
      if sid = serviceId then service.units.lookup uid else t.serviceUnit? sid uid := by
  unfold InternalTopology.serviceUnit?
  rw [hs, Dict.lookup_insert]
  by_cases he : sid = serviceId <;> simp [he]

theorem serviceUnit?_erase (hs : t'.services = t.services.erase serviceId) :
    t'.serviceUnit? sid uid = if sid = serviceId then none else t.serviceUnit? sid uid := by
  unfold InternalTopology.serviceUnit?
  rw [hs, Dict.lookup_erase]
  by_cases he : sid = serviceId <;> simp [he]

end lookups

section writes

variable {t : InternalTopology} (h : Integrity t)
include h

theorem integrity_addService (serviceId serviceName : String) (sequences : Dict String Nat)
    (hname : ∀ sid service, t.services.lookup sid = some service → service.name ≠ serviceName)
    (hkeep : ∀ name n, t.unitSequence.lookup name = some n → sequences.lookup name = some n)
    (hin : serviceName ∈ sequences) :
    Integrity { t with
      services := t.services.insert serviceId ⟨serviceName, ∅⟩, unitSequence := sequences } := by
  have hunit (sid uid : String) := serviceUnit?_insert t { t with
    services := t.services.insert serviceId ⟨serviceName, ∅⟩, unitSequence := sequences }
    serviceId sid uid ⟨serviceName, ∅⟩ rfl
  have hold (sid uid : String) (unit : ServiceUnit) (hu : InternalTopology.serviceUnit? { t with
      services := t.services.insert serviceId ⟨serviceName, ∅⟩, unitSequence := sequences }
      sid uid = some unit) : sid ≠ serviceId ∧ t.serviceUnit? sid uid = some unit := by
    rw [hunit] at hu
    by_cases he : sid = serviceId
    · simp [he] at hu
    · exact ⟨he, by rwa [if_neg he] at hu⟩
  refine ⟨?_, ?_, ?_, ?_, h.relationRole, ?_, ?_, ?_⟩
  · intro sid uid unit m hu hm
    exact h.unitMachine sid uid unit m (hold sid uid unit hu).2 hm
  · intro sid₁ sid₂ uid unit₁ unit₂ h₁ h₂
    exact h.unitService sid₁ sid₂ uid unit₁ unit₂ (hold _ _ _ h₁).2 (hold _ _ _ h₂).2
  · intro sid₁ sid₂ service₁ service₂ h₁ h₂ he
    simp only [Dict.lookup_insert] at h₁ h₂
    split at h₁ <;> split at h₂
    · simp_all
    · obtain rfl := Option.some.inj h₁
      exact absurd he.symm (hname sid₂ service₂ h₂)
    · obtain rfl := Option.some.inj h₂
      exact absurd he (hname sid₁ service₁ h₁)
    · exact h.serviceName sid₁ sid₂ service₁ service₂ h₁ h₂ he
  · intro rid relation sid hr hsid
    exact (AList.mem_insert _).mpr (Or.inr (h.relationService rid relation sid hr hsid))
  · intro sid uid₁ uid₂ unit₁ unit₂ h₁ h₂ he
    exact h.unitSequence sid uid₁ uid₂ unit₁ unit₂ (hold _ _ _ h₁).2 (hold _ _ _ h₂).2 he
  · intro sid service uid unit hs hu
    obtain ⟨hne, hu⟩ := hold sid uid unit hu
    rw [Dict.lookup_insert, if_neg hne] at hs
    obtain ⟨n, counter, hn, hc, hlt⟩ := h.sequenceBelow sid service uid unit hs hu
    exact ⟨n, counter, hn, hkeep _ _ hc, hlt⟩
  · intro sid service hs
    rw [Dict.lookup_insert] at hs
    split at hs
    · obtain rfl := Option.some.inj hs
      exact hin
    · obtain ⟨n, hn⟩ := (Dict.mem_iff_lookup _ _).mp (h.serviceCounter sid service hs)
      exact (Dict.mem_iff_lookup _ _).mpr ⟨n, hkeep _ _ hn⟩

theorem integrity_removeService (serviceId : String)
    (hfree : ∀ rid relation, t.relations.lookup rid = some relation →
      serviceId ∉ relation.services) :
    Integrity { t with services := t.services.erase serviceId } := by
  have hold (sid uid : String) (unit : ServiceUnit)
      (hu : InternalTopology.serviceUnit? { t with services := t.services.erase serviceId }
        sid uid = some unit) : t.serviceUnit? sid uid = some unit := by
    rw [serviceUnit?_erase t _ serviceId sid uid rfl] at hu
    split at hu
    · simp at hu
    · exact hu
  have hservice (sid : String) (service : Service)
      (hs : (t.services.erase serviceId).lookup sid = some service) :
      t.services.lookup sid = some service := by
    rw [Dict.lookup_erase] at hs
    split at hs
    · simp at hs
    · exact hs
  refine ⟨?_, ?_, ?_, ?_, h.relationRole, ?_, ?_, ?_⟩
  · intro sid uid unit m hu hm
    exact h.unitMachine sid uid unit m (hold _ _ _ hu) hm
  · intro sid₁ sid₂ uid unit₁ unit₂ h₁ h₂
    exact h.unitService sid₁ sid₂ uid unit₁ unit₂ (hold _ _ _ h₁) (hold _ _ _ h₂)
  · intro sid₁ sid₂ service₁ service₂ h₁ h₂ he
    exact h.serviceName sid₁ sid₂ service₁ service₂ (hservice _ _ h₁) (hservice _ _ h₂) he
  · intro rid relation sid hr hsid
    have hne : sid ≠ serviceId := fun he => hfree rid relation hr (he ▸ hsid)
    exact AList.mem_erase.mpr ⟨hne, h.relationService rid relation sid hr hsid⟩
  · intro sid uid₁ uid₂ unit₁ unit₂ h₁ h₂ he
    exact h.unitSequence sid uid₁ uid₂ unit₁ unit₂ (hold _ _ _ h₁) (hold _ _ _ h₂) he
  · intro sid service uid unit hs hu
    exact h.sequenceBelow sid service uid unit (hservice _ _ hs) (hold _ _ _ hu)
  · intro sid service hs
    exact h.serviceCounter sid service (hservice _ _ hs)

/-- The units of a service are written, each an old one or a new one numbered from the counter. -/
theorem integrity_setUnits (serviceId : String) (service : Service)
    (units : Dict String ServiceUnit) (sequences : Dict String Nat)
    (hs : t.services.lookup serviceId = some service)
    (hmachine : ∀ uid unit m, units.lookup uid = some unit → unit.machine = some m →
      m ∈ t.machines)
    (hservice : ∀ uid sid unit, uid ∈ units → t.serviceUnit? sid uid = some unit →
      sid = serviceId)
    (hunique : ∀ uid₁ uid₂ unit₁ unit₂, units.lookup uid₁ = some unit₁ →
      units.lookup uid₂ = some unit₂ → unit₁.sequence = unit₂.sequence → uid₁ = uid₂)
    (hbelow : ∀ uid unit, units.lookup uid = some unit → ∃ n counter,
      unit.sequence = some n ∧ sequences.lookup service.name = some counter ∧ n < counter)
    (hkeep : ∀ name n, t.unitSequence.lookup name = some n →
      ∃ m, sequences.lookup name = some m ∧ n ≤ m) :
    Integrity { t with
      services := t.services.insert serviceId { service with units := units },
      unitSequence := sequences } := by
  have hcases (sid uid : String) (unit : ServiceUnit)
      (hu : InternalTopology.serviceUnit? { t with
        services := t.services.insert serviceId { service with units := units },
        unitSequence := sequences } sid uid = some unit) :
      (sid = serviceId ∧ units.lookup uid = some unit) ∨
        (sid ≠ serviceId ∧ t.serviceUnit? sid uid = some unit) := by
    rw [serviceUnit?_insert t _ serviceId sid uid _ rfl] at hu
    split at hu
    · exact Or.inl ⟨‹_›, hu⟩
    · exact Or.inr ⟨‹_›, hu⟩
  have hname (sid : String) (s : Service)
      (hl : (t.services.insert serviceId { service with units := units }).lookup sid = some s) :
      ∃ old, t.services.lookup sid = some old ∧ old.name = s.name := by
    rw [Dict.lookup_insert] at hl
    split at hl
    · obtain rfl := Option.some.inj hl
      exact ⟨service, by rw [‹sid = serviceId›, hs], rfl⟩
    · exact ⟨s, hl, rfl⟩
  refine ⟨?_, ?_, ?_, ?_, h.relationRole, ?_, ?_, ?_⟩
  · intro sid uid unit m hu hm
    rcases hcases sid uid unit hu with ⟨-, hnew⟩ | ⟨-, hold⟩
    · exact hmachine uid unit m hnew hm
    · exact h.unitMachine sid uid unit m hold hm
  · intro sid₁ sid₂ uid unit₁ unit₂ h₁ h₂
    rcases hcases _ _ _ h₁ with ⟨e₁, n₁⟩ | ⟨-, o₁⟩ <;> rcases hcases _ _ _ h₂ with ⟨e₂, n₂⟩ | ⟨-, o₂⟩
    · exact e₁.trans e₂.symm
    · exact e₁.trans (hservice uid sid₂ unit₂ ((Dict.mem_iff_lookup _ _).mpr ⟨_, n₁⟩) o₂).symm
    · exact (hservice uid sid₁ unit₁ ((Dict.mem_iff_lookup _ _).mpr ⟨_, n₂⟩) o₁).trans e₂.symm
    · exact h.unitService sid₁ sid₂ uid unit₁ unit₂ o₁ o₂
  · intro sid₁ sid₂ service₁ service₂ h₁ h₂ he
    obtain ⟨old₁, hold₁, hn₁⟩ := hname sid₁ service₁ h₁
    obtain ⟨old₂, hold₂, hn₂⟩ := hname sid₂ service₂ h₂
    exact h.serviceName sid₁ sid₂ old₁ old₂ hold₁ hold₂ (by rw [hn₁, hn₂, he])
  · intro rid relation sid hr hsid
    exact (AList.mem_insert _).mpr (Or.inr (h.relationService rid relation sid hr hsid))
  · intro sid uid₁ uid₂ unit₁ unit₂ h₁ h₂ he
    rcases hcases _ _ _ h₁ with ⟨e₁, n₁⟩ | ⟨e₁, o₁⟩ <;> rcases hcases _ _ _ h₂ with ⟨e₂, n₂⟩ | ⟨e₂, o₂⟩
    · exact hunique uid₁ uid₂ unit₁ unit₂ n₁ n₂ he
    · exact absurd e₁ e₂
    · exact absurd e₂ e₁
    · exact h.unitSequence sid uid₁ uid₂ unit₁ unit₂ o₁ o₂ he
  · intro sid s uid unit hl hu
    obtain ⟨old, hold, hn⟩ := hname sid s hl
    rcases hcases sid uid unit hu with ⟨rfl, hnew⟩ | ⟨-, hunit⟩
    · rw [← hn, Option.some.inj (hold.symm.trans hs)]
      exact hbelow uid unit hnew
    · obtain ⟨n, counter, hseq, hc, hlt⟩ := h.sequenceBelow sid old uid unit hold hunit
      obtain ⟨m, hm, hle⟩ := hkeep _ _ hc
      exact ⟨n, m, hseq, hn ▸ hm, by omega⟩
  · intro sid s hl
    obtain ⟨old, hold, hn⟩ := hname sid s hl
    obtain ⟨n, hc⟩ := (Dict.mem_iff_lookup _ _).mp (h.serviceCounter sid old hold)
    obtain ⟨m, hm, -⟩ := hkeep _ _ hc
    exact (Dict.mem_iff_lookup _ _).mpr ⟨m, hn ▸ hm⟩

/-- The units of a service are written, each an old one, perhaps on another machine. -/
theorem integrity_narrowUnits (serviceId : String) (service : Service)
    (units : Dict String ServiceUnit) (hs : t.services.lookup serviceId = some service)
    (hunits : ∀ uid unit, units.lookup uid = some unit → ∃ old,
      service.units.lookup uid = some old ∧ unit.sequence = old.sequence ∧
        ∀ m, unit.machine = some m → m ∈ t.machines) :
    Integrity { t with
      services := t.services.insert serviceId { service with units := units } } := by
  have hlookup (uid : String) := serviceUnit?_lookup t serviceId uid service hs
  apply integrity_setUnits h serviceId service units t.unitSequence hs
  · intro uid unit m hu hm
    obtain ⟨_, -, -, hmachine⟩ := hunits uid unit hu
    exact hmachine m hm
  · intro uid sid unit hin hu
    obtain ⟨unit', hu'⟩ := (Dict.mem_iff_lookup _ _).mp hin
    obtain ⟨old, hold, -⟩ := hunits uid unit' hu'
    exact h.unitService sid serviceId uid unit old hu ((hlookup uid).trans hold)
  · intro uid₁ uid₂ unit₁ unit₂ h₁ h₂ he
    obtain ⟨old₁, hold₁, hseq₁, -⟩ := hunits uid₁ unit₁ h₁
    obtain ⟨old₂, hold₂, hseq₂, -⟩ := hunits uid₂ unit₂ h₂
    exact h.unitSequence serviceId uid₁ uid₂ old₁ old₂ ((hlookup _).trans hold₁)
      ((hlookup _).trans hold₂) (by rw [← hseq₁, ← hseq₂, he])
  · intro uid unit hu
    obtain ⟨old, hold, hseq, -⟩ := hunits uid unit hu
    rw [hseq]
    exact h.sequenceBelow serviceId service uid old hs ((hlookup uid).trans hold)
  · exact fun name n hn => ⟨n, hn, le_rfl⟩

end writes

end Juju.State

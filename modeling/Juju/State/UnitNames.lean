import Juju.State.TopologyCalls

namespace Juju.State
open Juju.Base

/-- The user-visible name of a unit, `"%s/%s" % (service_name, unit_sequence)`. -/
def unitName (serviceName : String) (sequence : Nat) : String :=
  serviceName ++ "/" ++ toString sequence

def getServiceUnitName (serviceId unitId : String) : TopologyM String := do
  assertServiceUnit serviceId unitId
  let t ← get
  match t.services.lookup serviceId, t.serviceUnit? serviceId unitId with
  | some service, some unit =>
    match unit.sequence with
    | some sequence => pure (unitName service.name sequence)
    | none => throw (.keyError "sequence")
  | _, _ => throw (.keyError serviceId)

structure IncompatibleVersion where
  current : Nat
  wanted : Nat

/-- `parse`; no migration plan is left, so that an older version is refused. -/
def parse {Data : Type} (load : Data → InternalTopology) (data : Data) :
    EStateM IncompatibleVersion InternalTopology Unit := do
  set (load data)
  let t ← get
  raiseIf (t.version < freshTopology.version) ⟨t.version, freshTopology.version⟩
  pure ()

/-- One thing done to a topology that may go through its stored form. -/
inductive TopologyStep where
  | call (c : TopologyCall)
  | roundTrip

section run

variable {Data : Type} (dump : InternalTopology → Data) (load : Data → InternalTopology)

def TopologyStep.run (t : InternalTopology) : TopologyStep → InternalTopology
  | .call c => Juju.State.call t c
  | .roundTrip => leaves (parse load (dump t) t)

/-- The name of the unit that a step has added, read off the topology it leaves. -/
def TopologyStep.issued (t : InternalTopology) : TopologyStep → Option String
  | .call (.addServiceUnit serviceId unitId containerId) =>
    match addServiceUnit serviceId unitId containerId t with
    | .error _ _ => none
    | .ok _ t' =>
      match getServiceUnitName serviceId unitId t' with
      | .error _ _ => none
      | .ok name _ => some name
  | _ => none

def issuedNames (t : InternalTopology) : List TopologyStep → List String
  | [] => []
  | step :: steps =>
    (step.issued t).toList ++ issuedNames (step.run dump load t) steps

end run

/-- The sequence number is what follows the last slash. -/
theorem unitName_injective (name₁ name₂ : String) (n₁ n₂ : Nat)
    (h : unitName name₁ n₁ = unitName name₂ n₂) : name₁ = name₂ ∧ n₁ = n₂ := by
  have hslash (n : Nat) : '/' ∉ Nat.toDigits 10 n := by
    intro hin
    have hdigit := Nat.isDigit_of_mem_toDigits (by omega) (by omega) hin
    simp at hdigit
  have hlist := congrArg String.toList h
  simp only [unitName, String.toList_append, List.append_assoc, Nat.toString_eq_repr,
    Nat.toList_repr] at hlist
  have hboth : name₁.toList = name₂.toList ∧ Nat.toDigits 10 n₁ = Nat.toDigits 10 n₂ := by
    rcases List.append_eq_append_iff.mp hlist with ⟨a, ha, hb⟩ | ⟨a, ha, hb⟩
    · cases a with
      | nil => simpa [ha] using hb
      | cons c a =>
        have hin : '/' ∈ Nat.toDigits 10 n₁ := by
          rw [show Nat.toDigits 10 n₁ = a ++ ('/' :: Nat.toDigits 10 n₂) from
            (List.cons.inj hb).2]
          simp
        exact absurd hin (hslash n₁)
    · cases a with
      | nil => simpa [ha] using hb.symm
      | cons c a =>
        have hin : '/' ∈ Nat.toDigits 10 n₂ := by
          rw [show Nat.toDigits 10 n₂ = a ++ ('/' :: Nat.toDigits 10 n₁) from
            (List.cons.inj hb).2]
          simp
        exact absurd hin (hslash n₂)
  have hdigits := congrArg (fun digits => Nat.ofDigitChars 10 digits 0) hboth.2
  exact ⟨String.toList_injective hboth.1, by simpa using hdigits⟩

/-- No counter is lost or set back between two topologies. -/
def CountersGrow (t t' : InternalTopology) : Prop :=
  ∀ name n, t.unitSequence.lookup name = some n →
    ∃ m, t'.unitSequence.lookup name = some m ∧ n ≤ m

theorem countersGrow_refl (t : InternalTopology) : CountersGrow t t :=
  fun _ n hn => ⟨n, hn, le_rfl⟩

theorem countersGrow_of_eq (t t' : InternalTopology) (h : t'.unitSequence = t.unitSequence) :
    CountersGrow t t' :=
  fun _ n hn => ⟨n, h ▸ hn, le_rfl⟩

theorem countersGrow_insert (t : InternalTopology) (services : Dict String Service)
    (serviceName : String) (n : Nat)
    (h : ∀ k, t.unitSequence.lookup serviceName = some k → k ≤ n) :
    CountersGrow t
      { t with services := services, unitSequence := t.unitSequence.insert serviceName n } := by
  intro name k hk
  rw [Dict.lookup_insert]
  by_cases he : name = serviceName
  · rw [if_pos he]
    exact ⟨n, rfl, h k (he ▸ hk)⟩
  · rw [if_neg he]
    exact ⟨k, hk, le_rfl⟩

/-- A counter stays as it is, or moves past the number that a new unit gets. -/
theorem call_countersGrow (t : InternalTopology) (c : TopologyCall) :
    CountersGrow t (call t c) := by
  have heffect := call_effect t c
  generalize call t c = t' at heffect
  cases heffect with
  | serviceAdded serviceId serviceName sequences _ _ hkeep _ =>
    intro name n hn
    exact ⟨n, hkeep name n hn, le_rfl⟩
  | unitAdded serviceId unitId containerId service n _ hn _ _ =>
    apply countersGrow_insert
    intro k hk
    have hkn : n = k := Option.some.inj (hn.symm.trans hk)
    omega
  | _ => exact countersGrow_of_eq _ _ rfl

section names

/-- Every name in the list was given out by a counter that has moved past it. -/
def Counted (t : InternalTopology) (names : List String) : Prop :=
  ∀ name ∈ names, ∃ serviceName n counter, name = unitName serviceName n ∧
    t.unitSequence.lookup serviceName = some counter ∧ n < counter

theorem counted_grow (t t' : InternalTopology) (names : List String) (h : CountersGrow t t')
    (hn : Counted t names) : Counted t' names := by
  intro name hin
  obtain ⟨serviceName, n, counter, he, hc, hlt⟩ := hn name hin
  obtain ⟨counter', hc', hle⟩ := h serviceName counter hc
  exact ⟨serviceName, n, counter', he, hc', by omega⟩

/-- A unit that is added is named after its service and the counter of that name. -/
theorem addServiceUnit_issued (t t' : InternalTopology) (serviceId unitId : String)
    (containerId : Option String) (n : Nat) (h : Integrity t)
    (hrun : addServiceUnit serviceId unitId containerId t = .ok n t') :
    ∃ service, t.services.lookup serviceId = some service ∧
      t.unitSequence.lookup service.name = some n ∧
      t'.unitSequence.lookup service.name = some (n + 1) ∧
      getServiceUnitName serviceId unitId t' = .ok (unitName service.name n) t' := by
  rcases addServiceUnit_cases serviceId unitId containerId t with ⟨e, he⟩ | ⟨service, hs, -, -, hnum⟩
  · rw [he] at hrun
    simp at hrun
  · obtain ⟨k, hk⟩ := (Dict.mem_iff_lookup _ _).mp (h.serviceCounter serviceId service hs)
    rw [hnum, numberUnit_run _ _ _ _ _ _ hs hk] at hrun
    injection hrun with hkn ht
    subst hkn
    subst ht
    refine ⟨service, hs, hk, by rw [Dict.lookup_insert, if_pos rfl], ?_⟩
    simp [getServiceUnitName, InternalTopology.serviceUnit?]

variable {Data : Type} (dump : InternalTopology → Data) (load : Data → InternalTopology)

/-- A name that a step gives out is not among those given out before. -/
theorem issued_new (t : InternalTopology) (step : TopologyStep) (names : List String)
    (h : Integrity t) (hc : Counted t names) (name : String)
    (hname : step.issued t = some name) :
    name ∉ names ∧ Counted (step.run dump load t) [name] := by
  cases step with
  | roundTrip => simp [TopologyStep.issued] at hname
  | call c =>
    cases c with
    | addServiceUnit serviceId unitId containerId =>
      cases hrun : addServiceUnit serviceId unitId containerId t with
      | error e t' => simp [TopologyStep.issued, hrun] at hname
      | ok n t' =>
        obtain ⟨service, hs, hn, hn', hget⟩ := addServiceUnit_issued t t' _ _ _ n h hrun
        have he : name = unitName service.name n := by
          simpa [TopologyStep.issued, hrun, hget] using hname.symm
        constructor
        · intro hin
          obtain ⟨serviceName, m, counter, hm, hcounter, hlt⟩ := hc name hin
          obtain ⟨hsame, hmn⟩ := unitName_injective _ _ _ _ (he.symm.trans hm)
          rw [← hsame, hn] at hcounter
          have hlast : n = counter := Option.some.inj hcounter
          omega
        · intro name' hin
          rw [List.mem_singleton.mp hin, he]
          refine ⟨service.name, n, n + 1, rfl, ?_, by omega⟩
          simpa [TopologyStep.run, call, hrun] using hn'
    | _ => simp [TopologyStep.issued] at hname

variable (hload : ∀ t, load (dump t) = t)
include hload

theorem run_integrity (t : InternalTopology) (step : TopologyStep) (h : Integrity t) :
    Integrity (step.run dump load t) := by
  cases step with
  | call c => exact call_integrity h c
  | roundTrip =>
    simp only [TopologyStep.run, parse, set_bind, get_bind, raiseIf_bind, hload, pure_run]
    split <;> exact h

theorem run_countersGrow (t : InternalTopology) (step : TopologyStep) :
    CountersGrow t (step.run dump load t) := by
  cases step with
  | call c => exact call_countersGrow t c
  | roundTrip =>
    simp only [TopologyStep.run, parse, set_bind, get_bind, raiseIf_bind, hload, pure_run]
    split <;> exact countersGrow_refl t

theorem issuedNames_new (t : InternalTopology) (steps : List TopologyStep)
    (names : List String) (h : Integrity t) (hc : Counted t names) :
    (issuedNames dump load t steps).Nodup ∧
      ∀ name ∈ issuedNames dump load t steps, name ∉ names := by
  induction steps generalizing t names with
  | nil => simp [issuedNames]
  | cons step steps ih =>
    have hstep := run_integrity dump load hload t step h
    have hgrow := counted_grow t _ names (run_countersGrow dump load hload t step) hc
    cases hi : step.issued t with
    | none => simpa [issuedNames, hi] using ih _ names hstep hgrow
    | some name =>
      obtain ⟨hnew, hcount⟩ := issued_new dump load t step names h hc name hi
      have hall : Counted (step.run dump load t) (name :: names) := by
        intro name' hin
        rcases List.mem_cons.mp hin with rfl | hin
        · exact hcount name' (List.mem_singleton.mpr rfl)
        · exact hgrow name' hin
      obtain ⟨hnodup, hrest⟩ := ih _ (name :: names) hstep hall
      simp only [issuedNames, hi, Option.toList_some, List.singleton_append]
      constructor
      · refine List.nodup_cons.mpr ⟨fun hin => ?_, hnodup⟩
        exact hrest name hin (List.mem_cons_self ..)
      · intro name' hin
        rcases List.mem_cons.mp hin with rfl | hin
        · exact hnew
        · exact fun hold => hrest name' hin (List.mem_cons_of_mem _ hold)

/-- No two units that are ever added, in any run from a fresh topology, share their name. -/
theorem issuedNames_nodup (steps : List TopologyStep) :
    (issuedNames dump load freshTopology steps).Nodup :=
  (issuedNames_new dump load hload freshTopology steps [] freshTopology_integrity
    (by simp [Counted])).1

end names

/-- A service is removed and added again under its name. -/
def readded : List TopologyStep :=
  [.call (.addService "service-0" "mysql"), .call (.addServiceUnit "service-0" "unit-0" none),
    .roundTrip, .call (.removeService "service-0"), .call (.addService "service-1" "mysql"),
    .call (.addServiceUnit "service-1" "unit-1" none)]

theorem issuedNames_nodup_readded :
    issuedNames id id freshTopology readded = ["mysql/0", "mysql/1"] ∧
      (issuedNames id id freshTopology readded).Nodup :=
  ⟨by decide, issuedNames_nodup id id (fun _ => rfl) readded⟩

end Juju.State

import Juju.State.Containers

namespace Juju.State
open Juju.Base

/-- The id that ZooKeeper's sequence number gives a machine, `"machine-%010d"`. -/
def internalMachineId (n : Nat) : String :=
  "machine-" ++ String.ofList ((Nat.toDigits 10 n).leftpad 10 '0')

/-- `_public_machine_id`: `int(internal_id.rsplit("-", 1)[1])`, where that does not raise. -/
def publicMachineId (internalId : String) : Option Nat :=
  let sequence := (internalId.toList.reverse.takeWhile (· ≠ '-')).reverse
  if '-' ∈ internalId.toList ∧ sequence ≠ [] ∧ sequence.all Char.isDigit then
    some (Nat.ofDigitChars 10 sequence 0)
  else none

inductive MachineUnitError where
  | topology (e : TopologyError)
  | stateChanged
  | container (e : UnitRelationError)
  | badMachineId (internalId : String)
  | serviceStateNotFound (serviceName : String)

/-- What reads of an unchanging topology return: a unit that is assigned by way of its container
is asked for after it, as long as there is fuel. -/
def getAssignedMachineId (t : InternalTopology) :
    Nat → ServiceUnitState → Option (Except MachineUnitError (Option Nat))
  | 0, _ => none
  | fuel + 1, u =>
    match t.serviceUnit? u.internalServiceId u.internalId with
    | none => some (.error .stateChanged)
    | some unit =>
      match unit.machine with
      | some machineId =>
        match publicMachineId machineId with
        | some n => some (.ok (some n))
        | none => some (.error (.badMachineId machineId))
      | none =>
        match u.getContainer t with
        | .error e => some (.error (.container e))
        | .ok none => some (.ok none)
        | .ok (some container) => getAssignedMachineId t fuel container

def InternalTopology.unitsInMachine (t : InternalTopology) (machineId : String) : List String :=
  t.services.entries.flatMap fun s =>
    (s.2.units.entries.filter fun u => u.2.machine = some machineId).map Sigma.fst

def getServiceUnitsInMachine (machineId : String) : TopologyM (List String) := do
  assertMachine machineId
  let t ← get
  pure (t.unitsInMachine machineId)

def getServiceName (serviceId : String) : TopologyM String := do
  assertService serviceId
  let t ← get
  match t.services.lookup serviceId with
  | none => throw (.keyError serviceId)
  | some service => pure service.name

def getServiceUnitSequence (serviceId unitId : String) : TopologyM Nat := do
  assertServiceUnit serviceId unitId
  let t ← get
  match (t.serviceUnit? serviceId unitId).bind ServiceUnit.sequence with
  | none => throw (.keyError "sequence")
  | some sequence => pure sequence

/-- The states of units, found by their ids. -/
def serviceUnitStates : List String → TopologyM (List ServiceUnitState)
  | [] => pure []
  | unitId :: unitIds => do
    let serviceId ← getServiceUnitService unitId
    let serviceName ← getServiceName serviceId
    let sequence ← getServiceUnitSequence serviceId unitId
    let states ← serviceUnitStates unitIds
    pure (⟨serviceId, serviceName, sequence, unitId⟩ :: states)

def getAllServiceUnitStates (machineId : String) : TopologyM (List ServiceUnitState) := do
  let unitIds ← getServiceUnitsInMachine machineId
  serviceUnitStates unitIds

/-- The ports that `open_close_ports_on_machine` wants open for the units of a machine, where
`exposed` and `openPorts` read the nodes of services and units. -/
def policyPorts (t : InternalTopology) (exposed : String → Bool)
    (openPorts : String → List (Nat × String)) :
    List ServiceUnitState → Except MachineUnitError (List (Nat × String))
  | [] => .ok []
  | u :: units =>
    match t.findServiceWithName u.serviceName with
    | none => .error (.serviceStateNotFound u.serviceName)
    | some serviceId =>
      (policyPorts t exposed openPorts units).map fun ports =>
        (if exposed serviceId then openPorts u.internalId else []) ++ ports

def openClosePortsOnMachine (t : InternalTopology) (exposed : String → Bool)
    (openPorts : String → List (Nat × String)) (machineId : String) :
    Except MachineUnitError (List (Nat × String)) :=
  match getAllServiceUnitStates machineId t with
  | .error e _ => .error (.topology e)
  | .ok units _ => policyPorts t exposed openPorts units

/-- The state that a manager makes for a unit of the topology. -/
def InternalTopology.unitState (t : InternalTopology) (serviceId unitId : String) :
    Option ServiceUnitState :=
  (t.services.lookup serviceId).bind fun service =>
    ((service.units.lookup unitId).bind ServiceUnit.sequence).map fun sequence =>
      ⟨serviceId, service.name, sequence, unitId⟩

/-- A unit, known by its id, and the unit that it names as its container. -/
def ContainedIn (t : InternalTopology) (unitId containerId : String) : Prop :=
  ∃ sid unit psid, t.serviceUnit? sid unitId = some unit ∧ unit.container = some containerId ∧
    t.serviceUnit? psid containerId ≠ none

/-- A unit has no machine of its own, and one that contains it has. -/
def Housed (t : InternalTopology) (unitId : String) : Prop :=
  (∀ sid unit, t.serviceUnit? sid unitId = some unit → unit.machine = none) ∧
    ∃ principal sid unit, Relation.TransGen (ContainedIn t) unitId principal ∧
      t.serviceUnit? sid principal = some unit ∧ unit.machine ≠ none

/-- `get_assigned_machine_id` of a unit returns `n`. -/
def AssignedTo (t : InternalTopology) (u : ServiceUnitState) (n : Nat) : Prop :=
  ∃ fuel, getAssignedMachineId t fuel u = some (.ok (some n))

/-- A unit is listed among those of machine `n`. -/
def ListedIn (t : InternalTopology) (u : ServiceUnitState) (n : Nat) : Prop :=
  ∃ states, getAllServiceUnitStates (internalMachineId n) t = .ok states t ∧ u ∈ states

section ids

theorem toDigits_isDigit (n : Nat) (c : Char)
    (h : c ∈ (Nat.toDigits 10 n).leftpad 10 '0') : c.isDigit := by
  rw [List.leftpad, List.mem_append] at h
  rcases h with h | h
  · rw [List.eq_of_mem_replicate h]
    rfl
  · exact Nat.isDigit_of_mem_toDigits (by omega) (by omega) h

theorem publicMachineId_internal (n : Nat) : publicMachineId (internalMachineId n) = some n := by
  have hdigits := toDigits_isDigit n
  have hvalue : Nat.ofDigitChars 10 ((Nat.toDigits 10 n).leftpad 10 '0') 0 = n := by
    rw [List.leftpad, Nat.ofDigitChars_append, Nat.ofDigitChars_replicate_zero]
    simp
  have hne : (Nat.toDigits 10 n).leftpad 10 '0' ≠ [] := by
    intro hnil
    have hlength := List.length_leftpad (n := 10) (a := '0') (l := Nat.toDigits 10 n)
    rw [hnil] at hlength
    simp at hlength
    omega
  have hlist : (internalMachineId n).toList =
      "machine-".toList ++ (Nat.toDigits 10 n).leftpad 10 '0' := by
    simp [internalMachineId]
  generalize (Nat.toDigits 10 n).leftpad 10 '0' = digits at *
  have hkept : ∀ c ∈ digits.reverse, decide (c ≠ '-') = true := by
    intro c hc
    have hdigit := hdigits c (List.mem_reverse.mp hc)
    apply decide_eq_true
    rintro rfl
    cases hdigit
  have hsequence :
      ((internalMachineId n).toList.reverse.takeWhile (· ≠ '-')).reverse = digits := by
    rw [hlist, List.reverse_append, List.takeWhile_append_of_pos hkept]
    simp
  have hall : digits.all Char.isDigit = true := List.all_eq_true.mpr hdigits
  rw [publicMachineId, hsequence, if_pos ⟨by simp [hlist], hne, hall⟩, hvalue]

theorem internalMachineId_injective (n m : Nat) (h : internalMachineId n = internalMachineId m) :
    n = m := by
  have hn := publicMachineId_internal n
  rw [h, publicMachineId_internal m] at hn
  exact (Option.some.inj hn).symm

end ids

section agreement

variable {t : InternalTopology} (h : Integrity t)
include h

theorem unitState_spec (sid uid : String) (unit : ServiceUnit)
    (hunit : t.serviceUnit? sid uid = some unit) :
    ∃ service n, t.services.lookup sid = some service ∧ unit.sequence = some n ∧
      t.unitState sid uid = some ⟨sid, service.name, n, uid⟩ := by
  obtain ⟨service, hs, hu⟩ := Option.bind_eq_some_iff.mp hunit
  obtain ⟨n, -, hn, -⟩ := h.sequenceBelow sid service uid unit hs hunit
  refine ⟨service, n, hs, hn, ?_⟩
  simp [InternalTopology.unitState, hs, hu, hn]

/-- The units of a machine, each found again by its id. -/
theorem serviceUnitStates_spec (unitIds : List String)
    (hin : ∀ uid ∈ unitIds, ∃ sid, t.serviceUnit? sid uid ≠ none) :
    ∃ states, serviceUnitStates unitIds t = .ok states t ∧
      ∀ u, u ∈ states ↔ ∃ uid ∈ unitIds, ∃ sid, t.unitState sid uid = some u := by
  induction unitIds with
  | nil => exact ⟨[], rfl, by simp⟩
  | cons uid unitIds ih =>
    obtain ⟨states, hstates, hmem⟩ := ih fun uid huid => hin uid (List.mem_cons_of_mem _ huid)
    obtain ⟨sid, hsid⟩ := hin uid List.mem_cons_self
    obtain ⟨unit, hunit⟩ := Option.ne_none_iff_exists'.mp hsid
    obtain ⟨service, n, hs, hn, hstate⟩ := unitState_spec h sid uid unit hunit
    have hu : service.units.lookup uid = some unit := by
      rw [← serviceUnit?_lookup t sid uid service hs, hunit]
    have hin' : sid ∈ t.services := (Dict.mem_iff_lookup _ _).mpr ⟨service, hs⟩
    refine ⟨⟨sid, service.name, n, uid⟩ :: states, ?_, fun u => ?_⟩
    · rw [serviceUnitStates,
        bind_of_ok _ _ _ _ _ (getServiceUnitService_unit h sid uid service unit hs hu),
        bind_of_ok _ _ t t service.name (by simp [getServiceName, hin', hs]),
        bind_of_ok _ _ t t n (by simp [getServiceUnitSequence, hin', hunit, hn]),
        bind_of_ok _ _ _ _ _ hstates]
      rfl
    · have hsame (sid' : String) (hstate' : t.unitState sid' uid = some u) : sid' = sid := by
        obtain ⟨service', hs', hmap⟩ := Option.bind_eq_some_iff.mp hstate'
        obtain ⟨n', hn', -⟩ := Option.map_eq_some_iff.mp hmap
        obtain ⟨unit', hu', -⟩ := Option.bind_eq_some_iff.mp hn'
        exact h.unitService sid' sid uid unit' unit
          ((serviceUnit?_lookup t sid' uid service' hs').trans hu') hunit
      rw [List.mem_cons, hmem, List.exists_mem_cons_iff]
      refine or_congr_left ⟨fun heq => ⟨sid, heq ▸ hstate⟩, fun ⟨sid', hstate'⟩ => ?_⟩
      rw [hsame sid' hstate', hstate] at hstate'
      exact (Option.some.inj hstate').symm

omit h in
theorem mem_unitsInMachine (machineId uid : String) :
    uid ∈ t.unitsInMachine machineId ↔
      ∃ sid unit, t.serviceUnit? sid uid = some unit ∧ unit.machine = some machineId := by
  simp only [InternalTopology.unitsInMachine, List.mem_flatMap, List.mem_map, List.mem_filter,
    decide_eq_true_eq]
  constructor
  · rintro ⟨s, hs, e, ⟨he, hm⟩, rfl⟩
    have hservice := (Dict.mem_entries_iff t.services s).mp hs
    refine ⟨s.1, e.2, ?_, hm⟩
    rw [serviceUnit?_lookup t s.1 e.1 s.2 hservice]
    exact (Dict.mem_entries_iff s.2.units e).mp he
  · rintro ⟨sid, unit, hunit, hm⟩
    obtain ⟨service, hs, hu⟩ := Option.bind_eq_some_iff.mp hunit
    exact ⟨⟨sid, service⟩, (Dict.mem_entries_iff _ _).mpr hs, ⟨uid, unit⟩,
      ⟨(Dict.mem_entries_iff _ _).mpr hu, hm⟩, rfl⟩

/-- The units of a machine are listed. -/
theorem getAllServiceUnitStates_spec (machineId : String) (hin : machineId ∈ t.machines) :
    ∃ states, getAllServiceUnitStates machineId t = .ok states t ∧
      ∀ u, u ∈ states ↔ ∃ sid uid unit, t.serviceUnit? sid uid = some unit ∧
        unit.machine = some machineId ∧ t.unitState sid uid = some u := by
  obtain ⟨states, hstates, hmem⟩ := serviceUnitStates_spec h (t.unitsInMachine machineId)
    fun uid huid => by
      obtain ⟨sid, unit, hunit, -⟩ := (mem_unitsInMachine machineId uid).mp huid
      exact ⟨sid, by simp [hunit]⟩
  refine ⟨states, ?_, fun u => ?_⟩
  · have hids : getServiceUnitsInMachine machineId t = .ok (t.unitsInMachine machineId) t := by
      rw [getServiceUnitsInMachine, assertMachine_bind, if_pos hin, get_bind, pure_run]
    rw [getAllServiceUnitStates, bind_of_ok _ _ _ _ _ hids, hstates]
  · rw [hmem]
    constructor
    · rintro ⟨uid, huid, sid, hstate⟩
      obtain ⟨sid', unit, hunit, hm⟩ := (mem_unitsInMachine machineId uid).mp huid
      obtain ⟨service, hs, hmap⟩ := Option.bind_eq_some_iff.mp hstate
      obtain ⟨n, hn, -⟩ := Option.map_eq_some_iff.mp hmap
      obtain ⟨unit', hu, -⟩ := Option.bind_eq_some_iff.mp hn
      have hunit' := (serviceUnit?_lookup t sid uid service hs).trans hu
      obtain rfl := h.unitService sid sid' uid unit' unit hunit' hunit
      exact ⟨sid, uid, unit, hunit, hm, hstate⟩
    · rintro ⟨sid, uid, unit, hunit, hm, hstate⟩
      exact ⟨uid, (mem_unitsInMachine machineId uid).mpr ⟨sid, unit, hunit, hm⟩, sid, hstate⟩

omit h in
theorem unitState_ids (sid uid : String) (u : ServiceUnitState)
    (hu : t.unitState sid uid = some u) : u.internalServiceId = sid ∧ u.internalId = uid := by
  obtain ⟨service, -, hmap⟩ := Option.bind_eq_some_iff.mp hu
  obtain ⟨n, -, rfl⟩ := Option.map_eq_some_iff.mp hmap
  exact ⟨rfl, rfl⟩

/-- A unit is listed just when the machine is its own. -/
theorem listedIn_iff (n : Nat) (hin : internalMachineId n ∈ t.machines) (sid uid : String)
    (unit : ServiceUnit) (u : ServiceUnitState) (hunit : t.serviceUnit? sid uid = some unit)
    (hu : t.unitState sid uid = some u) :
    ListedIn t u n ↔ unit.machine = some (internalMachineId n) := by
  obtain ⟨states, hstates, hmem⟩ := getAllServiceUnitStates_spec h (internalMachineId n) hin
  constructor
  · rintro ⟨states', hstates', hlisted⟩
    rw [hstates] at hstates'
    injection hstates' with hsame
    subst hsame
    obtain ⟨sid', uid', unit', hunit', hm, hstate⟩ := (hmem u).mp hlisted
    obtain ⟨rfl, rfl⟩ := unitState_ids sid uid u hu
    obtain ⟨rfl, rfl⟩ := unitState_ids sid' uid' u hstate
    obtain rfl := Option.some.inj (hunit'.symm.trans hunit)
    exact hm
  · intro hm
    exact ⟨states, hstates, (hmem u).mpr ⟨sid, uid, unit, hunit, hm, hu⟩⟩

/-- What `get_container` finds: the unit's container, if that is in the topology. -/
theorem getContainer_cases (sid uid : String) (unit : ServiceUnit) (u : ServiceUnitState)
    (hunit : t.serviceUnit? sid uid = some unit) (hu : t.unitState sid uid = some u) :
    u.getContainer t = .ok none ∧ (∀ c, ¬ ContainedIn t uid c) ∨
      ∃ c psid unit' container, ContainedIn t uid c ∧ t.serviceUnit? psid c = some unit' ∧
        t.unitState psid c = some container ∧ u.getContainer t = .ok (some container) := by
  obtain ⟨rfl, rfl⟩ := unitState_ids sid uid u hu
  have hunique (c : String) (hc : ContainedIn t u.internalId c) :
      unit.container = some c ∧ ∃ psid, t.serviceUnit? psid c ≠ none := by
    obtain ⟨sid', unit', psid, hunit', hc, hpsid⟩ := hc
    obtain rfl := h.unitService _ _ _ _ _ hunit' hunit
    obtain rfl := Option.some.inj (hunit'.symm.trans hunit)
    exact ⟨hc, psid, hpsid⟩
  cases hc : unit.container with
  | none =>
    refine Or.inl ⟨?_, fun c hcontained => ?_⟩
    · rw [ServiceUnitState.getContainer, read, getServiceUnitContainer_none h _ _ unit hunit hc]
    · rw [(hunique c hcontained).1] at hc
      cases hc
  | some c =>
    by_cases hpresent : ∃ psid, t.serviceUnit? psid c ≠ none
    · obtain ⟨psid, hpsid⟩ := hpresent
      obtain ⟨service, principal, n, hs, hprincipal, hn, hfound⟩ :=
        getServiceUnitContainer_present h _ _ unit hunit c hc psid hpsid
      refine Or.inr ⟨c, psid, principal, ⟨psid, service.name, n, c⟩,
        ⟨u.internalServiceId, unit, psid, hunit, hc, hpsid⟩, ?_, ?_, ?_⟩
      · rw [serviceUnit?_lookup t psid c service hs, hprincipal]
      · simp [InternalTopology.unitState, hs, hprincipal, hn]
      · rw [ServiceUnitState.getContainer, read, hfound]
    · refine Or.inl ⟨?_, fun c' hcontained => ?_⟩
      · have hfind : t.services.entries.find? (fun e => c ∈ e.2.units) = none := by
          rw [List.find?_eq_none]
          intro e he
          have hs := (Dict.mem_entries_iff t.services e).mp he
          intro hin
          obtain ⟨unit', hu'⟩ := (Dict.mem_iff_lookup _ _).mp (of_decide_eq_true hin)
          exact hpresent ⟨e.1, by simp [serviceUnit?_lookup t e.1 c e.2 hs, hu']⟩
        obtain ⟨service, hs, hu'⟩ := Option.bind_eq_some_iff.mp hunit
        rw [ServiceUnitState.getContainer, read, getServiceUnitContainer,
          bind_of_ok _ _ _ _ _ (getServiceUnitPrincipal_unit h _ _ service unit hs hu'), hc]
        simp [bind_run, getServiceUnitService, hfind]
      · obtain ⟨hsame, hpsid⟩ := hunique c' hcontained
        rw [hc] at hsame
        obtain rfl := Option.some.inj hsame
        exact hpresent hpsid

omit h in
theorem unitState_some (sid uid : String) (u : ServiceUnitState)
    (hu : t.unitState sid uid = some u) : ∃ unit, t.serviceUnit? sid uid = some unit := by
  obtain ⟨service, hs, hmap⟩ := Option.bind_eq_some_iff.mp hu
  obtain ⟨n, hn, -⟩ := Option.map_eq_some_iff.mp hmap
  obtain ⟨unit, hunit, -⟩ := Option.bind_eq_some_iff.mp hn
  exact ⟨unit, (serviceUnit?_lookup t sid uid service hs).trans hunit⟩

/-- Whoever is assigned has a machine, or is contained in a unit that has. -/
theorem assigned_machine (fuel : Nat) (sid uid : String) (unit : ServiceUnit)
    (u : ServiceUnitState) (n : Nat) (hunit : t.serviceUnit? sid uid = some unit)
    (hu : t.unitState sid uid = some u)
    (hassigned : getAssignedMachineId t fuel u = some (.ok (some n))) :
    (∃ m, unit.machine = some m ∧ publicMachineId m = some n) ∨
      unit.machine = none ∧ ∃ principal sid' unit', Relation.TransGen (ContainedIn t) uid principal ∧
        t.serviceUnit? sid' principal = some unit' ∧ unit'.machine ≠ none := by
  induction fuel generalizing sid uid unit u with
  | zero => cases hassigned
  | succ fuel ih =>
    have hids := unitState_ids sid uid u hu
    rw [getAssignedMachineId, hids.1, hids.2, hunit] at hassigned
    dsimp only at hassigned
    cases hm : unit.machine with
    | some m =>
      rw [hm] at hassigned
      dsimp only at hassigned
      split at hassigned
      · rename_i k hk
        simp only [Option.some.injEq, Except.ok.injEq] at hassigned
        exact Or.inl ⟨m, rfl, hassigned ▸ hk⟩
      · cases hassigned
    | none =>
      rw [hm] at hassigned
      dsimp only at hassigned
      rcases getContainer_cases h sid uid unit u hunit hu with
        ⟨hnone, -⟩ | ⟨c, psid, unit', container, hcontained, hunit', hstate, hfound⟩
      · rw [hnone] at hassigned
        cases hassigned
      · rw [hfound] at hassigned
        refine Or.inr ⟨rfl, ?_⟩
        rcases ih psid c unit' container hunit' hstate hassigned with
          ⟨m, hm', -⟩ | ⟨-, principal, sid', unit₂, hchain, hunit₂, hm'⟩
        · exact ⟨c, psid, unit', .single hcontained, hunit', by simp [hm']⟩
        · exact ⟨principal, sid', unit₂, .head hcontained hchain, hunit₂, hm'⟩

theorem containedIn_unique (uid c c' : String) (hc : ContainedIn t uid c)
    (hc' : ContainedIn t uid c') : c = c' := by
  obtain ⟨sid, unit, -, hunit, hcontainer, -⟩ := hc
  obtain ⟨sid', unit', -, hunit', hcontainer', -⟩ := hc'
  obtain rfl := h.unitService _ _ _ _ _ hunit hunit'
  obtain rfl := Option.some.inj (hunit.symm.trans hunit')
  exact Option.some.inj (hcontainer.symm.trans hcontainer')

variable (hsequenced : ∀ m ∈ t.machines, ∃ n, m = internalMachineId n)
include hsequenced

/-- A unit with a machine of its own is assigned to that alone. -/
theorem assignedTo_own (sid uid : String) (unit : ServiceUnit) (u : ServiceUnitState) (n : Nat)
    (m : String) (hunit : t.serviceUnit? sid uid = some unit) (hu : t.unitState sid uid = some u)
    (hm : unit.machine = some m) : AssignedTo t u n ↔ m = internalMachineId n := by
  obtain ⟨k, rfl⟩ := hsequenced m (h.unitMachine sid uid unit m hunit hm)
  constructor
  · rintro ⟨fuel, hassigned⟩
    rcases assigned_machine h fuel sid uid unit u n hunit hu hassigned with
      ⟨m', hm', hpublic⟩ | ⟨hnone, -⟩
    · rw [hm] at hm'
      obtain rfl := Option.some.inj hm'
      rw [publicMachineId_internal] at hpublic
      rw [Option.some.inj hpublic]
    · rw [hm] at hnone
      cases hnone
  · intro hsame
    obtain rfl := internalMachineId_injective k n hsame
    have hids := unitState_ids sid uid u hu
    refine ⟨1, ?_⟩
    rw [getAssignedMachineId, hids.1, hids.2, hunit]
    simp [hm, publicMachineId_internal]

theorem assignedTo_next (sid uid : String) (u : ServiceUnitState) (hu : t.unitState sid uid = some u)
    (c : String) (hcontained : ContainedIn t uid c)
    (hnext : ∀ psid container, t.unitState psid c = some container →
      ∃ n, internalMachineId n ∈ t.machines ∧ AssignedTo t container n) :
    ∃ n, internalMachineId n ∈ t.machines ∧ AssignedTo t u n := by
  obtain ⟨unit, hunit⟩ := unitState_some sid uid u hu
  cases hm : unit.machine with
  | some m =>
    have hin := h.unitMachine sid uid unit m hunit hm
    obtain ⟨n, rfl⟩ := hsequenced m hin
    exact ⟨n, hin, (assignedTo_own h hsequenced sid uid unit u n _ hunit hu hm).mpr rfl⟩
  | none =>
    rcases getContainer_cases h sid uid unit u hunit hu with
      ⟨-, hnone⟩ | ⟨c', psid, unit', container, hcontained', hunit', hstate, hfound⟩
    · exact absurd hcontained (hnone c)
    · obtain rfl := containedIn_unique h uid c c' hcontained hcontained'
      obtain ⟨n, hin, fuel, hassigned⟩ := hnext psid container hstate
      have hids := unitState_ids sid uid u hu
      refine ⟨n, hin, fuel + 1, ?_⟩
      rw [getAssignedMachineId, hids.1, hids.2, hunit]
      dsimp only
      rw [hm, hfound]
      exact hassigned

/-- A unit contained in one with a machine is assigned. -/
theorem assignedTo_chain (uid principal psid : String) (punit : ServiceUnit)
    (hchain : Relation.TransGen (ContainedIn t) uid principal)
    (hpunit : t.serviceUnit? psid principal = some punit) (hm : punit.machine ≠ none) (sid : String)
    (u : ServiceUnitState) (hu : t.unitState sid uid = some u) :
    ∃ n, internalMachineId n ∈ t.machines ∧ AssignedTo t u n := by
  induction hchain using Relation.TransGen.head_induction_on generalizing sid u with
  | single hcontained =>
    refine assignedTo_next h hsequenced sid _ u hu principal hcontained fun psid' container hstate => ?_
    obtain ⟨unit', hunit'⟩ := unitState_some psid' principal container hstate
    obtain rfl := h.unitService _ _ _ _ _ hunit' hpunit
    obtain rfl := Option.some.inj (hunit'.symm.trans hpunit)
    obtain ⟨m, hm⟩ := Option.ne_none_iff_exists'.mp hm
    have hin := h.unitMachine _ _ _ m hunit' hm
    obtain ⟨n, rfl⟩ := hsequenced m hin
    exact ⟨n, hin, (assignedTo_own h hsequenced _ _ _ container n _ hunit' hstate hm).mpr rfl⟩
  | head hcontained _ ih =>
    exact assignedTo_next h hsequenced sid _ u hu _ hcontained fun psid' container hstate =>
      ih psid' container hstate

/-- The machine of a unit and the units of the machine agree just for units that are not housed by
their container. -/
theorem unit_agrees (sid uid : String) (u : ServiceUnitState)
    (hu : t.unitState sid uid = some u) :
    (∀ n, internalMachineId n ∈ t.machines → (AssignedTo t u n ↔ ListedIn t u n)) ↔
      ¬ Housed t uid := by
  obtain ⟨unit, hunit⟩ := unitState_some sid uid u hu
  have hown (sid' : String) (unit' : ServiceUnit) (hunit' : t.serviceUnit? sid' uid = some unit') :
      unit' = unit := by
    obtain rfl := h.unitService _ _ _ _ _ hunit' hunit
    exact Option.some.inj (hunit'.symm.trans hunit)
  constructor
  · rintro hagrees ⟨hnone, principal, psid, punit, hchain, hpunit, hm⟩
    obtain ⟨n, hin, hassigned⟩ := assignedTo_chain h hsequenced uid principal psid punit hchain
      hpunit hm sid u hu
    have hlisted := (hagrees n hin).mp hassigned
    rw [listedIn_iff h n hin sid uid unit u hunit hu, hnone sid unit hunit] at hlisted
    cases hlisted
  · intro hhoused n hin
    rw [listedIn_iff h n hin sid uid unit u hunit hu]
    cases hm : unit.machine with
    | some m =>
      rw [assignedTo_own h hsequenced sid uid unit u n m hunit hu hm]
      simp
    | none =>
      refine ⟨?_, nofun⟩
      rintro ⟨fuel, hassigned⟩
      rcases assigned_machine h fuel sid uid unit u n hunit hu hassigned with
        ⟨m', hm', -⟩ | ⟨-, principal, sid', unit', hchain, hunit', hm'⟩
      · rw [hm] at hm'
        cases hm'
      · refine absurd ⟨fun sid₂ unit₂ hunit₂ => ?_, principal, sid', unit', hchain, hunit', hm'⟩ hhoused
        rw [hown sid₂ unit₂ hunit₂, hm]

omit h hsequenced in
theorem policyPorts_covers (exposed : String → Bool) (openPorts : String → List (Nat × String))
    (units : List ServiceUnitState)
    (hnamed : ∀ u ∈ units, t.findServiceWithName u.serviceName = some u.internalServiceId) :
    ∃ policy, policyPorts t exposed openPorts units = .ok policy ∧
      ∀ u ∈ units, exposed u.internalServiceId = true → ∀ port ∈ openPorts u.internalId,
        port ∈ policy := by
  induction units with
  | nil => exact ⟨[], rfl, nofun⟩
  | cons u units ih =>
    obtain ⟨policy, hpolicy, hcovers⟩ := ih fun u hu => hnamed u (List.mem_cons_of_mem _ hu)
    refine ⟨(if exposed u.internalServiceId then openPorts u.internalId else []) ++ policy, ?_, ?_⟩
    · rw [policyPorts, hnamed u List.mem_cons_self, hpolicy]
      rfl
    · intro u' hu' hexposed port hport
      rcases List.mem_cons.mp hu' with rfl | hrest
      · rw [if_pos hexposed]
        exact List.mem_append_left _ hport
      · exact List.mem_append_right _ (hcovers u' hrest hexposed port hport)

omit hsequenced in
/-- The policy of a machine has every port of its own units. -/
theorem openClosePorts_covers (exposed : String → Bool) (openPorts : String → List (Nat × String))
    (machineId : String) (hin : machineId ∈ t.machines) :
    ∃ policy, openClosePortsOnMachine t exposed openPorts machineId = .ok policy ∧
      ∀ sid uid unit, t.serviceUnit? sid uid = some unit → unit.machine = some machineId →
        exposed sid = true → ∀ port ∈ openPorts uid, port ∈ policy := by
  obtain ⟨states, hstates, hmem⟩ := getAllServiceUnitStates_spec h machineId hin
  have hnamed (u : ServiceUnitState) (hu : u ∈ states) :
      t.findServiceWithName u.serviceName = some u.internalServiceId := by
    obtain ⟨sid, uid, unit, -, -, hstate⟩ := (hmem u).mp hu
    obtain ⟨service, hs, hmap⟩ := Option.bind_eq_some_iff.mp hstate
    obtain ⟨n, -, rfl⟩ := Option.map_eq_some_iff.mp hmap
    exact findServiceWithName_service h sid service hs
  obtain ⟨policy, hpolicy, hcovers⟩ := policyPorts_covers exposed openPorts states hnamed
  refine ⟨policy, ?_, fun sid uid unit hunit hm hexposed port hport => ?_⟩
  · rw [openClosePortsOnMachine, hstates]
    exact hpolicy
  · obtain ⟨service, n, -, -, hstate⟩ := unitState_spec h sid uid unit hunit
    exact hcovers _ ((hmem _).mpr ⟨sid, uid, unit, hunit, hm, hstate⟩) hexposed port hport

end agreement

/-- A machine is added under an id with ZooKeeper's sequence number. -/
def Sequenced (_ : InternalTopology) : TopologyCall → Prop
  | .addMachine machineId => ∃ n, machineId = internalMachineId n
  | _ => True

theorem call_machines (t : InternalTopology) (c : TopologyCall) (m : String)
    (hm : m ∈ (call t c).machines) : m ∈ t.machines ∨ c = .addMachine m := by
  by_cases hcreates : c.creates = some (.machine, m)
  · right
    cases c with
    | addMachine machineId =>
      injection hcreates with hcreates
      injection hcreates with _ hsame
      rw [hsame]
    | _ => cases hcreates
  · left
    by_contra hnot
    exact call_unnamed .machine m c t hcreates hnot hm

/-- `get_assigned_machine_id` of a unit and the listings of its machine agree just when the unit is
not housed by a container; then the ports of the unit are in the policy of the machine at which its
changes are directed. -/
theorem machine_units_agree (t : InternalTopology)
    (h : Reachable (· = freshTopology) (fun t c => some (call t c)) Sequenced t) (sid uid : String)
    (u : ServiceUnitState) (hu : t.unitState sid uid = some u) :
    ((∀ n, internalMachineId n ∈ t.machines → (AssignedTo t u n ↔ ListedIn t u n)) ↔
        ¬ Housed t uid) ∧
      (¬ Housed t uid → ∀ exposed openPorts n, AssignedTo t u n →
        ∃ policy, openClosePortsOnMachine t exposed openPorts (internalMachineId n) = .ok policy ∧
          (exposed sid = true → ∀ port ∈ openPorts uid, port ∈ policy)) := by
  obtain ⟨hint, hsequenced⟩ := reachable_invariant
    (fun t => Integrity t ∧ ∀ m ∈ t.machines, ∃ n, m = internalMachineId n)
    (fun t ht => by
      subst ht
      exact ⟨freshTopology_integrity, fun m hm => absurd hm (AList.notMem_empty m)⟩)
    (fun t t' c hi hc hs => by
      obtain rfl := Option.some.inj hs
      refine ⟨call_integrity hi.1 c, fun m hm => ?_⟩
      rcases call_machines t c m hm with hold | rfl
      · exact hi.2 m hold
      · exact hc) t h
  refine ⟨unit_agrees hint hsequenced sid uid u hu, fun hhoused exposed openPorts n hassigned => ?_⟩
  obtain ⟨unit, hunit⟩ := unitState_some sid uid u hu
  have hm : unit.machine = some (internalMachineId n) := by
    cases hm : unit.machine with
    | some m => rw [(assignedTo_own hint hsequenced sid uid unit u n m hunit hu hm).mp hassigned]
    | none =>
      obtain ⟨fuel, hassigned⟩ := hassigned
      rcases assigned_machine hint fuel sid uid unit u n hunit hu hassigned with
        ⟨m, hm', -⟩ | ⟨-, principal, sid', unit', hchain, hunit', hm'⟩
      · rw [hm] at hm'
        cases hm'
      · refine absurd ⟨fun sid₂ unit₂ hunit₂ => ?_, principal, sid', unit', hchain, hunit', hm'⟩ hhoused
        obtain rfl := hint.unitService _ _ _ _ _ hunit₂ hunit
        rw [Option.some.inj (hunit₂.symm.trans hunit), hm]
  obtain ⟨policy, hpolicy, hcovers⟩ := openClosePorts_covers hint exposed openPorts _
    (hint.unitMachine sid uid unit _ hunit hm)
  exact ⟨policy, hpolicy, hcovers sid uid unit hunit hm⟩

/-- A principal unit assigned to a machine, with a subordinate unit. -/
def assignPrincipal : List TopologyCall :=
  addSubordinate ++ [.addMachine "machine-0000000001",
    .assignServiceUnitToMachine "service-0" "unit-0" "machine-0000000001"]

theorem assignPrincipal_reachable :
    Reachable (· = freshTopology) (fun t c => some (call t c)) Sequenced
      (assignPrincipal.foldl call freshTopology) := by
  have hfine : ∀ c ∈ assignPrincipal, ∀ t, Sequenced t c := by
    intro c hc t
    simp only [assignPrincipal, addSubordinate, List.cons_append, List.nil_append, List.mem_cons,
      List.not_mem_nil, or_false] at hc
    rcases hc with rfl | rfl | rfl | rfl | rfl | rfl | rfl | rfl | rfl
    all_goals first | trivial | exact ⟨1, by decide⟩
  exact reachable_events assignPrincipal hfine freshTopology _ (.init _ rfl) rfl

theorem machine_units_agree_principal :
    ∃ t u, t.unitState "service-0" "unit-0" = some u ∧ AssignedTo t u 1 ∧ ListedIn t u 1 ∧
      ∃ policy, openClosePortsOnMachine t (fun _ => true) (fun _ => [(80, "tcp")])
        (internalMachineId 1) = .ok policy ∧ (80, "tcp") ∈ policy := by
  have hagree := machine_units_agree _ assignPrincipal_reachable "service-0" "unit-0" _ rfl
  have hown : ¬ Housed (assignPrincipal.foldl call freshTopology) "unit-0" :=
    fun h => nomatch h.1 "service-0" _ rfl
  have hassigned : AssignedTo (assignPrincipal.foldl call freshTopology)
      ⟨"service-0", "mysql", 0, "unit-0"⟩ 1 := ⟨1, rfl⟩
  obtain ⟨policy, hpolicy, hports⟩ :=
    hagree.2 hown (fun _ => true) (fun _ => [(80, "tcp")]) 1 hassigned
  exact ⟨_, _, rfl, hassigned, (hagree.1.mpr hown 1 (by decide)).mp hassigned, policy, hpolicy,
    hports rfl _ (by simp)⟩

/-- The subordinate unit is assigned to the machine of its principal, which does not list it, and
the port that it opens is in no policy. -/
theorem subordinate_not_listed :
    ∃ t u, Reachable (· = freshTopology) (fun t c => some (call t c)) Sequenced t ∧
      t.unitState "service-1" "unit-1" = some u ∧ AssignedTo t u 1 ∧ ¬ ListedIn t u 1 ∧
      openClosePortsOnMachine t (fun _ => true)
        (fun unitId => if unitId = "unit-1" then [(80, "tcp")] else [])
        (internalMachineId 1) = .ok [] := by
  refine ⟨_, _, assignPrincipal_reachable, rfl, ⟨2, rfl⟩, ?_, rfl⟩
  rintro ⟨states, hstates, hlisted⟩
  have hlists : getAllServiceUnitStates (internalMachineId 1)
      (assignPrincipal.foldl call freshTopology) = .ok [⟨"service-0", "mysql", 0, "unit-0"⟩] _ := rfl
  rw [hlists] at hstates
  injection hstates with hstates
  subst hstates
  have hids := congrArg ServiceUnitState.internalId (List.mem_singleton.mp hlisted)
  simp at hids

end Juju.State

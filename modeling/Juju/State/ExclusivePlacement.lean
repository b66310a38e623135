import Juju.State.Placement

namespace Juju.State
open Juju.Base Juju.Machine

variable {C V : Type} (cs : ConstraintSet V)
  (unitData : String → Option ConstraintsData)

/-- The constraints of a machine satisfy those of a unit. -/
def Satisfied (s : Placements C) (unitId machineId : String) : Prop :=
  ∃ constraints,
    getConstraints cs .serviceUnitStateNotFound (unitData unitId) = .ok constraints ∧
      machineSatisfies cs s.machineData constraints machineId = .ok true

/-- How the units of the topology are placed. -/
structure UnitsPlaced (s : Placements C) : Prop where
  apart : ∀ sid uid unit sid' uid' unit' m, s.topology.serviceUnit? sid uid = some unit →
    s.topology.serviceUnit? sid' uid' = some unit' → unit.machine = some m →
    unit'.machine = some m → uid = uid'
  notRoot : ∀ sid uid unit, s.topology.serviceUnit? sid uid = some unit →
    unit.machine ≠ some rootMachineId
  satisfied : ∀ sid uid unit m, s.topology.serviceUnit? sid uid = some unit →
    unit.machine = some m → Satisfied cs unitData s uid m
  own : ∀ sid uid unit, s.topology.serviceUnit? sid uid = some unit → unit.container ≠ none →
    unit.machine = none

/-- A unit in a container is not placed: its call fails, and where the container is there and the
constraints are read, with `IllegalSubordinateMachineAssignment`. -/
def Refused (t : InternalTopology) (unit : ServiceUnitState)
    (result : Except ManagerError String) : Prop :=
  ∀ u c, t.serviceUnit? unit.internalServiceId unit.internalId = some u → u.container = some c →
    ∃ e, result = .error e ∧ ((∃ psid, t.serviceUnit? psid c ≠ none) →
      e = .illegalSubordinateMachineAssignment unit.serviceName unit.sequence ∨
        e = .constraintError ∨ ∃ e', e = .node e')

structure Exclusive (s : Placements C) : Prop where
  units : UnitsPlaced cs unitData s
  refused : ∀ c unit result, s.calls c = .ended unit result → Refused s.topology unit result

/-- No unit in a container takes the machine that a search found, and a machine that is created is
not the root machine and nobody else's when it is assigned. -/
def CallUnhindered (s : Placements C) : PlaceCall → Prop
  | .searching unit (some (version, _, _)) =>
    version = s.version → ∀ u, s.topology.serviceUnit? unit.internalServiceId unit.internalId =
      some u → u.container = none
  | .assigning unit machineId (some (version, _)) =>
    version = s.version → machineId ≠ rootMachineId ∧
      ∀ sid uid u, s.topology.serviceUnit? sid uid = some u → u.machine = some machineId →
        uid = unit.internalId
  | _ => True

def Unhindered (s : Placements C) : PlaceEvent C → Prop
  | .start _ _ => True
  | .goOn c => CallUnhindered s (s.calls c)

/-- A machine that was created for a unit, with its constraints. -/
structure CreatedFor (s : Placements C) (unit : ServiceUnitState) (machineId : String) : Prop where
  numbered : ∃ k < s.nextMachine, machineId = internalMachineId k
  data : ∃ data constraints, s.machineData.lookup machineId = some data ∧
    unitData unit.internalId = some data ∧ cs.load data = .ok constraints ∧
    constraints.complete = .ok true

/-- What holds of a call, given what it has read. -/
def CallSound (s : Placements C) : PlaceCall → Prop
  | .searching unit (some (version, topology, machineId)) => version ≤ s.version ∧
      (version = s.version → ∃ constraints, unitConstraints cs unitData unit = .ok constraints ∧
        Suits s.topology (machineSatisfies cs s.machineData constraints) machineId ∧
        assignServiceUnitToMachine unit.internalServiceId unit.internalId machineId s.topology =
          .ok () topology)
  | .adding unit machineId evaluated => CreatedFor cs unitData s unit machineId ∧
      ∀ version topology, evaluated = some (version, topology) → version ≤ s.version ∧
        (version = s.version → addMachine machineId s.topology = .ok () topology)
  | .comparing unit machineId => CreatedFor cs unitData s unit machineId
  | .assigning unit machineId evaluated =>
      (∃ k < s.nextMachine, machineId = internalMachineId k) ∧
      Satisfied cs unitData s unit.internalId machineId ∧
      ∀ version topology, evaluated = some (version, topology) → version ≤ s.version ∧
        (version = s.version → TopologyChange.run (fun _ => .ok false) (.assignUnit unit machineId)
          s.topology = .ok () topology)
  | .ended unit result => Refused s.topology unit result
  | _ => True

/-- What holds of a state and of some of its calls. -/
structure PlacementsSound (among : C → Prop) (s : Placements C) : Prop where
  integrity : Integrity s.topology
  sequenced : ∀ m ∈ s.topology.machines, ∃ k < s.nextMachine, m = internalMachineId k
  units : UnitsPlaced cs unitData s
  fresh : ∀ c unit m evaluated, among c → s.calls c = .adding unit m evaluated →
    m ∉ s.topology.machines
  addsApart : ∀ c c' unit unit' m evaluated evaluated', among c → among c' →
    s.calls c = .adding unit m evaluated → s.calls c' = .adding unit' m evaluated' → c = c'
  calls : ∀ c, among c → CallSound cs unitData s (s.calls c)

/-- How a state goes on from another. -/
structure Later (s s' : Placements C) : Prop where
  numbers : s.nextMachine ≤ s'.nextMachine
  data : ∀ k < s.nextMachine, s'.machineData.lookup (internalMachineId k) =
    s.machineData.lookup (internalMachineId k)
  containers : ∀ sid uid, (s'.topology.serviceUnit? sid uid).map ServiceUnit.container =
    (s.topology.serviceUnit? sid uid).map ServiceUnit.container
  content : s.version < s'.version ∨ s'.version = s.version ∧ s'.topology = s.topology

section later

variable {cs unitData} {s s' : Placements C}

theorem later_numbered (h : Later s s') (m : String)
    (hm : ∃ k < s.nextMachine, m = internalMachineId k) :
    ∃ k < s'.nextMachine, m = internalMachineId k := by
  obtain ⟨k, hk, hid⟩ := hm
  exact ⟨k, lt_of_lt_of_le hk h.numbers, hid⟩

theorem later_satisfies (h : Later s s') (m : String)
    (hm : ∃ k < s.nextMachine, m = internalMachineId k) (constraints : Constraints V) :
    machineSatisfies cs s'.machineData constraints m =
      machineSatisfies cs s.machineData constraints m := by
  obtain ⟨k, hk, rfl⟩ := hm
  rw [machineSatisfies, h.data k hk, machineSatisfies]

theorem later_satisfied (h : Later s s') (uid m : String)
    (hm : ∃ k < s.nextMachine, m = internalMachineId k)
    (hsatisfied : Satisfied cs unitData s uid m) : Satisfied cs unitData s' uid m := by
  obtain ⟨constraints, hunit, hmachine⟩ := hsatisfied
  exact ⟨constraints, hunit, (later_satisfies h m hm constraints).trans hmachine⟩

theorem later_created (h : Later s s') (unit : ServiceUnitState) (m : String)
    (hcreated : CreatedFor cs unitData s unit m) : CreatedFor cs unitData s' unit m := by
  obtain ⟨k, hk, rfl⟩ := hcreated.numbered
  obtain ⟨data, constraints, hdata, hrest⟩ := hcreated.data
  exact ⟨later_numbered h _ hcreated.numbered,
    ⟨data, constraints, (h.data k hk).trans hdata, hrest⟩⟩

theorem later_unit (h : Later s s') (sid uid : String) (unit' : ServiceUnit)
    (hunit : s'.topology.serviceUnit? sid uid = some unit') :
    ∃ unit, s.topology.serviceUnit? sid uid = some unit ∧ unit.container = unit'.container := by
  have hsame := h.containers sid uid
  rw [hunit] at hsame
  obtain ⟨unit, hu, hc⟩ := Option.map_eq_some_iff.mp hsame.symm
  exact ⟨unit, hu, hc⟩

theorem later_refused (h : Later s s') (unit : ServiceUnitState)
    (result : Except ManagerError String) (hrefused : Refused s.topology unit result) :
    Refused s'.topology unit result := by
  intro u' c hu' hc
  obtain ⟨u, hu, hsame⟩ := later_unit h _ _ u' hu'
  obtain ⟨e, hresult, he⟩ := hrefused u c hu (hsame.trans hc)
  refine ⟨e, hresult, fun hpresent => he ?_⟩
  obtain ⟨psid, hpsid⟩ := hpresent
  obtain ⟨principal', hprincipal'⟩ := Option.ne_none_iff_exists'.mp hpsid
  obtain ⟨principal, hprincipal, -⟩ := later_unit h _ _ principal' hprincipal'
  exact ⟨psid, Option.ne_none_iff_exists'.mpr ⟨principal, hprincipal⟩⟩

/-- What a call has read goes stale, or is still the content. -/
theorem later_evaluated (h : Later s s') (version : Nat) (P : InternalTopology → Prop)
    (hle : version ≤ s.version ∧ (version = s.version → P s.topology)) :
    version ≤ s'.version ∧ (version = s'.version → P s'.topology) := by
  rcases h.content with hlater | ⟨hversion, htopology⟩
  · exact ⟨by omega, fun heq => by omega⟩
  · rw [hversion, htopology]
    exact hle

theorem later_sound (h : Later s s')
    (hsequenced : ∀ m ∈ s.topology.machines, ∃ k < s.nextMachine, m = internalMachineId k)
    (call : PlaceCall) (hcall : CallSound cs unitData s call) : CallSound cs unitData s' call := by
  cases call with
  | idle => trivial
  | creating unit => trivial
  | comparing unit m => exact later_created h unit m hcall
  | ended unit result => exact later_refused h unit result hcall
  | adding unit m evaluated =>
    refine ⟨later_created h unit m hcall.1, fun version topology hev => ?_⟩
    exact later_evaluated h version (fun t => addMachine m t = .ok () topology)
      (hcall.2 version topology hev)
  | assigning unit m evaluated =>
    obtain ⟨hm, hsatisfied, hev⟩ := hcall
    refine ⟨later_numbered h m hm, later_satisfied h _ m hm hsatisfied,
      fun version topology hsome => ?_⟩
    exact later_evaluated h version (fun t => TopologyChange.run (fun _ => .ok false)
      (.assignUnit unit m) t = .ok () topology) (hev version topology hsome)
  | searching unit evaluated =>
    cases evaluated with
    | none => trivial
    | some e =>
      obtain ⟨version, topology, m⟩ := e
      refine later_evaluated h version (fun t => ∃ constraints,
        unitConstraints cs unitData unit = .ok constraints ∧
        Suits t (machineSatisfies cs s'.machineData constraints) m ∧
        assignServiceUnitToMachine unit.internalServiceId unit.internalId m t =
          .ok () topology) ⟨hcall.1, fun heq => ?_⟩
      obtain ⟨constraints, hunit, hsuits, hassign⟩ := hcall.2 heq
      have hsame : machineSatisfies cs s'.machineData constraints m =
          machineSatisfies cs s.machineData constraints m :=
        later_satisfies h m (hsequenced m hsuits.present) constraints
      exact ⟨constraints, hunit, ⟨hsuits.present, hsuits.notRoot, hsuits.unused,
        hsame.trans hsuits.satisfied⟩, hassign⟩

end later

section steps

variable {cs unitData} {s : Placements C}

theorem sound_among (among : C → Prop) (h : PlacementsSound cs unitData (fun _ => True) s) :
    PlacementsSound cs unitData among s where
  integrity := h.integrity
  sequenced := h.sequenced
  units := h.units
  fresh c unit m evaluated _ := h.fresh c unit m evaluated trivial
  addsApart c c' unit unit' m evaluated evaluated' _ _ :=
    h.addsApart c c' unit unit' m evaluated evaluated' trivial trivial
  calls c _ := h.calls c trivial

theorem later_commit (t' : InternalTopology)
    (hcontainers : ∀ sid uid, (t'.serviceUnit? sid uid).map ServiceUnit.container =
      (s.topology.serviceUnit? sid uid).map ServiceUnit.container) : Later s (s.commit t') :=
  ⟨le_refl _, fun _ _ => rfl, hcontainers, .inl (Nat.lt_succ_self _)⟩

/-- A content is written that has the units that were there. -/
theorem commit_sound (c : C) (t' : InternalTopology)
    (h : PlacementsSound cs unitData (fun _ => True) s) (hintegrity : Integrity t')
    (hcontainers : ∀ sid uid, (t'.serviceUnit? sid uid).map ServiceUnit.container =
      (s.topology.serviceUnit? sid uid).map ServiceUnit.container)
    (hmachines : ∀ m ∈ t'.machines, m ∈ s.topology.machines ∨
      (∃ k < s.nextMachine, m = internalMachineId k) ∧
        ∃ unit evaluated, s.calls c = .adding unit m evaluated)
    (hunits : UnitsPlaced cs unitData (s.commit t')) :
    PlacementsSound cs unitData (· ≠ c) (s.commit t') := by
  have hlater := later_commit t' hcontainers
  refine ⟨hintegrity, ?_, hunits, ?_, ?_, ?_⟩
  · intro m hm
    rcases hmachines m hm with hold | hnew
    · exact h.sequenced m hold
    · exact hnew.1
  · intro c' unit m evaluated hc hc' hm
    rcases hmachines m hm with hold | ⟨-, unit', evaluated', hadding⟩
    · exact h.fresh c' unit m evaluated trivial hc' hold
    · exact hc (h.addsApart c' c unit unit' m evaluated evaluated' trivial trivial hc' hadding)
  · exact fun c₁ c₂ unit₁ unit₂ m evaluated₁ evaluated₂ _ _ =>
      h.addsApart c₁ c₂ unit₁ unit₂ m evaluated₁ evaluated₂ trivial trivial
  · exact fun c' _ => later_sound hlater h.sequenced _ (h.calls c' trivial)

variable [DecidableEq C]

theorem later_setCall (c : C) (call : PlaceCall) : Later s (s.setCall c call) where
  numbers := le_refl _
  data _ _ := rfl
  containers _ _ := rfl
  content := .inr ⟨rfl, rfl⟩

/-- A call goes on to where it is sound; what it adds, if anything, is its own. -/
theorem setCall_sound (c : C) (call : PlaceCall) (h : PlacementsSound cs unitData (· ≠ c) s)
    (hcall : CallSound cs unitData s call)
    (hadds : ∀ unit m evaluated, call = .adding unit m evaluated → m ∉ s.topology.machines ∧
      ∀ c' unit' evaluated', c' ≠ c → s.calls c' ≠ .adding unit' m evaluated') :
    PlacementsSound cs unitData (fun _ => True) (s.setCall c call) := by
  have hlater := later_setCall (s := s) c call
  have hown : (s.setCall c call).calls c = call := by
    simp [Placements.setCall]
  have hother (c' : C) (hc : c' ≠ c) : (s.setCall c call).calls c' = s.calls c' := by
    simp [Placements.setCall, hc]
  refine ⟨h.integrity, h.sequenced, ?_, ?_, ?_, ?_⟩
  · exact ⟨h.units.apart, h.units.notRoot, h.units.satisfied, h.units.own⟩
  · intro c' unit m evaluated _ hc'
    by_cases hc : c' = c
    · subst hc
      exact (hadds unit m evaluated (hown.symm.trans hc')).1
    · exact h.fresh c' unit m evaluated hc ((hother c' hc).symm.trans hc')
  · intro c₁ c₂ unit₁ unit₂ m evaluated₁ evaluated₂ _ _ h₁ h₂
    by_cases hc₁ : c₁ = c
    · by_cases hc₂ : c₂ = c
      · rw [hc₁, hc₂]
      · subst hc₁
        rw [hother c₂ hc₂] at h₂
        exact absurd h₂ ((hadds unit₁ m evaluated₁ (hown.symm.trans h₁)).2 c₂ unit₂ evaluated₂ hc₂)
    · rw [hother c₁ hc₁] at h₁
      by_cases hc₂ : c₂ = c
      · subst hc₂
        exact absurd h₁ ((hadds unit₂ m evaluated₂ (hown.symm.trans h₂)).2 c₁ unit₁ evaluated₁ hc₁)
      · rw [hother c₂ hc₂] at h₂
        exact h.addsApart c₁ c₂ unit₁ unit₂ m evaluated₁ evaluated₂ hc₁ hc₂ h₁ h₂
  · intro c' _
    by_cases hc : c' = c
    · subst hc
      rw [hown]
      exact later_sound hlater h.sequenced call hcall
    · rw [hother c' hc]
      exact later_sound hlater h.sequenced _ (h.calls c' hc)

theorem setCall_sound_of (c : C) (call : PlaceCall)
    (h : PlacementsSound cs unitData (fun _ => True) s) (hcall : CallSound cs unitData s call)
    (hadds : ∀ unit m evaluated, call ≠ .adding unit m evaluated) :
    PlacementsSound cs unitData (fun _ => True) (s.setCall c call) :=
  setCall_sound c call (sound_among _ h) hcall fun unit m evaluated heq =>
    absurd heq (hadds unit m evaluated)

end steps

section changes

variable {cs unitData} {s : Placements C}

theorem container_none_of_ok {t : InternalTopology} (h : Integrity t) (sid uid : String)
    (unit : ServiceUnit) (hunit : t.serviceUnit? sid uid = some unit)
    (hok : getServiceUnitContainer uid t = .ok none t) : unit.container = none := by
  obtain ⟨service, hs, hu⟩ := Option.bind_eq_some_iff.mp hunit
  by_contra hc
  obtain ⟨c, hc⟩ := Option.ne_none_iff_exists'.mp hc
  rw [getServiceUnitContainer,
    bind_of_ok _ _ _ _ _ (getServiceUnitPrincipal_unit h sid uid service unit hs hu), hc] at hok
  obtain ⟨serviceId, t₁, -, hok⟩ := bind_ok _ _ _ _ _ hok
  obtain ⟨_, t₂, -, hok⟩ := bind_ok _ _ _ _ _ hok
  rw [get_bind] at hok
  cases hservice : t₂.services.lookup serviceId with
  | none =>
    rw [hservice] at hok
    cases hok
  | some service' =>
    cases hsequence : (t₂.serviceUnit? serviceId c).bind ServiceUnit.sequence with
    | none =>
      rw [hservice, hsequence] at hok
      cases hok
    | some n =>
      rw [hservice, hsequence] at hok
      cases hok

theorem assigned_containers {t t' : InternalTopology} (sid uid m : String)
    (h : assignServiceUnitToMachine sid uid m t = .ok () t') (sid' uid' : String) :
    (t'.serviceUnit? sid' uid').map ServiceUnit.container =
      (t.serviceUnit? sid' uid').map ServiceUnit.container := by
  obtain ⟨unit, hunit, -, -, -, hafter⟩ := assignServiceUnitToMachine_ok sid uid m h
  rw [hafter]
  split
  · rename_i hsame
    rw [hsame.1, hsame.2, hunit]
    rfl
  · rfl

/-- An assignment places the units rightly when the unit is in no container, and the machine is
not the root machine and has no other unit. -/
theorem placed_assign_iff (h : UnitsPlaced cs unitData s) (sid uid m : String)
    (t' : InternalTopology) (hsatisfied : Satisfied cs unitData s uid m)
    (hassign : assignServiceUnitToMachine sid uid m s.topology = .ok () t') :
    UnitsPlaced cs unitData (s.commit t') ↔
      (∀ u, s.topology.serviceUnit? sid uid = some u → u.container = none) ∧
      m ≠ rootMachineId ∧ ∀ sid' uid' u, s.topology.serviceUnit? sid' uid' = some u →
        u.machine = some m → uid' = uid := by
  obtain ⟨unit, hunit, -, -, -, hafter⟩ := assignServiceUnitToMachine_ok sid uid m hassign
  have hassigned : t'.serviceUnit? sid uid = some { unit with machine := some m } := by
    rw [hafter, if_pos ⟨rfl, rfl⟩]
  have hafter_cases (sid' uid' : String) (u : ServiceUnit)
      (hu : t'.serviceUnit? sid' uid' = some u) :
      (sid' = sid ∧ uid' = uid ∧ u = { unit with machine := some m }) ∨
        s.topology.serviceUnit? sid' uid' = some u := by
    rw [hafter] at hu
    split at hu
    · rename_i hsame
      exact .inl ⟨hsame.1, hsame.2, (Option.some.inj hu).symm⟩
    · exact .inr hu
  constructor
  · intro hplaced
    refine ⟨fun u hu => ?_, fun hroot => ?_, fun sid' uid' u hu hm => ?_⟩
    · obtain rfl : unit = u := Option.some.inj (hunit.symm.trans hu)
      by_contra hcontainer
      have hnone := hplaced.own sid uid _ hassigned hcontainer
      cases hnone
    · exact hplaced.notRoot sid uid _ hassigned (congrArg some hroot)
    · by_cases hsame : sid' = sid ∧ uid' = uid
      · exact hsame.2
      · have hu' : t'.serviceUnit? sid' uid' = some u := by
          rw [hafter, if_neg hsame, hu]
        exact hplaced.apart sid' uid' u sid uid _ m hu' hassigned hm rfl
  · rintro ⟨hcontainer, hroot, hfree⟩
    refine ⟨?_, ?_, ?_, ?_⟩
    · intro sid₁ uid₁ u₁ sid₂ uid₂ u₂ m' h₁ h₂ hm₁ hm₂
      rcases hafter_cases sid₁ uid₁ u₁ h₁ with ⟨-, hid₁, hu₁⟩ | hold₁
      · rcases hafter_cases sid₂ uid₂ u₂ h₂ with ⟨-, hid₂, -⟩ | hold₂
        · rw [hid₁, hid₂]
        · rw [hu₁] at hm₁
          obtain rfl := Option.some.inj hm₁
          rw [hid₁, hfree sid₂ uid₂ u₂ hold₂ hm₂]
      · rcases hafter_cases sid₂ uid₂ u₂ h₂ with ⟨-, hid₂, hu₂⟩ | hold₂
        · rw [hu₂] at hm₂
          obtain rfl := Option.some.inj hm₂
          rw [hid₂, hfree sid₁ uid₁ u₁ hold₁ hm₁]
        · exact h.apart sid₁ uid₁ u₁ sid₂ uid₂ u₂ m' hold₁ hold₂ hm₁ hm₂
    · intro sid' uid' u hu hm
      rcases hafter_cases sid' uid' u hu with ⟨-, -, rfl⟩ | hold
      · exact hroot (Option.some.inj hm)
      · exact h.notRoot sid' uid' u hold hm
    · intro sid' uid' u m' hu hm
      rcases hafter_cases sid' uid' u hu with ⟨-, hid, rfl⟩ | hold
      · obtain rfl := Option.some.inj hm
        exact hid ▸ hsatisfied
      · exact h.satisfied sid' uid' u m' hold hm
    · intro sid' uid' u hu hc
      rcases hafter_cases sid' uid' u hu with ⟨-, -, rfl⟩ | hold
      · exact absurd (hcontainer unit hunit) hc
      · exact h.own sid' uid' u hold hc

/-- The same units are placed as before. -/
theorem placed_of_services (h : UnitsPlaced cs unitData s) (t' : InternalTopology)
    (hservices : t'.services = s.topology.services) : UnitsPlaced cs unitData (s.commit t') := by
  have hsame (sid uid : String) : (s.commit t').topology.serviceUnit? sid uid =
      s.topology.serviceUnit? sid uid := serviceUnit?_of_services _ _ hservices sid uid
  refine ⟨?_, ?_, ?_, ?_⟩
  · intro sid uid unit sid' uid' unit' m hu hu'
    exact h.apart sid uid unit sid' uid' unit' m ((hsame _ _).symm.trans hu)
      ((hsame _ _).symm.trans hu')
  · exact fun sid uid unit hu => h.notRoot sid uid unit ((hsame _ _).symm.trans hu)
  · exact fun sid uid unit m hu => h.satisfied sid uid unit m ((hsame _ _).symm.trans hu)
  · exact fun sid uid unit hu => h.own sid uid unit ((hsame _ _).symm.trans hu)

end changes

section calls

variable {cs unitData} {s : Placements C}

theorem refused_node (t : InternalTopology) (unit : ServiceUnitState) (e : NodeError) :
    Refused t unit (.error (.node e)) :=
  fun _ _ _ _ => ⟨_, rfl, fun _ => .inr (.inr ⟨e, rfl⟩)⟩

theorem search_sound (h : PlacementsSound cs unitData (fun _ => True) s)
    (unit : ServiceUnitState) : CallSound cs unitData s (s.search cs unitData unit) ∧
      ∀ unit' m evaluated, s.search cs unitData unit ≠ .adding unit' m evaluated := by
  unfold Placements.search
  cases hunit : unitConstraints cs unitData unit with
  | error e => exact ⟨refused_node s.topology unit e, by simp⟩
  | ok constraints =>
    dsimp only
    split
    · exact ⟨trivial, by simp⟩
    · rename_i e t' hother herror
      refine ⟨fun u c hu hc => ⟨e, rfl, fun _ => .inr (.inr ?_)⟩, by simp⟩
      have hfree : s.topology.unitMachine unit.internalServiceId unit.internalId = none := by
        have hnone := h.units.own _ _ u hu (by rw [hc]; exact Option.some_ne_none _)
        simp [InternalTopology.unitMachine, hu, hnone]
      have hin : s.topology.serviceUnit? unit.internalServiceId unit.internalId ≠ none := by
        rw [hu]
        exact Option.some_ne_none u
      rcases assignUnusedUnit_error _ unit e hin hfree herror with hnone | hnode
      · exact absurd hnone hother
      · exact hnode
    · rename_i m t' hfound
      obtain ⟨hsuits, hassign⟩ := assignUnusedUnit_ok _ unit m hfound
      exact ⟨⟨le_refl _, fun _ => ⟨constraints, hunit, hsuits, hassign⟩⟩, by simp⟩

theorem compare_sound (haccepts : cs.AcceptsOwn) (unit : ServiceUnitState) (m : String)
    (hcreated : CreatedFor cs unitData s unit m) :
    CallSound cs unitData s (s.compare cs unitData unit m) ∧
      ∀ unit' m' evaluated, s.compare cs unitData unit m ≠ .adding unit' m' evaluated := by
  obtain ⟨data, constraints, hdata, hunitData, hload, hcomplete⟩ := hcreated.data
  have hunit : unitConstraints cs unitData unit = .ok constraints := by
    rw [unitConstraints, hunitData, getConstraints, hload]
  have havailable : constraints.available = cs := by
    obtain ⟨_, -, hconstraints⟩ := except_bind_ok _ _ _ hload
    injection hconstraints with hconstraints
    rw [← hconstraints]
  have hmachine : machineSatisfies cs s.machineData constraints m =
      (constraints.canSatisfy constraints).mapError .constraints := by
    rw [machineSatisfies, hdata, getConstraints, hload]
    cases hown : constraints.canSatisfy constraints with
    | error e =>
      simp only [bind, Except.bind, hown]
      rfl
    | ok b =>
      simp only [bind, Except.bind, hown]
      rfl
  unfold Placements.compare
  rw [hunit]
  dsimp only
  split
  · rename_i e _
    exact ⟨refused_node s.topology unit e, by simp⟩
  · rename_i satisfied hsatisfied
    refine ⟨⟨hcreated.numbered, ⟨constraints, hunit, ?_⟩, by simp⟩, by simp⟩
    cases hown : constraints.canSatisfy constraints with
    | error e =>
      rw [hmachine, hown] at hsatisfied
      cases hsatisfied
    | ok b =>
      rw [hmachine, hown]
      rw [Constraints.canSatisfy_own constraints (havailable ▸ haccepts) hcomplete b hown]
      rfl

/-- A unit in a container that is there is not assigned. -/
theorem assignUnit_refused {t : InternalTopology} (h : Integrity t) (unit : ServiceUnitState)
    (m : String) (e : ManagerError) (t' : InternalTopology)
    (herror : TopologyChange.run (fun _ => .ok false) (.assignUnit unit m) t = .error e t') :
    Refused t unit (.error e) := by
  intro u c hu hc
  refine ⟨e, rfl, ?_⟩
  rintro ⟨psid, hpsid⟩
  obtain ⟨service, principal, n, -, -, -, hcontainer⟩ :=
    getServiceUnitContainer_present h _ _ u hu c hc psid hpsid
  have hin : t.serviceUnit? unit.internalServiceId unit.internalId ≠ none := by
    rw [hu]
    nofun
  rw [TopologyChange.run, checkValidIn_bind, if_neg hin, get_bind,
    bind_of_ok _ _ _ _ _ (onTopology_succeeds _ _ _ hcontainer), raiseIf_bind,
    if_pos Option.isSome_some] at herror
  injection herror with he
  exact .inl he.symm

theorem assign_evaluated (h : PlacementsSound cs unitData (fun _ => True) s)
    (unit : ServiceUnitState) (m : String)
    (hcall : CallSound cs unitData s (.assigning unit m none)) :
    CallSound cs unitData s (s.evaluate unit (.assignUnit unit m) (.assigning unit m)) ∧
      ∀ unit' m' evaluated, s.evaluate unit (.assignUnit unit m) (.assigning unit m) ≠
        .adding unit' m' evaluated := by
  unfold Placements.evaluate
  cases hrun : TopologyChange.run (fun _ => .ok false) (.assignUnit unit m) s.topology with
  | error e t' => exact ⟨assignUnit_refused h.integrity unit m e t' hrun, nofun⟩
  | ok _ t' =>
    refine ⟨⟨hcall.1, hcall.2.1, fun version topology hev => ?_⟩, nofun⟩
    obtain ⟨rfl, rfl⟩ := Prod.mk.inj (Option.some.inj hev)
    exact ⟨le_refl _, fun _ => hrun⟩

theorem addMachine_new {t : InternalTopology} (m : String) (hm : m ∉ t.machines) :
    addMachine m t = .ok () { t with machines := t.machines.insert m () } := by
  simp only [addMachine, get_bind, raiseIf_bind, if_neg hm, modify_run]

theorem add_evaluated (unit : ServiceUnitState) (m : String) (hm : m ∉ s.topology.machines) :
    s.evaluate unit (.addMachine m) (.adding unit m) = .adding unit m (some (s.version,
      { s.topology with machines := s.topology.machines.insert m () })) := by
  have hrun := onTopology_succeeds _ _ _ (addMachine_new m hm)
  rw [Placements.evaluate, TopologyChange.run, hrun]

/-- The machine of a call is its own while it is added. -/
theorem adds_own (h : PlacementsSound cs unitData (fun _ => True) s) (c : C)
    (unit unit' : ServiceUnitState) (m m' : String)
    (evaluated next next' : Option (Nat × InternalTopology))
    (hc : s.calls c = .adding unit m evaluated)
    (heq : PlaceCall.adding unit m next = .adding unit' m' next') :
    m' ∉ s.topology.machines ∧
      ∀ c' unit'' evaluated', c' ≠ c → s.calls c' ≠ .adding unit'' m' evaluated' := by
  injection heq with _ hm _
  subst hm
  refine ⟨h.fresh c unit m evaluated trivial hc, fun c' unit'' evaluated' hne hadding => hne ?_⟩
  exact h.addsApart c' c unit'' unit m evaluated' evaluated trivial trivial hadding hc

variable [DecidableEq C]

theorem create_sound (h : PlacementsSound cs unitData (fun _ => True) s) (c : C)
    (unit : ServiceUnitState) :
    PlacementsSound cs unitData (fun _ => True) (s.create cs unitData c unit) := by
  unfold Placements.create
  cases hunit : unitConstraints cs unitData unit with
  | error e => exact setCall_sound_of c _ h (refused_node s.topology unit e) nofun
  | ok constraints =>
    dsimp only
    split
    · rename_i e _
      exact setCall_sound_of c _ h (refused_node s.topology unit _) nofun
    · exact setCall_sound_of c _ h (fun _ _ _ _ => ⟨_, rfl, fun _ => .inr (.inl rfl)⟩) nofun
    · rename_i hcomplete
      obtain ⟨data, hunitData, hload⟩ : ∃ data, unitData unit.internalId = some data ∧
          cs.load data = .ok constraints := by
        unfold unitConstraints getConstraints at hunit
        split at hunit
        · cases hunit
        · rename_i data hdata
          split at hunit
          · cases hunit
          · rename_i c' hload
            injection hunit with hunit
            exact ⟨data, hdata, hunit ▸ hload⟩
      have hdata : constraints.data = data := by
        obtain ⟨_, -, hconstraints⟩ := except_bind_ok _ _ _ hload
        injection hconstraints with hconstraints
        rw [← hconstraints]
      -- the id is new, so what was read of the other machines stands
      have hlater : Later s { s with
          nextMachine := s.nextMachine + 1
          machineData := s.machineData.insert (internalMachineId s.nextMachine)
            constraints.data } := by
        refine ⟨Nat.le_succ _, fun k hk => ?_, fun _ _ => rfl, .inr ⟨rfl, rfl⟩⟩
        rw [Dict.lookup_insert, if_neg]
        intro heq
        have := internalMachineId_injective _ _ heq
        omega
      refine setCall_sound c _ ⟨h.integrity, ?_, ?_, ?_, ?_, ?_⟩ ?_ ?_
      · exact fun m hm => later_numbered hlater m (h.sequenced m hm)
      · refine ⟨h.units.apart, h.units.notRoot, ?_, h.units.own⟩
        intro sid uid u m hu hm
        exact later_satisfied hlater uid m (h.sequenced m (h.integrity.unitMachine sid uid u m hu hm))
          (h.units.satisfied sid uid u m hu hm)
      · exact fun c' unit' m evaluated _ => h.fresh c' unit' m evaluated trivial
      · exact fun c₁ c₂ unit₁ unit₂ m evaluated₁ evaluated₂ _ _ =>
          h.addsApart c₁ c₂ unit₁ unit₂ m evaluated₁ evaluated₂ trivial trivial
      · exact fun c' _ => later_sound hlater h.sequenced _ (h.calls c' trivial)
      · refine ⟨⟨⟨s.nextMachine, Nat.lt_succ_self _, rfl⟩, ⟨data, constraints, ?_, hunitData, hload,
          hcomplete⟩⟩, nofun⟩
        rw [Dict.lookup_insert, if_pos rfl, hdata]
      · intro unit' m evaluated heq
        injection heq with _ hm _
        subst hm
        constructor
        · intro hin
          obtain ⟨k, hk, hid⟩ := h.sequenced _ hin
          have := internalMachineId_injective _ _ hid
          omega
        · intro c' unit'' evaluated' _ hadding
          have hcall := h.calls c' trivial
          rw [hadding] at hcall
          obtain ⟨k, hk, hid⟩ := hcall.1.numbered
          have := internalMachineId_injective _ _ hid
          omega

/-- A search or an assignment writes what it has read, which places the units rightly just when
nothing hinders it. -/
theorem assigned_sound (h : PlacementsSound cs unitData (fun _ => True) s) (c : C)
    (unit : ServiceUnitState) (m : String) (t' : InternalTopology)
    (hsatisfied : Satisfied cs unitData s unit.internalId m)
    (hassign : assignServiceUnitToMachine unit.internalServiceId unit.internalId m s.topology =
      .ok () t')
    (hplaced : UnitsPlaced cs unitData (s.commit t')) :
    PlacementsSound cs unitData (fun _ => True)
      ((s.commit t').setCall c (.ended unit (.ok m))) := by
  obtain ⟨u, hu, -, -, hmachines, hafter⟩ := assignServiceUnitToMachine_ok _ _ _ hassign
  have hcontainers := assigned_containers _ _ _ hassign
  have hintegrity : Integrity t' := by
    have hcall := call_integrity h.integrity
      (.assignServiceUnitToMachine unit.internalServiceId unit.internalId m)
    rw [call, hassign] at hcall
    exact hcall
  have hcommit := commit_sound c t' h hintegrity hcontainers
    (fun m' hm' => .inl (hmachines ▸ hm')) hplaced
  refine setCall_sound c _ hcommit ?_ (by simp)
  intro u' cid hu' hc
  have hfree := ((placed_assign_iff h.units _ _ m t' hsatisfied hassign).mp hplaced).1 u hu
  have hsame := hcontainers unit.internalServiceId unit.internalId
  rw [show (s.commit t').topology = t' from rfl] at hu'
  rw [hu', hu, Option.map_some, Option.map_some, hfree, hc] at hsame
  cases hsame

theorem added_sound (h : PlacementsSound cs unitData (fun _ => True) s) (c : C)
    (unit : ServiceUnitState) (m : String) (evaluated : Option (Nat × InternalTopology))
    (t' : InternalTopology) (hc : s.calls c = .adding unit m evaluated)
    (hadd : addMachine m s.topology = .ok () t') :
    PlacementsSound cs unitData (fun _ => True)
      ((s.commit t').setCall c (.comparing unit m)) := by
  obtain ⟨-, ht'⟩ := addMachine_ok m hadd
  have hcall := h.calls c trivial
  rw [hc] at hcall
  have hservices : t'.services = s.topology.services := by rw [ht']
  have hintegrity : Integrity t' := by
    have hcalled := call_integrity h.integrity (.addMachine m)
    rw [call, hadd] at hcalled
    exact hcalled
  have hcontainers : ∀ sid uid, (t'.serviceUnit? sid uid).map ServiceUnit.container =
      (s.topology.serviceUnit? sid uid).map ServiceUnit.container := by
    intro sid uid
    rw [serviceUnit?_of_services s.topology t' hservices]
  have hmachines : ∀ m' ∈ t'.machines, m' ∈ s.topology.machines ∨
      (∃ k < s.nextMachine, m' = internalMachineId k) ∧
        ∃ unit evaluated, s.calls c = .adding unit m' evaluated := by
    intro m' hm'
    rw [ht'] at hm'
    rcases (AList.mem_insert _).mp hm' with rfl | hold
    · exact .inr ⟨hcall.1.numbered, unit, evaluated, hc⟩
    · exact .inl hold
  have hcommit := commit_sound c t' h hintegrity hcontainers hmachines
    (placed_of_services h.units t' hservices)
  exact setCall_sound c _ hcommit (later_created (later_commit t' hcontainers) unit m hcall.1)
    (by simp)

/-- The unit had the machine already. -/
theorem unchanged_sound (h : PlacementsSound cs unitData (fun _ => True) s) (c : C)
    (unit : ServiceUnitState) (m : String)
    (hcontainer : getServiceUnitContainer unit.internalId s.topology = .ok none s.topology)
    (hsame : s.topology.unitMachine unit.internalServiceId unit.internalId = some m) :
    PlacementsSound cs unitData (fun _ => True)
        ((s.commit s.topology).setCall c (.ended unit (.ok m))) ∧
      m ≠ rootMachineId ∧ ∀ sid uid u, s.topology.serviceUnit? sid uid = some u →
        u.machine = some m → uid = unit.internalId := by
  obtain ⟨u, hu, hm⟩ := Option.bind_eq_some_iff.mp hsame
  have hnone := container_none_of_ok h.integrity _ _ u hu hcontainer
  have hcommit := commit_sound c s.topology h h.integrity (fun _ _ => rfl) (fun _ => .inl)
    (placed_of_services h.units s.topology rfl)
  refine ⟨setCall_sound c _ hcommit ?_ nofun, ?_, ?_⟩
  · intro u' cid hu' hc
    obtain rfl : u = u' := Option.some.inj (hu.symm.trans hu')
    rw [hnone] at hc
    cases hc
  · rintro rfl
    exact h.units.notRoot _ _ u hu hm
  · exact fun sid uid u' hu' hm' => h.units.apart sid uid u' _ _ u m hu' hu hm' hm

/-- A call's next step keeps what is sound when nothing hinders it, and where something does the
placement is exclusive no more. -/
theorem goOn_sound (haccepts : cs.AcceptsOwn)
    (h : PlacementsSound cs unitData (fun _ => True) s) (c : C) (s' : Placements C)
    (hs : s.goOn cs unitData c = some s') :
    (CallUnhindered s (s.calls c) → PlacementsSound cs unitData (fun _ => True) s') ∧
      (Exclusive cs unitData s' → CallUnhindered s (s.calls c)) := by
  have hcall := h.calls c trivial
  unfold Placements.goOn at hs
  cases hc : s.calls c with
  | idle =>
    rw [hc] at hs
    cases hs
  | ended unit result =>
    rw [hc] at hs
    cases hs
  | creating unit =>
    rw [hc] at hs
    obtain rfl := Option.some.inj hs
    exact ⟨fun _ => create_sound h c unit, fun _ => trivial⟩
  | comparing unit m =>
    rw [hc] at hs hcall
    obtain rfl := Option.some.inj hs
    obtain ⟨hsound, hnot⟩ := compare_sound haccepts unit m hcall
    exact ⟨fun _ => setCall_sound_of c _ h hsound hnot, fun _ => trivial⟩
  | searching unit evaluated =>
    rw [hc] at hs hcall
    cases evaluated with
    | none =>
      obtain rfl := Option.some.inj hs
      obtain ⟨hsound, hnot⟩ := search_sound h unit
      exact ⟨fun _ => setCall_sound_of c _ h hsound hnot, fun _ => trivial⟩
    | some e =>
      obtain ⟨version, t', m⟩ := e
      dsimp only at hs
      split at hs
      · rename_i hversion
        obtain rfl := Option.some.inj hs
        obtain ⟨constraints, hunit, hsuits, hassign⟩ := hcall.2 hversion
        have hsatisfied : Satisfied cs unitData s unit.internalId m :=
          ⟨constraints, hunit, hsuits.satisfied⟩
        have hplaced := placed_assign_iff h.units _ _ m t' hsatisfied hassign
        constructor
        · intro hfree
          refine assigned_sound h c unit m t' hsatisfied hassign (hplaced.mpr ⟨hfree hversion,
            hsuits.notRoot, fun sid uid u hu hm => absurd hm (hsuits.unused sid uid u hu)⟩)
        · exact fun hexclusive _ => (hplaced.mp ⟨hexclusive.units.apart, hexclusive.units.notRoot,
            hexclusive.units.satisfied, hexclusive.units.own⟩).1
      · rename_i hversion
        obtain rfl := Option.some.inj hs
        exact ⟨fun _ => setCall_sound_of c _ h trivial nofun, fun _ heq => absurd heq hversion⟩
  | adding unit m evaluated =>
    rw [hc] at hs hcall
    refine ⟨fun _ => ?_, fun _ => trivial⟩
    cases evaluated with
    | none =>
      obtain rfl := Option.some.inj hs
      have hm := h.fresh c unit m none trivial hc
      rw [add_evaluated unit m hm]
      refine setCall_sound c _ (sound_among _ h) ⟨hcall.1, fun version topology hev => ?_⟩
        fun unit' m' evaluated' heq => adds_own h c unit unit' m m' none _ evaluated' hc heq
      obtain ⟨rfl, rfl⟩ := Prod.mk.inj (Option.some.inj hev)
      exact ⟨le_refl _, fun _ => addMachine_new m hm⟩
    | some e =>
      obtain ⟨version, t'⟩ := e
      dsimp only at hs
      split at hs
      · rename_i hversion
        obtain rfl := Option.some.inj hs
        exact added_sound h c unit m _ t' hc ((hcall.2 version t' rfl).2 hversion)
      · obtain rfl := Option.some.inj hs
        exact setCall_sound c _ (sound_among _ h) ⟨hcall.1, nofun⟩ fun unit' m' evaluated' heq =>
          adds_own h c unit unit' m m' _ none evaluated' hc heq
  | assigning unit m evaluated =>
    rw [hc] at hs hcall
    cases evaluated with
    | none =>
      obtain rfl := Option.some.inj hs
      obtain ⟨hsound, hnot⟩ := assign_evaluated h unit m hcall
      exact ⟨fun _ => setCall_sound_of c _ h hsound hnot, fun _ => trivial⟩
    | some e =>
      obtain ⟨version, t'⟩ := e
      dsimp only at hs
      split at hs
      · rename_i hversion
        obtain rfl := Option.some.inj hs
        obtain ⟨-, hsatisfied, hevaluated⟩ := hcall
        obtain ⟨hcontainer, hchange⟩ := assignUnit_ok _ unit m ((hevaluated version t' rfl).2 hversion)
        rcases hchange with ⟨rfl, hsame⟩ | hassign
        · obtain ⟨hsound, hfree⟩ := unchanged_sound h c unit m hcontainer hsame
          exact ⟨fun _ => hsound, fun _ _ => hfree⟩
        · have hnone : ∀ u, s.topology.serviceUnit? unit.internalServiceId unit.internalId =
              some u → u.container = none :=
            fun u hu => container_none_of_ok h.integrity _ _ u hu hcontainer
          have hplaced := placed_assign_iff h.units _ _ m t' hsatisfied hassign
          constructor
          · intro hfree
            exact assigned_sound h c unit m t' hsatisfied hassign (hplaced.mpr ⟨hnone, hfree hversion⟩)
          · exact fun hexclusive _ => (hplaced.mp ⟨hexclusive.units.apart,
              hexclusive.units.notRoot, hexclusive.units.satisfied, hexclusive.units.own⟩).2
      · rename_i hversion
        obtain rfl := Option.some.inj hs
        exact ⟨fun _ => setCall_sound_of c _ h ⟨hcall.1, hcall.2.1, nofun⟩ nofun,
          fun _ heq => absurd heq hversion⟩

theorem place_sound (haccepts : cs.AcceptsOwn)
    (h : PlacementsSound cs unitData (fun _ => True) s) (e : PlaceEvent C) (s' : Placements C)
    (hs : s.step cs unitData e = some s') :
    (Unhindered s e → PlacementsSound cs unitData (fun _ => True) s') ∧
      (Exclusive cs unitData s' → Unhindered s e) := by
  cases e with
  | goOn c => exact goOn_sound haccepts h c s' hs
  | start c unit =>
    refine ⟨fun _ => ?_, fun _ => trivial⟩
    have hset : s' = s.setCall c (.searching unit none) := by
      unfold Placements.step at hs
      dsimp only at hs
      split at hs
      · exact (Option.some.inj hs).symm
      · exact (Option.some.inj hs).symm
      · cases hs
    subst hset
    exact setCall_sound_of c _ h trivial nofun

end calls

/-- Nothing hinders placements as long as no unit in a container takes a machine that its search
found, and no created machine is the root machine or taken by another search before it is
assigned; and only such a step has them exclusive no more. -/
theorem unassigned_placement_exclusive [DecidableEq C] {F : Type} [DecidableEq F]
    (float : FloatType F) (provider : Provider) (cs : ConstraintSet (ConstraintValue F))
    (hcs : provider.constraintSet float = .ok cs) (unitData : String → Option ConstraintsData)
    (s : Placements C)
    (h : Reachable Placements.Initial (Placements.step cs unitData) Unhindered s) :
    Exclusive cs unitData s ∧ ∀ e s', s.step cs unitData e = some s' →
      (Exclusive cs unitData s' ↔ Unhindered s e) := by
  have haccepts := provider_acceptsOwn float provider cs hcs
  have hexclusive (s : Placements C) (h : PlacementsSound cs unitData (fun _ => True) s) :
      Exclusive cs unitData s := by
    refine ⟨h.units, fun c unit result hc => ?_⟩
    have hcall := h.calls c trivial
    rw [hc] at hcall
    exact hcall
  have hsound := reachable_invariant (PlacementsSound cs unitData (fun _ => True))
    (fun s hinit => by
      have hidle (c : C) : s.calls c = .idle := hinit.calls c
      have hfree := hinit.unassigned
      refine ⟨hinit.integrity, hinit.sequenced, ⟨?_, ?_, ?_, ?_⟩, ?_, ?_, ?_⟩
      · intro sid uid unit _ _ _ m hu _ hm
        rw [hfree sid uid unit hu] at hm
        cases hm
      · intro sid uid unit hu
        rw [hfree sid uid unit hu]
        nofun
      · intro sid uid unit m hu hm
        rw [hfree sid uid unit hu] at hm
        cases hm
      · exact fun sid uid unit hu _ => hfree sid uid unit hu
      · intro c unit m evaluated _ hc
        rw [hidle c] at hc
        cases hc
      · intro c _ unit _ m evaluated _ _ _ hc
        rw [hidle c] at hc
        cases hc
      · intro c _
        rw [hidle c]
        trivial)
    (fun s s' e hi he hs => (place_sound haccepts hi e s' hs).1 he) s h
  refine ⟨hexclusive s hsound, fun e s' hs => ⟨(place_sound haccepts hsound e s' hs).2, fun he => ?_⟩⟩
  exact hexclusive s' ((place_sound haccepts hsound e s' hs).1 he)

theorem getMachines_insertionSort (t : InternalTopology) :
    t.getMachines = t.machines.keys.insertionSort (· ≤ ·) :=
  List.mergeSort_eq_insertionSort _ _

/-- A search over the machines in the order of their ids. -/
theorem assignUnusedUnit_sorted (satisfies : String → Except NodeError Bool)
    (unit : ServiceUnitState) (t : InternalTopology)
    (hin : t.serviceUnit? unit.internalServiceId unit.internalId ≠ none) :
    assignUnusedUnit satisfies unit t = (do
      let machineId ← unusedMachine satisfies (t.machines.keys.insertionSort (· ≤ ·))
      onTopology (assignServiceUnitToMachine unit.internalServiceId unit.internalId machineId)
      pure machineId : EStateM ManagerError InternalTopology String) t := by
  rw [assignUnusedUnit, checkValidIn_bind, if_neg hin, get_bind, getMachines_insertionSort]

/-- What holds of each unit listed holds of each unit found. -/
theorem units_all (t : InternalTopology) (P : ServiceUnit → Prop)
    (h : ∀ e ∈ t.services.entries, ∀ u ∈ e.2.units.entries, P u.2) (sid uid : String)
    (unit : ServiceUnit) (hunit : t.serviceUnit? sid uid = some unit) : P unit := by
  obtain ⟨service, hs, hu⟩ := Option.bind_eq_some_iff.mp hunit
  exact h ⟨sid, service⟩ ((Dict.mem_entries_iff _ ⟨sid, service⟩).mpr hs) ⟨uid, unit⟩
    ((Dict.mem_entries_iff _ ⟨uid, unit⟩).mpr hu)

section twoUnits

/-- Numbers in place of floats. -/
def wholeNumbers : FloatType Nat where
  parse s :=
    if s.toList ≠ [] ∧ s.toList.all Char.isDigit then .ok (Nat.ofDigitChars 10 s.toList 0)
    else .error "could not convert string to float"
  times := (· * ·)
  ge a b := decide (b ≤ a)
  zero := 0
  ge_self _ _ := decide_eq_true (le_refl _)

def dummyConstraintSet : ConstraintSet (ConstraintValue Nat) :=
  match Provider.dummy.constraintSet wholeNumbers with
  | .ok cs => cs
  | .error _ => .new .text "dummy"

def completeData : ConstraintsData :=
  (AList.singleton "provider-type" (some "dummy")).insert "ubuntu-series" (some "precise")

/-- The root machine, and two units of a service without a machine. -/
def twoUnits : Placements Bool where
  topology := [TopologyCall.addMachine rootMachineId, .addService "service-0" "mysql",
    .addServiceUnit "service-0" "unit-0" none,
    .addServiceUnit "service-0" "unit-1" none].foldl call freshTopology
  version := 0
  nextMachine := 1
  machineData := AList.singleton rootMachineId completeData
  calls _ := .idle

theorem twoUnits_initial : twoUnits.Initial where
  integrity := calls_integrity freshTopology_integrity _
  unassigned := units_all _ (fun u => u.machine = none) (by decide)
  sequenced m hm := by
    have hkeys : m ∈ twoUnits.topology.machines.keys := AList.mem_keys.mp hm
    obtain rfl := List.mem_singleton.mp hkeys
    exact ⟨0, by decide, rfl⟩
  calls _ := rfl

def unit0 : ServiceUnitState := ⟨"service-0", "mysql", 0, "unit-0"⟩

def unit1 : ServiceUnitState := ⟨"service-0", "mysql", 1, "unit-1"⟩

theorem twoUnits_search :
    (twoUnits.setCall false (.searching unit0 none)).search dummyConstraintSet
      (fun _ => some completeData) unit0 = .creating unit0 := by
  have hrun := assignUnusedUnit_sorted (machineSatisfies dummyConstraintSet twoUnits.machineData
    ⟨dummyConstraintSet, completeData⟩) unit0 twoUnits.topology (by decide)
  have hnone : assignUnusedUnit (machineSatisfies dummyConstraintSet twoUnits.machineData
      ⟨dummyConstraintSet, completeData⟩) unit0 twoUnits.topology =
      .error .noUnusedMachines twoUnits.topology := hrun.trans rfl
  unfold Placements.search
  have hunit : unitConstraints dummyConstraintSet (fun _ => some completeData) unit0 =
    .ok ⟨dummyConstraintSet, completeData⟩ := rfl
  rw [hunit]
  dsimp only
  rw [show (twoUnits.setCall false (.searching unit0 none)).topology = twoUnits.topology from rfl,
    show (twoUnits.setCall false (.searching unit0 none)).machineData = twoUnits.machineData
      from rfl, hnone]

/-- No machine suits the first unit. -/
def creating : Placements Bool :=
  (twoUnits.setCall false (.searching unit0 none)).setCall false (.creating unit0)

def dummyStep : Placements Bool → PlaceEvent Bool → Option (Placements Bool) :=
  Placements.step dummyConstraintSet fun _ => some completeData

theorem creating_reached (fine : Placements Bool → PlaceEvent Bool → Prop)
    (hstart : fine twoUnits (.start false unit0))
    (hsearch : fine (twoUnits.setCall false (.searching unit0 none)) (.goOn false)) :
    Reachable Placements.Initial dummyStep fine creating := by
  have hsearching : Reachable Placements.Initial dummyStep fine
      (twoUnits.setCall false (.searching unit0 none)) :=
    .step _ _ (PlaceEvent.start false unit0) (.init twoUnits twoUnits_initial) hstart rfl
  refine .step _ _ (PlaceEvent.goOn false) hsearching hsearch ?_
  show some ((twoUnits.setCall false (.searching unit0 none)).setCall false
    ((twoUnits.setCall false (.searching unit0 none)).search dummyConstraintSet
      (fun _ => some completeData) unit0)) = some creating
  rw [twoUnits_search, creating]

theorem unassigned_placement_exclusive_created :
    ∃ s, Exclusive dummyConstraintSet (fun _ => some completeData) s ∧
      s.calls false = .ended unit0 (.ok (internalMachineId 1)) ∧
      s.topology.unitMachine "service-0" "unit-0" = some (internalMachineId 1) := by
  have hcreating := creating_reached Unhindered trivial trivial
  have hcreated : Reachable Placements.Initial dummyStep Unhindered _ :=
    .step _ _ (PlaceEvent.goOn false) hcreating trivial rfl
  have hread : Reachable Placements.Initial dummyStep Unhindered _ :=
    .step _ _ (PlaceEvent.goOn false) hcreated trivial rfl
  have hadded : Reachable Placements.Initial dummyStep Unhindered _ :=
    .step _ _ (PlaceEvent.goOn false) hread trivial rfl
  have hcompared : Reachable Placements.Initial dummyStep Unhindered _ :=
    .step _ _ (PlaceEvent.goOn false) hadded trivial rfl
  have hassigning : Reachable Placements.Initial dummyStep Unhindered _ :=
    .step _ _ (PlaceEvent.goOn false) hcompared trivial rfl
  have hassigned : Reachable Placements.Initial dummyStep Unhindered _ :=
    .step _ _ (PlaceEvent.goOn false) hassigning
      (fun _ => ⟨by decide, fun sid uid u hu hm => absurd hm
        (units_all _ (fun u => u.machine ≠ some (internalMachineId 1)) (by decide) sid uid u hu)⟩)
      rfl
  exact ⟨_, (unassigned_placement_exclusive wholeNumbers .dummy dummyConstraintSet rfl
    (fun _ => some completeData) _ hassigned).1, rfl, rfl⟩

/-- The search for the second unit finds the machine that was created for the first. -/
theorem second_search (s : Placements Bool)
    (htopology : s.topology = { twoUnits.topology with
      machines := twoUnits.topology.machines.insert (internalMachineId 1) () })
    (hdata : s.machineData = twoUnits.machineData.insert (internalMachineId 1) completeData) :
    s.search dummyConstraintSet (fun _ => some completeData) unit1 =
      .searching unit1 (some (s.version, call s.topology (.assignServiceUnitToMachine "service-0"
        "unit-1" (internalMachineId 1)), internalMachineId 1)) := by
  have hrun := assignUnusedUnit_sorted (machineSatisfies dummyConstraintSet s.machineData
    ⟨dummyConstraintSet, completeData⟩) unit1 s.topology (by rw [htopology]; decide)
  have hfound : assignUnusedUnit (machineSatisfies dummyConstraintSet s.machineData
      ⟨dummyConstraintSet, completeData⟩) unit1 s.topology = .ok (internalMachineId 1)
        (call s.topology (.assignServiceUnitToMachine "service-0" "unit-1"
          (internalMachineId 1))) := by
    rw [hrun, htopology, hdata]
    rfl
  have hunit : unitConstraints dummyConstraintSet (fun _ => some completeData) unit1 =
    .ok ⟨dummyConstraintSet, completeData⟩ := rfl
  rw [Placements.search, hunit]
  dsimp only
  rw [hfound]

/-- The machine created for one unit is taken for another before it is assigned, and then has
both. -/
theorem created_machine_taken :
    ∃ s, Reachable Placements.Initial dummyStep (fun _ _ => True) s ∧
      s.topology.unitMachine "service-0" "unit-0" = some (internalMachineId 1) ∧
      s.topology.unitMachine "service-0" "unit-1" = some (internalMachineId 1) ∧
      ¬ Exclusive dummyConstraintSet (fun _ => some completeData) s := by
  have hadded : Reachable Placements.Initial dummyStep (fun _ _ => True) _ :=
    reachable_stepAll (fun _ _ => trivial) [.goOn false, .goOn false, .goOn false, .start true unit1]
      creating _ (creating_reached _ trivial trivial) rfl
  have hfound : Reachable Placements.Initial dummyStep (fun _ _ => True) _ :=
    .step _ _ (PlaceEvent.goOn true) hadded trivial
      (congrArg some (congrArg (Placements.setCall _ true) (second_search _ rfl rfl)))
  have hboth : Reachable Placements.Initial dummyStep (fun _ _ => True) _ :=
    reachable_stepAll (fun _ _ => trivial) [.goOn true, .goOn false, .goOn false, .goOn false]
      _ _ hfound rfl
  refine ⟨_, hboth, rfl, rfl, fun hexclusive => ?_⟩
  have hsame := hexclusive.units.apart "service-0" "unit-0" _ "service-0" "unit-1" _
    (internalMachineId 1) rfl rfl rfl rfl
  exact absurd hsame (by decide)

end twoUnits

end Juju.State

import Juju.Machine.ProviderConstraints
import Juju.State.ManagerRuns
import Juju.State.MachineUnits

namespace Juju.State
open Juju.Base Juju.Machine

/-- The data of constraints, as a node holds it. -/
abbrev ConstraintsData := Dict String (Option String)

/-- A client's `place_unit(…, "unassigned")`. A change that has been evaluated keeps the version
that it read and the content that it will write. -/
inductive PlaceCall where
  | idle
  | searching (unit : ServiceUnitState) (evaluated : Option (Nat × InternalTopology × String))
  | creating (unit : ServiceUnitState)
  | adding (unit : ServiceUnitState) (machineId : String)
      (evaluated : Option (Nat × InternalTopology))
  /-- `assign_to_machine` has yet to compare the constraints. -/
  | comparing (unit : ServiceUnitState) (machineId : String)
  | assigning (unit : ServiceUnitState) (machineId : String)
      (evaluated : Option (Nat × InternalTopology))
  | ended (unit : ServiceUnitState) (result : Except ManagerError String)

/-- The topology node with its version, the next sequence number and the constraints of the
machine nodes, and the calls under way, named by `C`. -/
structure Placements (C : Type) where
  topology : InternalTopology
  version : Nat
  nextMachine : Nat
  machineData : Dict String ConstraintsData
  calls : C → PlaceCall

inductive PlaceEvent (C : Type) where
  | start (c : C) (unit : ServiceUnitState)
  | goOn (c : C)

variable {C V : Type} [DecidableEq C] (cs : ConstraintSet V)
  (unitData : String → Option ConstraintsData)

/-- `get_constraints` of a unit or a machine, from what its node holds. -/
def getConstraints (missing : NodeError) : Option ConstraintsData → Except NodeError (Constraints V)
  | none => .error missing
  | some data =>
    match cs.load data with
    | .error e => .error (.constraints e)
    | .ok constraints => .ok constraints

def unitConstraints (unit : ServiceUnitState) : Except NodeError (Constraints V) :=
  getConstraints cs .serviceUnitStateNotFound (unitData unit.internalId)

/-- Whether a machine's constraints satisfy a unit's. -/
def machineSatisfies (machineData : Dict String ConstraintsData) (constraints : Constraints V)
    (machineId : String) : Except NodeError Bool := do
  let machine ← getConstraints cs .machineStateNotFound (machineData.lookup machineId)
  match machine.canSatisfy constraints with
  | .error e => .error (.constraints e)
  | .ok satisfied => .ok satisfied

/-- `assign_unused_unit`, with the machine that it leaves in `scope_escaper`. -/
def assignUnusedUnit (satisfies : String → Except NodeError Bool) (unit : ServiceUnitState) :
    EStateM ManagerError InternalTopology String := do
  unit.checkValidIn
  let t ← get
  let machineId ← unusedMachine satisfies t.getMachines
  onTopology (assignServiceUnitToMachine unit.internalServiceId unit.internalId machineId)
  pure machineId

namespace Placements

def setCall (s : Placements C) (c : C) (call : PlaceCall) : Placements C :=
  { s with calls := Function.update s.calls c call }

/-- A content is set over the version that was read. -/
def commit (s : Placements C) (topology : InternalTopology) : Placements C :=
  { s with topology := topology, version := s.version + 1 }

/-- `assign_to_unused_machine` reads and evaluates, and what `_unassigned_placement` makes of what
that raises. -/
def search (s : Placements C) (unit : ServiceUnitState) : PlaceCall :=
  match unitConstraints cs unitData unit with
  | .error e => .ended unit (.error (.node e))
  | .ok constraints =>
    match assignUnusedUnit (machineSatisfies cs s.machineData constraints) unit s.topology with
    | .error .noUnusedMachines _ => .creating unit
    | .error e _ => .ended unit (.error e)
    | .ok machineId topology => .searching unit (some (s.version, topology, machineId))

/-- `add_machine_state` as far as the creation of the node. -/
def create (s : Placements C) (c : C) (unit : ServiceUnitState) : Placements C :=
  match unitConstraints cs unitData unit with
  | .error e => s.setCall c (.ended unit (.error (.node e)))
  | .ok constraints =>
    match constraints.complete with
    | .error e => s.setCall c (.ended unit (.error (.node (.constraints e))))
    | .ok false => s.setCall c (.ended unit (.error .constraintError))
    | .ok true =>
      { s with
        nextMachine := s.nextMachine + 1
        machineData := s.machineData.insert (internalMachineId s.nextMachine) constraints.data
        : Placements C }.setCall c (.adding unit (internalMachineId s.nextMachine) none)

/-- A change reads the topology and is evaluated. -/
def evaluate (s : Placements C) (unit : ServiceUnitState) (change : TopologyChange)
    (next : Option (Nat × InternalTopology) → PlaceCall) : PlaceCall :=
  match change.run (fun _ => .ok false) s.topology with
  | .error e _ => .ended unit (.error e)
  | .ok _ topology => next (some (s.version, topology))

/-- `assign_to_machine` compares the constraints, which does no more than log a warning. -/
def compare (s : Placements C) (unit : ServiceUnitState) (machineId : String) : PlaceCall :=
  match unitConstraints cs unitData unit with
  | .error e => .ended unit (.error (.node e))
  | .ok constraints =>
    match machineSatisfies cs s.machineData constraints machineId with
    | .error e => .ended unit (.error (.node e))
    | .ok _ => .assigning unit machineId none

/-- What a call does next. -/
def goOn (s : Placements C) (c : C) : Option (Placements C) :=
  match s.calls c with
  | .idle => none
  | .searching unit none => some (s.setCall c (s.search cs unitData unit))
  | .searching unit (some (version, topology, machineId)) =>
    if version = s.version then some ((s.commit topology).setCall c (.ended unit (.ok machineId)))
    else some (s.setCall c (.searching unit none))
  | .creating unit => some (s.create cs unitData c unit)
  | .adding unit machineId none =>
    some (s.setCall c (s.evaluate unit (.addMachine machineId) (.adding unit machineId)))
  | .adding unit machineId (some (version, topology)) =>
    if version = s.version then some ((s.commit topology).setCall c (.comparing unit machineId))
    else some (s.setCall c (.adding unit machineId none))
  | .comparing unit machineId => some (s.setCall c (s.compare cs unitData unit machineId))
  | .assigning unit machineId none =>
    some (s.setCall c (s.evaluate unit (.assignUnit unit machineId) (.assigning unit machineId)))
  | .assigning unit machineId (some (version, topology)) =>
    if version = s.version then some ((s.commit topology).setCall c (.ended unit (.ok machineId)))
    else some (s.setCall c (.assigning unit machineId none))
  | .ended _ _ => none

def step (s : Placements C) : PlaceEvent C → Option (Placements C)
  | .start c unit =>
    match s.calls c with
    | .idle | .ended _ _ => some (s.setCall c (.searching unit none))
    | _ => none
  | .goOn c => s.goOn cs unitData c

/-- A topology without assigned units, of machines that were numbered, and no call made. -/
structure Initial (s : Placements C) : Prop where
  integrity : Integrity s.topology
  unassigned : ∀ sid uid unit, s.topology.serviceUnit? sid uid = some unit → unit.machine = none
  sequenced : ∀ m ∈ s.topology.machines, ∃ k < s.nextMachine, m = internalMachineId k
  calls : ∀ c, s.calls c = .idle

end Placements

section changes

variable {t t' : InternalTopology}

theorem addMachine_ok (m : String) (h : addMachine m t = .ok () t') :
    m ∉ t.machines ∧ t' = { t with machines := t.machines.insert m () } := by
  simp only [addMachine, get_bind, raiseIf_bind, modify_run] at h
  split at h
  · cases h
  · rename_i hm
    injection h with _ h
    exact ⟨hm, h.symm⟩

theorem assignServiceUnitToMachine_ok (sid uid m : String)
    (h : assignServiceUnitToMachine sid uid m t = .ok () t') :
    ∃ unit, t.serviceUnit? sid uid = some unit ∧ unit.machine = none ∧ m ∈ t.machines ∧
      t'.machines = t.machines ∧ ∀ sid' uid', t'.serviceUnit? sid' uid' =
        if sid' = sid ∧ uid' = uid then some { unit with machine := some m }
        else t.serviceUnit? sid' uid' := by
  simp only [assignServiceUnitToMachine, assertServiceUnit_bind, assertMachine_bind, get_bind,
    raiseIf_bind] at h
  split at h
  · split at h
    · cases h
    · rename_i hunit
      obtain ⟨unit, hunit⟩ := Option.ne_none_iff_exists'.mp hunit
      obtain ⟨service, hs, hu⟩ := Option.bind_eq_some_iff.mp hunit
      split at h
      · rename_i hm
        split at h
        · cases h
        · rename_i hfree
          rw [modifyUnit_run _ _ _ _ _ _ hs hu] at h
          injection h with _ h
          subst h
          have hnone : unit.machine = none := by
            rw [hunit] at hfree
            simpa using hfree
          refine ⟨unit, hunit, hnone, hm, rfl, ?_⟩
          exact serviceUnit?_setUnit t _ sid uid service _ _ hs rfl
            fun uid' => Dict.lookup_insert service.units uid uid' _
      · cases h
  · cases h

theorem machineHasUnits_ok (m : String) (hasUnits : Bool)
    (h : machineHasUnits m t = .ok hasUnits t) :
    hasUnits = true ↔ ∃ sid uid unit, t.serviceUnit? sid uid = some unit ∧
      unit.machine = some m := by
  have hcount : hasUnits = t.services.entries.any fun s =>
      s.2.units.entries.any fun u => u.2.machine = some m := by
    simp only [machineHasUnits, assertMachine_bind, get_bind, pure_run] at h
    split at h
    · injection h with h
      exact h.symm
    · cases h
  rw [hcount, List.any_eq_true]
  constructor
  · rintro ⟨s, hs, hunits⟩
    obtain ⟨u, hu, hm⟩ := List.any_eq_true.mp hunits
    refine ⟨s.1, u.1, u.2, ?_, of_decide_eq_true hm⟩
    rw [serviceUnit?_lookup t s.1 u.1 s.2 ((Dict.mem_entries_iff _ s).mp hs)]
    exact (Dict.mem_entries_iff _ u).mp hu
  · rintro ⟨sid, uid, unit, hunit, hm⟩
    obtain ⟨service, hs, hu⟩ := Option.bind_eq_some_iff.mp hunit
    refine ⟨⟨sid, service⟩, (Dict.mem_entries_iff _ ⟨sid, service⟩).mpr hs, ?_⟩
    refine List.any_eq_true.mpr ⟨⟨uid, unit⟩, ?_, decide_eq_true hm⟩
    exact (Dict.mem_entries_iff service.units ⟨uid, unit⟩).mpr hu

/-- A machine that the search may take. -/
structure Suits (t : InternalTopology) (satisfies : String → Except NodeError Bool)
    (m : String) : Prop where
  present : m ∈ t.machines
  notRoot : m ≠ rootMachineId
  unused : ∀ sid uid unit, t.serviceUnit? sid uid = some unit → unit.machine ≠ some m
  satisfied : satisfies m = .ok true

theorem unusedMachine_spec (satisfies : String → Except NodeError Bool) (machines : List String)
    (hin : ∀ m ∈ machines, m ∈ t.machines) :
    (∃ m, unusedMachine satisfies machines t = .ok m t ∧ Suits t satisfies m) ∨
      unusedMachine satisfies machines t = .error .noUnusedMachines t ∨
      ∃ e, unusedMachine satisfies machines t = .error (.node e) t := by
  induction machines with
  | nil => exact .inr (.inl rfl)
  | cons m machines ih =>
    have hrest := ih fun m' hm' => hin m' (List.mem_cons_of_mem _ hm')
    have hm := hin m List.mem_cons_self
    unfold unusedMachine
    split
    · exact hrest
    · rename_i hroot
      obtain ⟨hasUnits, hrun⟩ := machineHasUnits_succeeds m hm
      have hunits := machineHasUnits_ok m hasUnits hrun
      rw [bind_of_ok _ _ _ _ _ (onTopology_succeeds _ _ _ hrun)]
      cases hasUnits with
      | true => exact hrest
      | false =>
        have hunused : ∀ sid uid unit, t.serviceUnit? sid uid = some unit →
            unit.machine ≠ some m := by
          intro sid uid unit hunit hmachine
          exact Bool.false_ne_true (hunits.mpr ⟨sid, uid, unit, hunit, hmachine⟩)
        simp only [Bool.false_eq_true, if_false]
        cases hsatisfies : satisfies m with
        | error e => exact .inr (.inr ⟨e, rfl⟩)
        | ok found =>
          cases found with
          | true => exact .inl ⟨m, rfl, hm, hroot, hunused, hsatisfies⟩
          | false => exact hrest

/-- A search finds a machine that suits and assigns the unit to it, or it raises. -/
theorem assignUnusedUnit_ok (satisfies : String → Except NodeError Bool) (unit : ServiceUnitState)
    (m : String) (h : assignUnusedUnit satisfies unit t = .ok m t') :
    Suits t satisfies m ∧
      assignServiceUnitToMachine unit.internalServiceId unit.internalId m t = .ok () t' := by
  rw [assignUnusedUnit, checkValidIn_bind] at h
  split at h
  · cases h
  · rw [get_bind] at h
    rcases unusedMachine_spec satisfies t.getMachines (fun m hm => (mem_getMachines m).mp hm) with
      ⟨m', hfound, hsuits⟩ | herror | ⟨e, herror⟩
    · rw [bind_of_ok _ _ _ _ _ hfound] at h
      obtain ⟨_, t₁, hassign, hm⟩ := bind_ok _ _ _ _ _ h
      injection hm with hm ht
      subst hm ht
      exact ⟨hsuits, onTopology_ok _ _ hassign⟩
    · rw [bind_run, herror] at h
      cases h
    · rw [bind_run, herror] at h
      cases h

/-- A unit that is there and has no machine is refused for want of a machine only. -/
theorem assignUnusedUnit_error (satisfies : String → Except NodeError Bool)
    (unit : ServiceUnitState) (e : ManagerError)
    (hin : t.serviceUnit? unit.internalServiceId unit.internalId ≠ none)
    (hfree : t.unitMachine unit.internalServiceId unit.internalId = none)
    (h : assignUnusedUnit satisfies unit t = .error e t') :
    e = .noUnusedMachines ∨ ∃ e', e = .node e' := by
  rw [assignUnusedUnit, checkValidIn_bind, if_neg hin, get_bind] at h
  rcases unusedMachine_spec satisfies t.getMachines (fun m hm => (mem_getMachines m).mp hm) with
    ⟨m, hfound, hsuits⟩ | herror | ⟨e', herror⟩
  · obtain ⟨t₁, hassign⟩ := assignServiceUnitToMachine_succeeds _ _ m hin hsuits.present hfree
    rw [bind_of_ok _ _ _ _ _ hfound,
      bind_of_ok _ _ _ _ _ (onTopology_succeeds _ _ _ hassign)] at h
    cases h
  · rw [bind_run, herror] at h
    injection h with h
    exact .inl h.symm
  · rw [bind_run, herror] at h
    injection h with h
    exact .inr ⟨e', h.symm⟩

theorem assignUnit_ok (satisfies : String → Except NodeError Bool) (unit : ServiceUnitState)
    (m : String) (h : TopologyChange.run satisfies (.assignUnit unit m) t = .ok () t') :
    getServiceUnitContainer unit.internalId t = .ok none t ∧
      ((t' = t ∧ t.unitMachine unit.internalServiceId unit.internalId = some m) ∨
        assignServiceUnitToMachine unit.internalServiceId unit.internalId m t = .ok () t') := by
  rw [TopologyChange.run, checkValidIn_bind] at h
  split at h
  · cases h
  · rw [get_bind] at h
    obtain ⟨container, t₁, hcontainer, h⟩ := bind_ok _ _ _ _ _ h
    have hrun := onTopology_ok _ _ hcontainer
    have ht₁ : t₁ = t := by
      have hkeeps := getServiceUnitContainer_keeps (· = t) unit.internalId t rfl
      rw [hrun] at hkeeps
      exact hkeeps
    subst ht₁
    rw [raiseIf_bind] at h
    split at h
    · cases h
    · rename_i hsome
      obtain rfl : container = none := by simpa using hsome
      refine ⟨hrun, ?_⟩
      cases hassigned : t₁.unitMachine unit.internalServiceId unit.internalId with
      | none =>
        rw [hassigned] at h
        exact .inr (onTopology_ok _ _ h)
      | some assigned =>
        rw [hassigned] at h
        simp only [raiseIf] at h
        split at h
        · cases h
        · rename_i hsame
          injection h with _ h
          exact .inl ⟨h.symm, congrArg some (not_not.mp hsame)⟩

end changes

end Juju.State

import Juju.Base.StateExcept
import Mathlib.Data.List.Dedup
import Mathlib.Logic.Function.Basic

namespace Juju.State.FirewallPass
open Juju.Base

/-- What a call of the state or of the provider raises, as its caller tells it apart. -/
inductive PortsError where
  | machinesNotFound
  | otherException
  deriving DecidableEq

/-- The calls that `open_close_ports_on_machine` makes. -/
inductive PortsRequest (U P : Type) where
  | machineState
  | instanceId
  | machine
  | serviceUnitStates
  | serviceState (unit : U)
  | exposedFlag (unit : U)
  | openPorts (unit : U)
  | openedPorts
  | openPort (port : P)
  | closePort (port : P)

/-- What the state says: a machine's units, whose services are exposed, and their open ports. -/
structure PortsState (M U P : Type) where
  units : M → List U
  exposed : U → Bool
  ports : U → List P

/-- The ports that the provider has opened, `_retry_machines_on_port_error` and
`_watched_machines`. -/
structure FirewallPorts (M P : Type) where
  opened : M → List P
  retry : List M
  watched : List M

inductive FirewallRaise where
  | stopWatcher
  deriving DecidableEq

abbrev PortsM (M P : Type) := EStateM PortsError (FirewallPorts M P)

variable {M U P : Type} [DecidableEq M] [DecidableEq P]

def FirewallPorts.openPort (s : FirewallPorts M P) (m : M) (port : P) : FirewallPorts M P :=
  { s with opened := Function.update s.opened m (port :: s.opened m) }

def FirewallPorts.closePort (s : FirewallPorts M P) (m : M) (port : P) : FirewallPorts M P :=
  { s with opened := Function.update s.opened m ((s.opened m).filter (· ≠ port)) }

section firewall

variable (w : PortsState M U P) (fails : M → PortsRequest U P → Option PortsError) (m : M)

def request (q : PortsRequest U P) : PortsM M P Unit :=
  match fails m q with
  | none => pure ()
  | some e => throw e

/-- The loop that collects `policy_ports`. -/
def readPolicyPorts : List U → PortsM M P (List P)
  | [] => pure []
  | u :: units => do
    request fails m (.serviceState u)
    request fails m (.exposedFlag u)
    if w.exposed u then
      request fails m (.openPorts u)
      let policy ← readPolicyPorts units
      pure (w.ports u ++ policy)
    else readPolicyPorts units

def openPorts : List P → PortsM M P Unit
  | [] => pure ()
  | port :: ports => do
    request fails m (.openPort port)
    modify fun s => s.openPort m port
    openPorts ports

def closePorts : List P → PortsM M P Unit
  | [] => pure ()
  | port :: ports => do
    request fails m (.closePort port)
    modify fun s => s.closePort m port
    closePorts ports

/-- What `open_close_ports_on_machine` tries. -/
def changePorts : PortsM M P Unit := do
  request fails m .machineState
  request fails m .instanceId
  request fails m .machine
  request fails m .serviceUnitStates
  let policy ← readPolicyPorts w fails m (w.units m)
  request fails m .openedPorts
  let s ← get
  let current := s.opened m
  openPorts fails m (policy.filter (· ∉ current)).dedup
  closePorts fails m (current.filter (· ∉ policy)).dedup

def openClosePortsOnMachine (running : Bool) : EStateM FirewallRaise (FirewallPorts M P) Unit :=
  fun s =>
    if ¬ running then .error .stopWatcher s
    else
      match changePorts w fails m s with
      | .ok () s' => .ok () s'
      | .error .machinesNotFound s' => .ok () s'
      | .error .otherException s' => .ok () { s' with retry := m :: s'.retry }

/-- A machine that is not watched yet is, and the watch calls back at once for its units. -/
def watchAssignedUnits (running : Bool) (s : FirewallPorts M P) : FirewallPorts M P :=
  if m ∈ s.watched then s
  else
    let s := { s with watched := m :: s.watched }
    if w.units m = [] then s else leaves (openClosePortsOnMachine w fails m running s)

def processMachine (running : Bool) (s : FirewallPorts M P) : FirewallPorts M P :=
  if m ∈ s.retry then
    let s := { s with retry := s.retry.filter (· ≠ m) }
    watchAssignedUnits w fails m running (leaves (openClosePortsOnMachine w fails m running s))
  else watchAssignedUnits w fails m running s

/-- The provider's open ports are those of the exposed units of the machine. -/
def PortsConverged (s : FirewallPorts M P) : Prop :=
  ∀ port, port ∈ s.opened m ↔ ∃ u ∈ w.units m, w.exposed u = true ∧ port ∈ w.ports u

/-- The machine's ports are right, or will be tried again, or some call has found no machine. -/
def PortsSettled (s : FirewallPorts M P) : Prop :=
  PortsConverged w m s ∨ m ∈ s.retry ∨ ∃ q, fails m q = some .machinesNotFound

section requests

variable {fails m}

omit [DecidableEq M] [DecidableEq P] in
theorem request_ok (q : PortsRequest U P) (s s' : FirewallPorts M P)
    (h : request fails m q s = .ok () s') : s' = s := by
  unfold request at h
  cases hq : fails m q with
  | none =>
    rw [hq] at h
    exact (EStateM.Result.ok.inj h).2.symm
  | some e =>
    rw [hq] at h
    cases h

omit [DecidableEq M] [DecidableEq P] in
theorem request_raises (q : PortsRequest U P) :
    Raises (fun e => ∃ q, fails m q = some e) (request fails m q) := by
  intro s e s' h
  unfold request at h
  cases hq : fails m q with
  | none =>
    rw [hq] at h
    cases h
  | some e' =>
    rw [hq] at h
    obtain ⟨rfl, -⟩ := EStateM.Result.error.inj h
    exact ⟨q, hq⟩

omit [DecidableEq M] [DecidableEq P] in
/-- What follows a request that has returned runs in the same state. -/
theorem request_bind_ok {α : Type} (q : PortsRequest U P) (f : Unit → PortsM M P α)
    (s s' : FirewallPorts M P) (a : α) (h : (request fails m q >>= f) s = .ok a s') :
    f () s = .ok a s' := by
  obtain ⟨⟨⟩, s₁, hfirst, hrest⟩ := bind_ok _ _ _ _ _ h
  rwa [request_ok q s s₁ hfirst] at hrest

end requests

omit [DecidableEq M] [DecidableEq P] in
theorem readPolicyPorts_ok (units : List U) (s s' : FirewallPorts M P) (policy : List P)
    (h : readPolicyPorts w fails m units s = .ok policy s') :
    s' = s ∧ ∀ port, port ∈ policy ↔ ∃ u ∈ units, w.exposed u = true ∧ port ∈ w.ports u := by
  induction units generalizing policy with
  | nil =>
    obtain ⟨rfl, rfl⟩ := EStateM.Result.ok.inj h
    simp
  | cons u units ih =>
    have hflag := request_bind_ok _ _ s s' policy (request_bind_ok _ _ s s' policy h)
    by_cases hu : w.exposed u = true
    · rw [if_pos hu] at hflag
      have hread := request_bind_ok _ _ s s' policy hflag
      obtain ⟨rest, s₁, hrest, hpure⟩ := bind_ok _ _ _ _ _ hread
      obtain ⟨rfl, rfl⟩ := EStateM.Result.ok.inj hpure
      obtain ⟨hs, hmem⟩ := ih rest hrest
      exact ⟨hs, fun port => by simp [hmem, hu]⟩
    · rw [if_neg hu] at hflag
      obtain ⟨hs, hmem⟩ := ih policy hflag
      exact ⟨hs, fun port => by simp [hmem, hu]⟩

omit [DecidableEq P] in
theorem openPorts_ok (ports : List P) (s s' : FirewallPorts M P)
    (h : openPorts fails m ports s = .ok () s') :
    s'.retry = s.retry ∧ ∀ port, port ∈ s'.opened m ↔ port ∈ s.opened m ∨ port ∈ ports := by
  induction ports generalizing s with
  | nil =>
    obtain ⟨-, rfl⟩ := EStateM.Result.ok.inj h
    simp
  | cons p ports ih =>
    have hopen := request_bind_ok _ _ s s' () h
    rw [modify_bind] at hopen
    obtain ⟨hretry, hmem⟩ := ih _ hopen
    refine ⟨hretry, fun port => ?_⟩
    simp only [hmem, FirewallPorts.openPort, Function.update_self, List.mem_cons]
    tauto

theorem closePorts_ok (ports : List P) (s s' : FirewallPorts M P)
    (h : closePorts fails m ports s = .ok () s') :
    s'.retry = s.retry ∧ ∀ port, port ∈ s'.opened m ↔ port ∈ s.opened m ∧ port ∉ ports := by
  induction ports generalizing s with
  | nil =>
    obtain ⟨-, rfl⟩ := EStateM.Result.ok.inj h
    simp
  | cons p ports ih =>
    have hclose := request_bind_ok _ _ s s' () h
    rw [modify_bind] at hclose
    obtain ⟨hretry, hmem⟩ := ih _ hclose
    refine ⟨hretry, fun port => ?_⟩
    simp only [hmem, FirewallPorts.closePort, Function.update_self, List.mem_filter,
      decide_eq_true_eq, List.mem_cons, not_or]
    tauto

/-- When nothing fails, what is missing is opened and what is too many is closed. -/
theorem changePorts_ok (s s' : FirewallPorts M P) (h : changePorts w fails m s = .ok () s') :
    PortsConverged w m s' := by
  have hunits := request_bind_ok _ _ s s' () (request_bind_ok _ _ s s' ()
    (request_bind_ok _ _ s s' () (request_bind_ok _ _ s s' () h)))
  obtain ⟨policy, s₁, hpolicy, hrest⟩ := bind_ok _ _ _ _ _ hunits
  obtain ⟨rfl, hmem⟩ := readPolicyPorts_ok w fails m _ s s₁ policy hpolicy
  have hcurrent := request_bind_ok _ _ s₁ s' () hrest
  rw [get_bind] at hcurrent
  obtain ⟨⟨⟩, s₂, hopen, hclose⟩ := bind_ok _ _ _ _ _ hcurrent
  obtain ⟨-, hopened⟩ := openPorts_ok fails m _ s₁ s₂ hopen
  obtain ⟨-, hclosed⟩ := closePorts_ok fails m _ s₂ s' hclose
  intro port
  rw [hclosed, hopened, ← hmem]
  simp only [List.mem_dedup, List.mem_filter, decide_eq_true_eq]
  tauto

/-- Every exception comes from a call that has failed. -/
theorem changePorts_raises :
    Raises (fun e => ∃ q, fails m q = some e) (changePorts w fails m) := by
  have hpolicy (units : List U) :
      Raises (fun e => ∃ q, fails m q = some e) (readPolicyPorts w fails m units) := by
    induction units with
    | nil => exact raises_pure _ _
    | cons u units ih =>
      refine raises_bind _ _ _ (request_raises _) fun _ => ?_
      refine raises_bind _ _ _ (request_raises _) fun _ => ?_
      split
      · refine raises_bind _ _ _ (request_raises _) fun _ => ?_
        exact raises_bind _ _ _ ih fun policy => raises_pure _ _
      · exact ih
  have hopen (ports : List P) :
      Raises (fun e => ∃ q, fails m q = some e) (openPorts fails m ports) := by
    induction ports with
    | nil => exact raises_pure _ _
    | cons port ports ih =>
      refine raises_bind _ _ _ (request_raises _) fun _ => ?_
      exact raises_bind _ _ _ (raises_modify _ _) fun _ => ih
  have hclose (ports : List P) :
      Raises (fun e => ∃ q, fails m q = some e) (closePorts fails m ports) := by
    induction ports with
    | nil => exact raises_pure _ _
    | cons port ports ih =>
      refine raises_bind _ _ _ (request_raises _) fun _ => ?_
      exact raises_bind _ _ _ (raises_modify _ _) fun _ => ih
  refine raises_bind _ _ _ (request_raises _) fun _ => ?_
  refine raises_bind _ _ _ (request_raises _) fun _ => ?_
  refine raises_bind _ _ _ (request_raises _) fun _ => ?_
  refine raises_bind _ _ _ (request_raises _) fun _ => ?_
  refine raises_bind _ _ _ (hpolicy _) fun policy => ?_
  refine raises_bind _ _ _ (request_raises _) fun _ => ?_
  refine raises_get_bind _ _ fun s => ?_
  exact raises_bind _ _ _ (hopen _) fun _ => hclose _

/-- How the attempt has ended when the call returns. -/
theorem openClosePortsOnMachine_ok (running : Bool) (s s' : FirewallPorts M P)
    (h : openClosePortsOnMachine w fails m running s = .ok () s') :
    PortsConverged w m s' ∨ m ∈ s'.retry ∨ changePorts w fails m s = .error .machinesNotFound s' := by
  unfold openClosePortsOnMachine at h
  split at h
  · cases h
  · cases hrun : changePorts w fails m s with
    | ok a s₁ =>
      rw [hrun] at h
      obtain ⟨-, rfl⟩ := EStateM.Result.ok.inj h
      exact Or.inl (changePorts_ok w fails m s s₁ hrun)
    | error e s₁ =>
      rw [hrun] at h
      cases e with
      | machinesNotFound =>
        obtain ⟨-, rfl⟩ := EStateM.Result.ok.inj h
        exact Or.inr (Or.inr rfl)
      | otherException =>
        obtain ⟨-, rfl⟩ := EStateM.Result.ok.inj h
        exact Or.inr (Or.inl (List.mem_cons_self ..))

/-- While the agent runs, the call returns. -/
theorem openClosePortsOnMachine_running (s : FirewallPorts M P) :
    PortsSettled w fails m (leaves (openClosePortsOnMachine w fails m true s)) := by
  cases hrun : openClosePortsOnMachine w fails m true s with
  | ok a s' =>
    rcases openClosePortsOnMachine_ok w fails m true s s' hrun with hright | hretry | hnone
    · exact Or.inl hright
    · exact Or.inr (Or.inl hretry)
    · exact Or.inr (Or.inr (changePorts_raises w fails m s _ s' hnone))
  | error e s' =>
    simp only [openClosePortsOnMachine, not_true_eq_false, if_false] at hrun
    split at hrun <;> cases hrun

theorem watchAssignedUnits_settled (s : FirewallPorts M P) (h : PortsSettled w fails m s) :
    PortsSettled w fails m (watchAssignedUnits w fails m true s) := by
  unfold watchAssignedUnits
  split
  · exact h
  · dsimp only
    split
    · exact h
    · exact openClosePortsOnMachine_running w fails m _

/-- A machine that is to be tried again is. -/
theorem processMachine_retried (s : FirewallPorts M P) (h : m ∈ s.retry) :
    PortsSettled w fails m (processMachine w fails m true s) := by
  unfold processMachine
  rw [if_pos h]
  exact watchAssignedUnits_settled w fails m _ (openClosePortsOnMachine_running w fails m _)

/-- When the call returns, the ports are right, or the next `process_machine` tries again (on
whatever state it finds), or the attempt has ended on a call that found no provisioned machine. -/
theorem openClosePortsOnMachine_converges (running : Bool) (s s' : FirewallPorts M P)
    (h : openClosePortsOnMachine w fails m running s = .ok () s') :
    PortsConverged w m s' ∨
      (m ∈ s'.retry ∧ ∀ (w' : PortsState M U P) fails',
        PortsSettled w' fails' m (processMachine w' fails' m true s')) ∨
      (changePorts w fails m s = .error .machinesNotFound s' ∧
        ∃ q, fails m q = some .machinesNotFound) := by
  rcases openClosePortsOnMachine_ok w fails m running s s' h with hright | hretry | hnone
  · exact Or.inl hright
  · exact Or.inr (Or.inl ⟨hretry, fun w' fails' => processMachine_retried w' fails' m s' hretry⟩)
  · exact Or.inr (Or.inr ⟨hnone, changePorts_raises w fails m s _ s' hnone⟩)

end firewall

/-- One exposed unit with an open port, on a machine whose ports are all closed. -/
def exposedUnit : PortsState Nat Nat Nat := ⟨fun _ => [0], fun _ => true, fun _ => [80]⟩

def machineGone : Nat → PortsRequest Nat Nat → Option PortsError
  | _, .machine => some .machinesNotFound
  | _, _ => none

def portFails : Nat → PortsRequest Nat Nat → Option PortsError
  | _, .openPort _ => some .otherException
  | _, _ => none

/-- Opening the port fails, and the machine is to be tried again. -/
theorem openClosePortsOnMachine_converges_retry :
    PortsConverged exposedUnit 7 ⟨fun _ => [], [7], [7]⟩ ∨
      (7 ∈ [7] ∧ ∀ (w' : PortsState Nat Nat Nat) fails',
        PortsSettled w' fails' 7 (processMachine w' fails' 7 true ⟨fun _ => [], [7], [7]⟩)) ∨
      (changePorts exposedUnit portFails 7 ⟨fun _ => [], [], [7]⟩ =
          .error .machinesNotFound ⟨fun _ => [], [7], [7]⟩ ∧
        ∃ q, portFails 7 q = some .machinesNotFound) := by
  have hrun : openClosePortsOnMachine exposedUnit portFails 7 true ⟨fun _ => [], [], [7]⟩ =
      .ok () ⟨fun _ => [], [7], [7]⟩ := rfl
  exact openClosePortsOnMachine_converges exposedUnit portFails 7 true _ _ hrun

/-- A machine that the provider does not find is neither put right nor tried again. -/
theorem machine_not_found_not_retried :
    ∃ s', openClosePortsOnMachine exposedUnit machineGone 7 true ⟨fun _ => [], [], [7]⟩ =
        .ok () s' ∧ ¬ PortsConverged exposedUnit 7 s' ∧ 7 ∉ s'.retry := by
  refine ⟨_, rfl, ?_, ?_⟩
  · intro h
    have hopen := (h 80).mpr ⟨0, by decide, rfl, by decide⟩
    exact absurd hopen (by decide)
  · decide

end Juju.State.FirewallPass

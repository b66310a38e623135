import Juju.Base.StateExcept
import Mathlib.Data.List.Dedup
import Mathlib.Logic.Function.Basic

namespace Juju.Agents.ProvisioningPass
open Juju.Base

inductive PassError where
  | machineStateNotFound
  | providerError
  deriving DecidableEq

/-- The calls of a pass of `process_machines`. -/
inductive PassRequest (M I : Type) where
  | getMachines
  | getMachineState (machine : M)
  | getInstanceId (machine : M)
  | getConstraints (machine : M)
  | startMachine (machine : M)
  | setInstanceId (machine : M)
  | firewall (machine : M)
  | shutdownMachine (instanceId : I)

/-- What the calls come to: the instances listed by the provider, the one that each machine is
given if it is started, and the exceptions. -/
structure Replies (M I : Type) where
  listed : List I
  launched : M → I
  fails : PassRequest M I → Option PassError

/-- The recorded instances, those started and those whose shutdown has been requested. -/
structure PassState (M I : Type) where
  recorded : M → Option I
  started : List (M × I)
  shutDown : List I

variable {M I : Type} [DecidableEq M] [DecidableEq I] (r : Replies M I)

abbrev PassM (M I : Type) := EStateM PassError (PassState M I)

def request (q : PassRequest M I) : PassM M I Unit :=
  match r.fails q with
  | none => pure ()
  | some e => throw e

def PassState.start (s : PassState M I) (machine : M) (instanceId : I) : PassState M I :=
  { s with started := (machine, instanceId) :: s.started }

def PassState.record (s : PassState M I) (machine : M) (instanceId : I) : PassState M I :=
  { s with recorded := Function.update s.recorded machine (some instanceId) }

/-- The part of `process_machine` that is skipped for a machine that runs. -/
def launch (machine : M) : PassM M I I := do
  request r (.getConstraints machine)
  request r (.startMachine machine)
  modify fun s => s.start machine (r.launched machine)
  request r (.setInstanceId machine)
  modify fun s => s.record machine (r.launched machine)
  pure (r.launched machine)

/-- The instance of the machine, which is started if it does not run. -/
def ensureRunning (machine : M) : PassM M I I := do
  let s ← get
  match s.recorded machine with
  | none => launch r machine
  | some instanceId => if instanceId ∈ r.listed then pure instanceId else launch r machine

def processMachine (machine : M) : PassM M I I := do
  request r (.getMachineState machine)
  request r (.getInstanceId machine)
  let instanceId ← ensureRunning r machine
  request r (.firewall machine)
  pure instanceId

/-- The loop over the machines, with those processed without an exception and their instances. -/
def processAll : List M → PassState M I → List (M × I) × PassState M I
  | [], s => ([], s)
  | machine :: machines, s =>
    match processMachine r machine s with
    | .ok instanceId s' =>
      ((machine, instanceId) :: (processAll machines s').1, (processAll machines s').2)
    | .error _ s' => processAll machines s'

/-- The loop over the instances that are not used. -/
def shutDownAll : List I → PassM M I Unit
  | [] => pure ()
  | instanceId :: instances => do
    modify fun s => { s with shutDown := instanceId :: s.shutDown }
    match r.fails (.shutdownMachine instanceId) with
    | some .machineStateNotFound => throw .machineStateNotFound
    | _ => shutDownAll instances

def unused (processed : List (M × I)) : List I :=
  (r.listed.filter fun i => i ∉ processed.map Prod.snd).dedup

/-- A pass returns here what it has put in `instance_ids`, with the machines. -/
def processMachines (currentMachines : List M) : PassM M I (List (M × I)) :=
  match r.fails .getMachines with
  | some .providerError => pure []
  | some .machineStateNotFound => throw .machineStateNotFound
  | none => fun s =>
    let (processed, s') := processAll r currentMachines s
    match shutDownAll r (unused r processed) s' with
    | .ok () s'' => .ok processed s''
    | .error e s'' => .error e s''

/-- The machine's recorded instance runs. -/
def Runs (recorded : M → Option I) (machine : M) : Prop :=
  ∃ i ∈ r.listed, recorded machine = some i

section machine

variable (machine : M) (s : PassState M I)

omit [DecidableEq M] [DecidableEq I] in
theorem request_bind {α : Type} (q : PassRequest M I) (f : Unit → PassM M I α) :
    (request r q >>= f) s = match r.fails q with
      | none => f () s
      | some e => .error e s := by
  unfold request
  cases r.fails q with
  | none => rfl
  | some e => rfl

/-- What processing a machine leaves. -/
inductive Processed : PassState M I → Prop
  | untouched : Processed s
  | started (hfail : r.fails (.setInstanceId machine) ≠ none) (hruns : ¬ Runs r s.recorded machine) :
      Processed (s.start machine (r.launched machine))
  | recorded (hruns : ¬ Runs r s.recorded machine) :
      Processed ((s.start machine (r.launched machine)).record machine (r.launched machine))

omit [DecidableEq I] in
theorem launch_run : launch r machine s =
    match r.fails (.getConstraints machine), r.fails (.startMachine machine),
      r.fails (.setInstanceId machine) with
    | some e, _, _ => .error e s
    | none, some e, _ => .error e s
    | none, none, some e => .error e (s.start machine (r.launched machine))
    | none, none, none => .ok (r.launched machine)
        ((s.start machine (r.launched machine)).record machine (r.launched machine)) := by
  unfold launch
  rw [request_bind]
  cases r.fails (.getConstraints machine) with
  | some e => rfl
  | none =>
    simp only [request_bind]
    cases r.fails (.startMachine machine) with
    | some e => rfl
    | none =>
      simp only [modify_bind, request_bind]
      cases r.fails (.setInstanceId machine) with
      | some e => rfl
      | none => rfl

omit [DecidableEq I] in
/-- What `launch` leaves, and what it returns. -/
theorem launch_spec (hruns : ¬ Runs r s.recorded machine) :
    Processed r machine s (leaves (launch r machine s)) ∧
      ∀ i s', launch r machine s = .ok i s' → i = r.launched machine ∧
        s' = (s.start machine i).record machine i := by
  rw [launch_run]
  cases r.fails (.getConstraints machine) with
  | some e => exact ⟨.untouched, fun i s' h => by cases h⟩
  | none =>
    cases r.fails (.startMachine machine) with
    | some e => exact ⟨.untouched, fun i s' h => by cases h⟩
    | none =>
      cases hset : r.fails (.setInstanceId machine) with
      | some e => exact ⟨.started (by simp [hset]) hruns, fun i s' h => by cases h⟩
      | none =>
        refine ⟨.recorded hruns, fun i s' h => ?_⟩
        obtain ⟨rfl, rfl⟩ := EStateM.Result.ok.inj h
        exact ⟨rfl, rfl⟩

theorem ensureRunning_runs (i : I) (hi : i ∈ r.listed) (hrecorded : s.recorded machine = some i) :
    ensureRunning r machine s = .ok i s := by
  simp [ensureRunning, hrecorded, hi]

theorem ensureRunning_launches (hruns : ¬ Runs r s.recorded machine) :
    ensureRunning r machine s = launch r machine s := by
  unfold ensureRunning
  rw [get_bind]
  cases hrecorded : s.recorded machine with
  | none => rfl
  | some i =>
    have hi : i ∉ r.listed := fun hi => hruns ⟨i, hi, hrecorded⟩
    simp [hi]

omit [DecidableEq M] [DecidableEq I] in
/-- The check of the firewall comes last and changes nothing. -/
theorem firewall_run (m : PassM M I I) :
    (m >>= fun i => request r (.firewall machine) >>= fun _ => pure i) s =
      match m s, r.fails (.firewall machine) with
      | .ok i s', none => .ok i s'
      | .ok _ s', some e => .error e s'
      | .error e s', _ => .error e s' := by
  rw [bind_run]
  cases m s with
  | error e s' => rfl
  | ok i s' =>
    simp only [request_bind]
    cases r.fails (.firewall machine) with
    | none => rfl
    | some e => rfl

theorem processMachine_spec :
    Processed r machine s (leaves (processMachine r machine s)) ∧
      ∀ i s', processMachine r machine s = .ok i s' →
        (s' = s ∧ s.recorded machine = some i ∧ i ∈ r.listed) ∨
          (¬ Runs r s.recorded machine ∧ i = r.launched machine ∧
            s' = (s.start machine i).record machine i) := by
  unfold processMachine
  rw [request_bind]
  cases r.fails (.getMachineState machine) with
  | some e => exact ⟨.untouched, fun i s' h => by cases h⟩
  | none =>
    simp only [request_bind]
    cases r.fails (.getInstanceId machine) with
    | some e => exact ⟨.untouched, fun i s' h => by cases h⟩
    | none =>
      rw [firewall_run]
      by_cases hruns : Runs r s.recorded machine
      · obtain ⟨j, hj, hrecorded⟩ := hruns
        rw [ensureRunning_runs r machine s j hj hrecorded]
        cases r.fails (.firewall machine) with
        | some e => exact ⟨.untouched, fun i s' h => by cases h⟩
        | none =>
          refine ⟨.untouched, fun i s' h => ?_⟩
          obtain ⟨rfl, rfl⟩ := EStateM.Result.ok.inj h
          exact Or.inl ⟨rfl, hrecorded, hj⟩
      · obtain ⟨hleaves, hok⟩ := launch_spec r machine s hruns
        rw [ensureRunning_launches r machine s hruns]
        cases hrun : launch r machine s with
        | error e s₁ =>
          rw [hrun] at hleaves
          exact ⟨hleaves, fun i s' h => by cases h⟩
        | ok j s₁ =>
          rw [hrun] at hleaves
          obtain ⟨rfl, rfl⟩ := hok j s₁ hrun
          cases r.fails (.firewall machine) with
          | some e => exact ⟨hleaves, fun i s' h => by cases h⟩
          | none =>
            refine ⟨hleaves, fun i s' h => ?_⟩
            obtain ⟨rfl, rfl⟩ := EStateM.Result.ok.inj h
            exact Or.inr ⟨hruns, rfl, rfl⟩

end machine

/-- What the loop over the machines does to the state it starts in. -/
structure AllProcessed (machines : List M) (s : PassState M I) (processed : List (M × I))
    (s' : PassState M I) : Prop where
  shutDown : s'.shutDown = s.shutDown
  recorded : ∀ m ∉ machines, s'.recorded m = s.recorded m
  kept : ∀ e ∈ s.started, e ∈ s'.started
  once : (s.started.map Prod.fst).Nodup → (s'.started.map Prod.fst).Nodup
  started : ∀ m i, (m, i) ∈ s'.started → (m, i) ∈ s.started ∨
    (m ∈ machines ∧ ¬ Runs r s.recorded m ∧
      (s'.recorded m = some i ∨ r.fails (.setInstanceId m) ≠ none))
  processed : ∀ m i, (m, i) ∈ processed → m ∈ machines ∧ s'.recorded m = some i ∧
    ((i ∈ r.listed ∧ s.recorded m = some i) ∨
      ((m, i) ∈ s'.started ∧ ¬ Runs r s.recorded m))

omit [DecidableEq I] in
/-- What one machine adds to the state. -/
theorem processed_state (machine : M) (s s₁ : PassState M I)
    (hnew : ∀ i, (machine, i) ∉ s.started) (h : Processed r machine s s₁) :
    s₁.shutDown = s.shutDown ∧ (∀ m, m ≠ machine → s₁.recorded m = s.recorded m) ∧
      (∀ e ∈ s.started, e ∈ s₁.started) ∧
      ((s.started.map Prod.fst).Nodup → (s₁.started.map Prod.fst).Nodup) ∧
      ∀ m i, (m, i) ∈ s₁.started → (m, i) ∈ s.started ∨
        (m = machine ∧ ¬ Runs r s.recorded machine ∧
          (s₁.recorded machine = some i ∨ r.fails (.setInstanceId machine) ≠ none)) := by
  have hfirst : machine ∉ s.started.map Prod.fst := by
    intro hin
    obtain ⟨⟨m, i⟩, he, rfl⟩ := List.mem_map.mp hin
    exact hnew i he
  cases h with
  | untouched => exact ⟨rfl, fun _ _ => rfl, fun _ he => he, id, fun m i he => Or.inl he⟩
  | started hfail hruns =>
    refine ⟨rfl, fun _ _ => rfl, fun _ he => List.mem_cons_of_mem _ he, ?_, ?_⟩
    · exact fun hs => List.nodup_cons.mpr ⟨hfirst, hs⟩
    · intro m i he
      rcases List.mem_cons.mp he with hme | he
      · exact Or.inr ⟨congrArg Prod.fst hme, hruns, Or.inr hfail⟩
      · exact Or.inl he
  | recorded hruns =>
    refine ⟨rfl, ?_, fun _ he => List.mem_cons_of_mem _ he, ?_, ?_⟩
    · exact fun m hm => Function.update_of_ne hm _ _
    · exact fun hs => List.nodup_cons.mpr ⟨hfirst, hs⟩
    · intro m i he
      rcases List.mem_cons.mp he with hme | he
      · obtain ⟨rfl, rfl⟩ := Prod.mk.inj hme
        exact Or.inr ⟨rfl, hruns, Or.inl (Function.update_self ..)⟩
      · exact Or.inl he

theorem processAll_allProcessed (machines : List M) (hset : machines.Nodup) (s : PassState M I)
    (hnew : ∀ m ∈ machines, ∀ i, (m, i) ∉ s.started) :
    AllProcessed r machines s (processAll r machines s).1 (processAll r machines s).2 := by
  induction machines generalizing s with
  | nil =>
    exact ⟨rfl, fun _ _ => rfl, fun _ he => he, id, fun m i he => Or.inl he, by
      simp [processAll]⟩
  | cons machine machines ih =>
    obtain ⟨hnot, hrest⟩ := List.nodup_cons.mp hset
    obtain ⟨hleaves, hok⟩ := processMachine_spec r machine s
    have hstate := processed_state r machine s (leaves (processMachine r machine s))
      (hnew machine (List.mem_cons_self ..)) hleaves
    -- what the rest of the loop does, from the state that the first machine leaves
    have hloop : ∀ s₁, leaves (processMachine r machine s) = s₁ →
        ∀ first : List (M × I), (∀ m i, (m, i) ∈ first → m = machine ∧ s₁.recorded m = some i ∧
          ((i ∈ r.listed ∧ s.recorded m = some i) ∨
            ((m, i) ∈ s₁.started ∧ ¬ Runs r s.recorded m))) →
        AllProcessed r (machine :: machines) s (first ++ (processAll r machines s₁).1)
          (processAll r machines s₁).2 := by
      intro s₁ hs₁ first hfirst
      rw [hs₁] at hstate
      obtain ⟨hdown, hrecorded, hkept, honce, hstarted⟩ := hstate
      have hnew₁ : ∀ m ∈ machines, ∀ i, (m, i) ∉ s₁.started := by
        intro m hm i he
        rcases hstarted m i he with hold | ⟨rfl, -⟩
        · exact hnew m (List.mem_cons_of_mem _ hm) i hold
        · exact hnot hm
      have hall := ih hrest s₁ hnew₁
      have hsame : ∀ m ∈ machines, s₁.recorded m = s.recorded m :=
        fun m hm => hrecorded m fun he => hnot (he ▸ hm)
      refine ⟨hall.shutDown.trans hdown, ?_, fun e he => hall.kept e (hkept e he),
        fun hs => hall.once (honce hs), ?_, ?_⟩
      · intro m hm
        have hne : m ≠ machine := fun he => hm (he ▸ List.mem_cons_self ..)
        have hout : m ∉ machines := fun hin => hm (List.mem_cons_of_mem _ hin)
        exact (hall.recorded m hout).trans (hrecorded m hne)
      · intro m i he
        rcases hall.started m i he with hfirst | ⟨hm, hruns, hset⟩
        · rcases hstarted m i hfirst with hold | ⟨rfl, hruns, hset⟩
          · exact Or.inl hold
          · exact Or.inr ⟨List.mem_cons_self .., hruns, (hall.recorded m hnot) ▸ hset⟩
        · refine Or.inr ⟨List.mem_cons_of_mem _ hm, ?_, hset⟩
          rintro ⟨j, hj, hjm⟩
          exact hruns ⟨j, hj, (hsame m hm).trans hjm⟩
      · intro m i he
        rcases List.mem_append.mp he with he | he
        · obtain ⟨rfl, hrec, hwhy⟩ := hfirst m i he
          refine ⟨List.mem_cons_self .., (hall.recorded m hnot).trans hrec, ?_⟩
          exact hwhy.imp id fun hw => ⟨hall.kept _ hw.1, hw.2⟩
        · obtain ⟨hm, hrec, hwhy⟩ := hall.processed m i he
          have hold := hsame m hm
          refine ⟨List.mem_cons_of_mem _ hm, hrec, ?_⟩
          rcases hwhy with ⟨hi, hs⟩ | ⟨hs, hruns⟩
          · exact Or.inl ⟨hi, hold ▸ hs⟩
          · exact Or.inr ⟨hs, fun ⟨j, hj, hjm⟩ => hruns ⟨j, hj, hold.trans hjm⟩⟩
    unfold processAll
    cases hrun : processMachine r machine s with
    | error e s₁ => exact hloop s₁ (by rw [hrun]; rfl) [] (by simp)
    | ok i s₁ =>
      refine hloop s₁ (by rw [hrun]; rfl) [(machine, i)] ?_
      intro m j he
      obtain ⟨rfl, rfl⟩ := Prod.mk.inj (List.mem_singleton.mp he)
      rcases hok j s₁ hrun with ⟨rfl, hrec, hj⟩ | ⟨hruns, rfl, rfl⟩
      · exact ⟨rfl, hrec, Or.inl ⟨hj, hrec⟩⟩
      · exact ⟨rfl, Function.update_self .., Or.inr ⟨List.mem_cons_self .., hruns⟩⟩

omit [DecidableEq M] [DecidableEq I] in
/-- Every instance of the list is asked to shut down, whatever the provider answers. -/
theorem shutDownAll_ok (instances : List I) (s s' : PassState M I)
    (h : shutDownAll r instances s = .ok () s') :
    s'.recorded = s.recorded ∧ s'.started = s.started ∧
      ∀ i, i ∈ s'.shutDown ↔ i ∈ s.shutDown ∨ i ∈ instances := by
  induction instances generalizing s with
  | nil =>
    obtain ⟨-, rfl⟩ := EStateM.Result.ok.inj h
    simp
  | cons instanceId instances ih =>
    have hrest : shutDownAll r instances { s with shutDown := instanceId :: s.shutDown } =
        .ok () s' := by
      rw [shutDownAll, modify_bind] at h
      cases hq : r.fails (.shutdownMachine instanceId) with
      | none => simpa [hq] using h
      | some e => cases e <;> simp_all
    obtain ⟨hrecorded, hstarted, hmem⟩ := ih _ hrest
    refine ⟨hrecorded, hstarted, fun i => ?_⟩
    rw [hmem]
    simp only [List.mem_cons]
    tauto

/-- A completed pass, from the records it finds: what it has processed without an exception is not
shut down; it starts one instance for a machine at most, and none for one that runs; it records
what it has started unless `set_instance_id` raises; and it asks every other listed instance to
shut down. -/
theorem processMachines_once (currentMachines : List M) (hset : currentMachines.Nodup)
    (recorded : M → Option I) (processed : List (M × I)) (s' : PassState M I)
    (h : processMachines r currentMachines ⟨recorded, [], []⟩ = .ok processed s') :
    (∀ m i, (m, i) ∈ processed → m ∈ currentMachines ∧ i ∉ s'.shutDown ∧
      (∀ j, recorded m = some j → j ∉ s'.shutDown) ∧
      ∀ j, (m, j) ∈ s'.started → j ∉ s'.shutDown) ∧
    (s'.started.map Prod.fst).Nodup ∧
    (∀ m i, (m, i) ∈ s'.started → m ∈ currentMachines ∧
      ¬ (∃ j ∈ r.listed, recorded m = some j) ∧
      (s'.recorded m = some i ∨ r.fails (.setInstanceId m) ≠ none)) ∧
    (r.fails .getMachines = none → ∀ i ∈ r.listed,
      (∀ m ∈ currentMachines, s'.recorded m ≠ some i) → i ∈ s'.shutDown) := by
  unfold processMachines at h
  cases hlist : r.fails .getMachines with
  | some e =>
    rw [hlist] at h
    cases e with
    | machineStateNotFound => cases h
    | providerError =>
      obtain ⟨rfl, rfl⟩ := EStateM.Result.ok.inj h
      simp
  | none =>
    rw [hlist] at h
    have hall := processAll_allProcessed r currentMachines hset ⟨recorded, [], []⟩ (by simp)
    obtain ⟨pairs, s, hrun⟩ : ∃ pairs s,
        processAll r currentMachines ⟨recorded, [], []⟩ = (pairs, s) := ⟨_, _, rfl⟩
    rw [hrun] at hall
    simp only [hrun] at h
    cases hdown : shutDownAll r (unused r pairs) s with
    | error e s₁ =>
      rw [hdown] at h
      cases h
    | ok u s₁ =>
      rw [hdown] at h
      obtain ⟨rfl, rfl⟩ := EStateM.Result.ok.inj h
      obtain ⟨hrecorded, hstarted, hmem⟩ := shutDownAll_ok r _ s s₁ hdown
      have hshut : ∀ i, i ∈ s₁.shutDown ↔ i ∈ r.listed ∧ i ∉ pairs.map Prod.snd := by
        intro i
        rw [hmem, hall.shutDown]
        simp [unused]
      have hkeep : ∀ m i, (m, i) ∈ pairs → i ∉ s₁.shutDown :=
        fun m i he hin => ((hshut i).mp hin).2 (List.mem_map.mpr ⟨(m, i), he, rfl⟩)
      have honce : (s.started.map Prod.fst).Nodup := hall.once (by simp)
      have hnew : ∀ m i, (m, i) ∈ s.started → m ∈ currentMachines ∧ ¬ Runs r recorded m ∧
          (s.recorded m = some i ∨ r.fails (.setInstanceId m) ≠ none) :=
        fun m i he => (hall.started m i he).resolve_left (by simp)
      rw [hstarted, hrecorded]
      refine ⟨?_, honce, hnew, ?_⟩
      · intro m i he
        obtain ⟨hm, hrec, hwhy⟩ := hall.processed m i he
        refine ⟨hm, hkeep m i he, ?_, ?_⟩
        · intro j hj hin
          rcases hwhy with ⟨-, hi⟩ | ⟨-, hruns⟩
          · obtain rfl : i = j := Option.some.inj (hi.symm.trans hj)
            exact hkeep m i he hin
          · exact hruns ⟨j, ((hshut j).mp hin).1, hj⟩
        · intro j hj
          rcases hwhy with ⟨hlisted, hi⟩ | ⟨hi, -⟩
          · exact absurd ⟨i, hlisted, hi⟩ (hnew m j hj).2.1
          · have hsame := List.inj_on_of_nodup_map honce hi hj rfl
            obtain rfl : i = j := congrArg Prod.snd hsame
            exact hkeep m i he
      · intro _ i hi hnone
        refine (hshut i).mpr ⟨hi, fun hin => ?_⟩
        obtain ⟨⟨m, j⟩, he, rfl⟩ := List.mem_map.mp hin
        obtain ⟨hm, hrec, -⟩ := hall.processed m j he
        exact hnone m hm hrec

/-- Instance 10 runs for machine 0, and 11 for none; machine 1 has none, and its node may be gone
when it has been started. -/
def twoMachines (nodeGone : Bool) : Replies Nat Nat where
  listed := [10, 11]
  launched := fun m => 20 + m
  fails
    | .setInstanceId 1 => if nodeGone then some .machineStateNotFound else none
    | _ => none

def firstRecorded : Nat → Option Nat
  | 0 => some 10
  | _ => none

theorem processMachines_once_two :
    ∃ s', processMachines (twoMachines false) [0, 1] ⟨firstRecorded, [], []⟩ =
        .ok [(0, 10), (1, 21)] s' ∧ 10 ∉ s'.shutDown ∧ 11 ∈ s'.shutDown := by
  have hrun : processMachines (twoMachines false) [0, 1] ⟨firstRecorded, [], []⟩ =
      .ok [(0, 10), (1, 21)] ⟨Function.update firstRecorded 1 (some 21), [(1, 21)], [11]⟩ := rfl
  have hpass := processMachines_once (twoMachines false) [0, 1] (by decide) firstRecorded _ _ hrun
  exact ⟨_, hrun, (hpass.1 0 10 (by decide)).2.1, hpass.2.2.2 rfl 11 (by decide) (by decide)⟩

/-- An instance that has been started is not recorded when its machine's node is gone. -/
theorem started_not_recorded :
    ∃ s', processMachines (twoMachines true) [0, 1] ⟨firstRecorded, [], []⟩ =
      .ok [(0, 10)] s' ∧ (1, 21) ∈ s'.started ∧ s'.recorded 1 = none :=
  ⟨_, rfl, by decide, rfl⟩

end Juju.Agents.ProvisioningPass

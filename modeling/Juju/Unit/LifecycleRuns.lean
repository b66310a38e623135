import Juju.Base.StateExcept
import Juju.Unit.StartableRelations
import Juju.Unit.UnitWorkflow

namespace Juju.Unit
open Juju.Base Juju.Lib

section executor

variable (o : Outcomes) (x : UnitAgentParts) (name : HookName)

theorem assertThat_run (p : Bool) (a : Assertion) : assertThat p a x =
    if p then .ok () x
    else .error (.assertion a) { x with asserted := a :: x.asserted } := by
  cases p <;> rfl

theorem call_running (h : x.executorRunning = true) : HookExecutor.call o name x =
    if o.hook name then .ok () { x with events := .hook name false :: x.events }
    else .error .charm { x with events := .hook name false :: x.events } := by
  cases hook : o.hook name <;> simp [HookExecutor.call, record, h, hook]

theorem runPriorityHook_stopped (h : x.executorRunning = false) :
    HookExecutor.runPriorityHook o name x =
      if o.hook name then .ok () { x with events := .hook name true :: x.events }
      else .error .charm { x with events := .hook name true :: x.events } := by
  cases hook : o.hook name <;>
    simp [HookExecutor.runPriorityHook, bind_run, assertThat_run, record, h, hook]

theorem executor_start_stopped (h : x.executorRunning = false) :
    HookExecutor.start x =
      .ok () { x with executorRunning := true, events := .started :: x.events } := by
  simp [HookExecutor.start, record, h]

theorem executor_stop_running (h : x.executorRunning = true) :
    HookExecutor.stop x =
      .ok () { x with executorRunning := false, events := .stopped :: x.events } := by
  simp [HookExecutor.stop, bind_run, assertThat_run, record, h]

end executor

section lifecycle

variable (o : Outcomes) (x : UnitAgentParts)

theorem install_run (fireHooks : Bool) (h : x.executorRunning = true) :
    ∃ events, UnitLifecycle.install o fireHooks x =
      if fireHooks ∧ ¬ o.hook .install then .error .charm { x with events := events }
      else .ok () { x with events := events } := by
  cases fireHooks with
  | false => exact ⟨x.events, rfl⟩
  | true =>
    refine ⟨.hook .install false :: x.events, ?_⟩
    cases hook : o.hook .install <;> simp [UnitLifecycle.install, call_running o x _ h, hook]

/-- What `start` does with the relations, once its hooks have succeeded. -/
def relationsStart (startRelations : Bool) : UnitM Unit := do
  let x ← get
  let workflows ← UnitLifecycle.awaitRelations
    (UnitLifecycle.loadRelations x.executorRunning startRelations o.found.known)
  modify fun x => { x with lifecycleRunning := true }
  UnitLifecycle.awaitRelations (UnitLifecycle.initialCalls x.executorRunning o.found workflows)

theorem start_quiet (startRelations : Bool) :
    UnitLifecycle.start o false startRelations = relationsStart o startRelations := rfl

theorem awaitRelations_faults (α : Type) (fault : RelationFault) :
    (UnitLifecycle.awaitRelations (.error fault) : UnitM α) x = .error .stateError x ∨
      (UnitLifecycle.awaitRelations (.error fault) : UnitM α) x = .error .blocked x := by
  cases fault with
  | stateError => exact Or.inl rfl
  | blocked => exact Or.inr rfl

/-- However it ends, it runs no hook of the unit. -/
theorem relationsStart_cases (startRelations : Bool) :
    (∃ workflows,
      UnitLifecycle.loadRelations x.executorRunning startRelations o.found.known = .ok workflows ∧
      UnitLifecycle.initialCalls x.executorRunning o.found workflows = .ok () ∧
      relationsStart o startRelations x = .ok () { x with lifecycleRunning := true }) ∨
    ∃ running,
      relationsStart o startRelations x = .error .stateError { x with lifecycleRunning := running } ∨
      relationsStart o startRelations x = .error .blocked { x with lifecycleRunning := running } := by
  cases hloaded : UnitLifecycle.loadRelations x.executorRunning startRelations o.found.known with
  | error fault =>
    right
    refine ⟨x.lifecycleRunning, ?_⟩
    rcases awaitRelations_faults x (List LoadedWorkflow) fault with hawait | hawait <;>
      simp [relationsStart, bind_run, hloaded, hawait]
  | ok workflows =>
    have hrun : relationsStart o startRelations x = UnitLifecycle.awaitRelations
        (UnitLifecycle.initialCalls x.executorRunning o.found workflows)
        { x with lifecycleRunning := true } := by
      simp [relationsStart, bind_run, hloaded, UnitLifecycle.awaitRelations]
    rw [hrun]
    cases hcalls : UnitLifecycle.initialCalls x.executorRunning o.found workflows with
    | error fault =>
      exact Or.inr ⟨true, awaitRelations_faults { x with lifecycleRunning := true } Unit fault⟩
    | ok u => exact Or.inl ⟨workflows, rfl, hcalls, rfl⟩

theorem relationsStart_run (startRelations : Bool)
    (h : o.found.Startable x.executorRunning startRelations)
    (hexecutes : startRelations = true → x.executorRunning = true) :
    relationsStart o startRelations x = .ok () { x with lifecycleRunning := true } := by
  obtain ⟨workflows, hloaded, hcalls⟩ :=
    (startable_iff x.executorRunning startRelations o.found hexecutes).mp h
  simp [relationsStart, bind_run, hloaded, hcalls, UnitLifecycle.awaitRelations]

/-- A call ends with the fault of a relation. -/
def Faults (r : EStateM.Result LifecycleError UnitAgentParts Unit) : Prop :=
  ∃ x, r = .error .stateError x ∨ r = .error .blocked x

/-- Where the relations do not let `start` come to its end, it raises or it waits. -/
theorem relationsStart_faults (startRelations : Bool)
    (h : ¬ o.found.Startable x.executorRunning startRelations)
    (hexecutes : startRelations = true → x.executorRunning = true) :
    Faults (relationsStart o startRelations x) := by
  rw [startable_iff x.executorRunning startRelations o.found hexecutes] at h
  rcases relationsStart_cases o x startRelations with ⟨workflows, hloaded, hcalls, -⟩ | hfails
  · exact absurd ⟨workflows, hloaded, hcalls⟩ h
  · obtain ⟨running, hfailed⟩ := hfails
    exact ⟨_, hfailed⟩

/-- Hooks of `start` that fail leave the lifecycle as it was. -/
theorem start_run (fireHooks : Bool) (h : x.executorRunning = true)
    (hfound : (fireHooks = true → o.hook .configChanged = true ∧ o.hook .start = true) →
      o.found.Startable true true) :
    ∃ events, UnitLifecycle.start o fireHooks true x =
      if fireHooks ∧ ¬ (o.hook .configChanged ∧ o.hook .start) then
        .error .charm { x with events := events }
      else .ok () { x with events := events, lifecycleRunning := true } := by
  have hstarts (events : List ExecutorEvent)
      (hhooks : fireHooks = true → o.hook .configChanged = true ∧ o.hook .start = true) :
      relationsStart o true { x with events := events } =
        .ok () { x with events := events, lifecycleRunning := true } := by
    apply relationsStart_run o { x with events := events } true _ fun _ => h
    rw [h]
    exact hfound hhooks
  cases fireHooks with
  | false =>
    refine ⟨x.events, ?_⟩
    rw [start_quiet, if_neg (by simp)]
    exact hstarts x.events (fun hfire => absurd hfire Bool.false_ne_true)
  | true =>
    cases hconfig : o.hook .configChanged with
    | false =>
      refine ⟨.hook .configChanged false :: x.events, ?_⟩
      simp [UnitLifecycle.start, bind_run, call_running, h, hconfig]
    | true =>
      refine ⟨.hook .start false :: .hook .configChanged false :: x.events, ?_⟩
      cases hstart : o.hook .start with
      | false => simp [UnitLifecycle.start, bind_run, call_running, h, hconfig, hstart]
      | true =>
        rw [if_neg (by simp), ← hstarts _ fun _ => ⟨hconfig, hstart⟩]
        simp [UnitLifecycle.start, relationsStart, bind_run, call_running, h, hconfig, hstart]

theorem start_faults (fireHooks : Bool) (h : x.executorRunning = true)
    (hhooks : fireHooks = true → o.hook .configChanged = true ∧ o.hook .start = true)
    (hnot : ¬ o.found.Startable true true) : Faults (UnitLifecycle.start o fireHooks true x) := by
  have hrelations (events : List ExecutorEvent) :
      Faults (relationsStart o true { x with events := events }) := by
    apply relationsStart_faults o { x with events := events } true _ fun _ => h
    rwa [h]
  cases fireHooks with
  | false => exact hrelations x.events
  | true =>
    obtain ⟨hconfig, hstart⟩ := hhooks rfl
    have hrun : UnitLifecycle.start o true true x = relationsStart o true
        { x with events := .hook .start false :: .hook .configChanged false :: x.events } := by
      simp [UnitLifecycle.start, relationsStart, bind_run, call_running, h, hconfig, hstart]
    rw [hrun]
    exact hrelations _

theorem stop_stopped (fireHooks : Bool) (h : x.lifecycleRunning = false) :
    UnitLifecycle.stop o fireHooks x = .error (.assertion .lifecycleAlreadyStopped)
      { x with asserted := .lifecycleAlreadyStopped :: x.asserted } := by
  simp [UnitLifecycle.stop, bind_run, assertThat_run, h]

theorem stop_run (fireHooks : Bool) (h : x.lifecycleRunning = true)
    (hexec : x.executorRunning = true) :
    ∃ events, UnitLifecycle.stop o fireHooks x =
      if fireHooks ∧ ¬ o.hook .stop then .error .charm { x with events := events }
      else .ok () { x with events := events, lifecycleRunning := false } := by
  cases fireHooks with
  | false =>
    refine ⟨x.events, ?_⟩
    simp [UnitLifecycle.stop, bind_run, assertThat_run, h]
  | true =>
    refine ⟨.hook .stop false :: x.events, ?_⟩
    cases hook : o.hook .stop <;>
      simp [UnitLifecycle.stop, bind_run, assertThat_run, call_running, h, hexec, hook]

theorem configure_run (fireHooks : Bool) (h : x.lifecycleRunning = true)
    (hexec : x.executorRunning = true) :
    ∃ events, UnitLifecycle.configure o fireHooks x =
      if fireHooks ∧ ¬ o.hook .configChanged then .error .charm { x with events := events }
      else .ok () { x with events := events } := by
  cases fireHooks with
  | false => exact ⟨x.events, rfl⟩
  | true =>
    refine ⟨.hook .configChanged false :: x.events, ?_⟩
    cases hook : o.hook .configChanged <;>
      simp [UnitLifecycle.configure, bind_run, assertThat_run, call_running, h, hexec, hook]

/-- The charm is in place and its upgrade hook, if it is due, succeeds. -/
def Outcomes.upgrades (o : Outcomes) (fireHooks force : Bool) : Prop :=
  o.prepared ≠ .failed ∧ (o.prepared = .ready → o.extracted) ∧
    ((fireHooks ∨ o.prepared = .ready) ∧ ¬ force → o.hook .upgradeCharm)

instance (fireHooks force : Bool) : Decidable (o.upgrades fireHooks force) := by
  unfold Outcomes.upgrades
  infer_instance

/-- Whether hooks from the executor's queue run at the event or from then on. -/
def ExecutorEvent.queued (e : ExecutorEvent) : Prop :=
  e = .started ∨ ∃ name, e = .hook name false

/-- Hooks from the queue run only after an upgrade (the latest event first). -/
def UpgradeFirst : List ExecutorEvent → Prop
  | [] => True
  | e :: before => (e.queued → .upgraded ∈ before) ∧ UpgradeFirst before

theorem upgradeFirst_append (after before : List ExecutorEvent) (hafter : UpgradeFirst after)
    (hbefore : UpgradeFirst before) : UpgradeFirst (after ++ before) := by
  induction after with
  | nil => exact hbefore
  | cons e after ih =>
    obtain ⟨he, hafter⟩ := hafter
    refine ⟨?_, ih hafter⟩
    intro hq
    exact List.mem_append_left before (he hq)

theorem upgradeFirst_singleton (e : ExecutorEvent) (h : ¬ e.queued) : UpgradeFirst [e] :=
  ⟨fun hq => absurd hq h, trivial⟩

theorem upgradeFirst_upgraded (before : List ExecutorEvent) (h : UpgradeFirst before) :
    UpgradeFirst (.started :: .upgraded :: before) := by
  refine ⟨fun _ => List.mem_cons_self, ?_, h⟩
  intro hq
  rcases hq with hq | ⟨name, hq⟩ <;> cases hq

/-- Once prepared, an upgrade goes on as one that finds the executor stopped. -/
theorem upgradeCharm_pauses (fireHooks force : Bool) (hprep : o.prepared ≠ .failed)
    (h : x.executorRunning = true) :
    UnitLifecycle.upgradeCharm o fireHooks force x =
      UnitLifecycle.upgradeCharm o fireHooks force
        { x with executorRunning := false, events := .stopped :: x.events } := by
  simp [UnitLifecycle.upgradeCharm, bind_run, executor_stop_running, hprep, h]

theorem upgradeCharm_stopped (fireHooks force : Bool) (h : x.executorRunning = false) :
    ∃ added, UpgradeFirst added ∧ (o.upgrades fireHooks force → .upgraded ∈ added) ∧
      UnitLifecycle.upgradeCharm o fireHooks force x =
        if o.upgrades fireHooks force then
          .ok () { x with executorRunning := true, events := added ++ x.events }
        else .error .charm { x with events := added ++ x.events } := by
  have hpriority : UpgradeFirst [.hook .upgradeCharm true] := by
    apply upgradeFirst_singleton
    rintro (hq | ⟨name, hq⟩) <;> cases hq
  obtain ⟨executorRunning, lifecycleRunning, asserted, events⟩ := x
  cases h
  by_cases hprep : o.prepared = .failed
  · refine ⟨[], trivial, fun hup => absurd hprep hup.1, ?_⟩
    simp [UnitLifecycle.upgradeCharm, Outcomes.upgrades, hprep]
  by_cases hextract : o.prepared = .ready ∧ o.extracted = false
  · have hnot : ¬ o.upgrades fireHooks force := by
      intro hup
      simp [hup.2.1 hextract.1] at hextract
    refine ⟨[], trivial, fun hup => absurd hup hnot, ?_⟩
    simp [UnitLifecycle.upgradeCharm, Outcomes.upgrades, bind_run, hextract]
  have hextracted : o.prepared = .ready → o.extracted = true := by
    intro hready
    cases he : o.extracted with
    | false => exact absurd ⟨hready, he⟩ hextract
    | true => rfl
  by_cases hdue : (fireHooks = true ∨ o.prepared = .ready) ∧ force = false
  · cases hook : o.hook .upgradeCharm with
    | false =>
      have hnot : ¬ o.upgrades fireHooks force := by
        intro hup
        have hhook := hup.2.2 ⟨hdue.1, by simp [hdue.2]⟩
        simp [hook] at hhook
      refine ⟨_, hpriority, fun hup => absurd hup hnot, ?_⟩
      simp [UnitLifecycle.upgradeCharm, Outcomes.upgrades, bind_run, hprep, hextract, hdue,
        runPriorityHook_stopped, hook]
    | true =>
      refine ⟨_, upgradeFirst_upgraded _ hpriority, fun _ => by simp, ?_⟩
      have hup : o.upgrades fireHooks force := ⟨hprep, hextracted, fun _ => hook⟩
      rw [if_pos hup]
      simp [UnitLifecycle.upgradeCharm, bind_run, hprep, hextract, hdue,
        runPriorityHook_stopped, hook, record, executor_start_stopped]
  · refine ⟨_, upgradeFirst_upgraded [] trivial, fun _ => by simp, ?_⟩
    have hup : o.upgrades fireHooks force := by
      refine ⟨hprep, hextracted, ?_⟩
      intro h
      exact absurd ⟨h.1, by simpa using h.2⟩ hdue
    rw [if_pos hup]
    simp [UnitLifecycle.upgradeCharm, bind_run, hprep, hextract, hdue, record,
      executor_start_stopped]

/-- An upgrade that fails after its preparation leaves the executor stopped. -/
theorem upgradeCharm_run (fireHooks force : Bool) :
    ∃ added, UpgradeFirst added ∧ (o.upgrades fireHooks force → .upgraded ∈ added) ∧
      UnitLifecycle.upgradeCharm o fireHooks force x =
        if o.upgrades fireHooks force then
          .ok () { x with executorRunning := true, events := added ++ x.events }
        else if o.prepared = .failed then .error .charm x
        else .error .charm { x with executorRunning := false, events := added ++ x.events } := by
  by_cases hprep : o.prepared = .failed
  · refine ⟨[], trivial, fun hup => absurd hprep hup.1, ?_⟩
    simp [UnitLifecycle.upgradeCharm, Outcomes.upgrades, hprep]
  cases h : x.executorRunning with
  | false =>
    obtain ⟨added, hadded, hup, hrun⟩ := upgradeCharm_stopped o x fireHooks force h
    refine ⟨added, hadded, hup, ?_⟩
    rw [hrun, if_neg hprep, ← h]
  | true =>
    obtain ⟨added, hadded, hup, hrun⟩ := upgradeCharm_stopped o
      { x with executorRunning := false, events := .stopped :: x.events } fireHooks force rfl
    refine ⟨added ++ [.stopped], ?_, fun h => List.mem_append_left _ (hup h), ?_⟩
    · apply upgradeFirst_append _ _ hadded
      apply upgradeFirst_singleton
      rintro (hq | ⟨name, hq⟩) <;> cases hq
    · rw [upgradeCharm_pauses o x fireHooks force hprep h, hrun, if_neg hprep]
      simp only [List.append_assoc, List.singleton_append]

end lifecycle

section invoke

variable (method : UnitM Unit) (x x' : UnitAgentParts)

theorem invoke_ok (h : method x = .ok () x') : invokeLifecycle method x = (x', .done none) := by
  simp only [invokeLifecycle, h]

theorem invoke_charm (h : method x = .error .charm x') :
    invokeLifecycle method x = (x', .failed) := by
  simp only [invokeLifecycle, h]

theorem invoke_faults (h : Faults (method x)) :
    (∃ x', invokeLifecycle method x = (x', .raised .stateError)) ∨
      ∃ x', invokeLifecycle method x = (x', .blocked) := by
  obtain ⟨x', hraised | hblocked⟩ := h
  · exact Or.inl ⟨x', by simp only [invokeLifecycle, hraised]⟩
  · exact Or.inr ⟨x', by simp only [invokeLifecycle, hblocked]⟩

theorem invoke_assertion (a : Assertion) (h : method x = .error (.assertion a) x') :
    invokeLifecycle method x = (x', .raised (.assertion a)) := by
  simp only [invokeLifecycle, h]

end invoke

end Juju.Unit

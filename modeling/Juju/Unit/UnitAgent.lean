import Juju.Unit.UnitTransitions

namespace Juju.Unit
open Juju.Base Juju.Lib

inductive AgentOperation where
  | fireTransition (transitionId : UnitTransition)
  | resolved (retryHooks : Bool)
  | upgradeFlag (latest force : Bool)
  | configChanged

section operations

variable (o : Outcomes) (m : UnitWorkflowState)

/-- `cb_watch_resolved` for a setting: an exception of the transition is only logged. -/
def cbWatchResolved (retryHooks : Bool) : UnitWorkflowState :=
  if m.stored.state = some .started then m
  else
    let alias_ := if retryHooks then .retryHook else .retry
    (fireTransitionAlias unitWorkflow (unitActions o.loaded) unitFuel alias_ m).1

/-- `cb_watch_upgrade_flag` for a flag, where the unit may run the latest charm already. -/
def cbWatchUpgradeFlag (latest force : Bool) : UnitWorkflowState :=
  if latest then m
  else if m.stored.state ≠ some .started then
    if force then
      { m with context := leaves (UnitLifecycle.upgradeCharm o false true m.context) }
    else m
  else (fireUnit o .upgradeCharm m).1

def cbWatchConfigChanged : UnitWorkflowState :=
  if m.stored.state ≠ some .started then m
  else (fireUnit o .configure m).1

/-- The unit after an operation, however the operation ends. -/
def operate : AgentOperation → UnitWorkflowState
  | .fireTransition t => (fireUnit o t m).1
  | .resolved retryHooks => cbWatchResolved o m retryHooks
  | .upgradeFlag latest force => cbWatchUpgradeFlag o m latest force
  | .configChanged => cbWatchConfigChanged o m

/-- `UnitAgent.stop`, which leaves the workflow alone. -/
def UnitAgent.stop : UnitM Unit := do
  let x ← get
  if x.lifecycleRunning then UnitLifecycle.stop o false
  HookExecutor.stop

end operations

/-- After each operation of a run the unit is in step, and `UnitAgent.stop`, at its end, hits
no assertion. -/
def runInStep (last : Outcomes) : UnitWorkflowState → List (AgentOperation × Outcomes) → Prop
  | m, [] => (leaves (UnitAgent.stop last m.context)).asserted = []
  | m, (operation, o) :: rest =>
    InStep (operate o m operation) ∧ runInStep last (operate o m operation) rest

/-- Whether an operation keeps a unit in state `s` in step. -/
def operationKeeps (o : Outcomes) (s : Option UnitState) : AgentOperation → Prop
  | .fireTransition t => (unitTransition t).source = s → keepsInStep o none t
  | .resolved _ => s ≠ some .stopError
  | .upgradeFlag latest force =>
    latest = false →
      if s = some .started then o.prepared ≠ .failed
      else force = true →
        if s = some .charmUpgradeError then ¬ o.upgrades false true
        else o.prepared = .failed ∨ o.upgrades false true
  | .configChanged => True

/-- Each operation of a run keeps the unit in step, and no upgrade has failed at its end. -/
def runKeeps : UnitWorkflowState → List (AgentOperation × Outcomes) → Prop
  | m, [] => m.stored.state ≠ some .charmUpgradeError
  | m, (operation, o) :: rest =>
    operationKeeps o m.stored.state operation ∧ runKeeps (operate o m operation) rest

/-- A synchronized unit between two operations. -/
structure Synchronized (m : UnitWorkflowState) : Prop where
  notInflight : m.stored.transitionId = none
  inStep : InStep m

theorem synchronized_settled (r : UnitWorkflowState × UnitFireResult) (h : Settled r) :
    Synchronized r.1 :=
  ⟨h.notInflight, h.inStep⟩

section keeping

variable (o : Outcomes) (m : UnitWorkflowState)

theorem synchronized_flags (h : Synchronized m) :
    m.context.flags = restFlags m.stored.state := by
  rw [h.inStep.flags, preconditions_rest m.stored h.notInflight]

theorem synchronized_fireUnit (t : UnitTransition) (h : Synchronized m)
    (hs : (unitTransition t).source = m.stored.state) :
    SettlesIff (fireUnit o t m) (keepsInStep o none t) := by
  apply fireUnit_settlesIff o m t none hs.symm (Or.inl rfl) _ h.inStep.unasserted
  rw [synchronized_flags m h, hs]
  rfl

/-- A transition from another state is refused. -/
theorem fireUnit_refused (t : UnitTransition) (hs : (unitTransition t).source ≠ m.stored.state) :
    fireUnit o t m = (m, .invalidTransition) := by
  obtain ⟨available, hav, hiff⟩ := available_iff_source m.stored.state
  exact fireTransition_unavailable unitWorkflow (unitActions o.loaded) 3 ∅ m t available hav
    (fun ht => hs ((hiff t).mp ht))

/-- No state has two transitions of one alias. -/
theorem alias_transition (s : Option UnitState) (a : UnitAlias) :
    ∃ available, Workflow.getTransitions unitWorkflow s = some available ∧
      ((available.filter fun t => t.alias_ = some a) = [] ∨
        ∃ t, (available.filter fun t => t.alias_ = some a) = [unitTransition t] ∧
          (unitTransition t).source = s ∧ (unitTransition t).alias_ = some a) := by
  rcases s with _ | s
  · exact ⟨_, rfl, Or.inl (by cases a <;> rfl)⟩
  · cases s <;> cases a <;> refine ⟨_, rfl, ?_⟩ <;>
      first
      | exact Or.inl rfl
      | exact Or.inr ⟨.retryInstall, rfl, rfl, rfl⟩
      | exact Or.inr ⟨.retryInstallHook, rfl, rfl, rfl⟩
      | exact Or.inr ⟨.retryStart, rfl, rfl, rfl⟩
      | exact Or.inr ⟨.retryStartHook, rfl, rfl, rfl⟩
      | exact Or.inr ⟨.retryStop, rfl, rfl, rfl⟩
      | exact Or.inr ⟨.retryStopHook, rfl, rfl, rfl⟩
      | exact Or.inr ⟨.retryUpgradeCharm, rfl, rfl, rfl⟩
      | exact Or.inr ⟨.retryUpgradeCharmHook, rfl, rfl, rfl⟩
      | exact Or.inr ⟨.retryConfigure, rfl, rfl, rfl⟩
      | exact Or.inr ⟨.retryConfigureHook, rfl, rfl, rfl⟩

theorem resolved_keeps (retryHooks : Bool) (h : Synchronized m)
    (hnot : m.stored.state ≠ some .stopError) :
    Synchronized (cbWatchResolved o m retryHooks) := by
  unfold cbWatchResolved
  split
  · exact h
  simp only [fireTransitionAlias]
  generalize (if retryHooks = true then UnitAlias.retryHook else UnitAlias.retry) = a
  obtain ⟨available, hav, hnone | ⟨t, hone, hs, halias⟩⟩ := alias_transition m.stored.state a
  · simp only [hav, hnone]
    exact h
  · simp only [hav, hone, unitTransition_id]
    apply synchronized_settled (fireUnit o t m)
    apply (synchronized_fireUnit o m t h hs).settled
    rw [← hs] at hnot
    cases t <;> trivial

/-- A stop that failed cannot be resolved: the retry finds the lifecycle not running. -/
theorem resolved_needs (retryHooks : Bool) (h : Synchronized m)
    (hstep : InStep (cbWatchResolved o m retryHooks)) : m.stored.state ≠ some .stopError := by
  intro hs
  have hav : Workflow.getTransitions unitWorkflow (some .stopError) =
      some [unitTransition .retryStop, unitTransition .retryStopHook] := rfl
  unfold cbWatchResolved at hstep
  rw [if_neg (by rw [hs]; decide)] at hstep
  simp only [fireTransitionAlias, hs, hav] at hstep
  cases retryHooks with
  | false => exact (synchronized_fireUnit o m .retryStop h hs.symm).of_inStep hstep
  | true => exact (synchronized_fireUnit o m .retryStopHook h hs.symm).of_inStep hstep

theorem fire_keeps (t : UnitTransition) (h : Synchronized m)
    (hkeeps : (unitTransition t).source = m.stored.state → keepsInStep o none t) :
    Synchronized (fireUnit o t m).1 := by
  by_cases hs : (unitTransition t).source = m.stored.state
  · exact synchronized_settled _ ((synchronized_fireUnit o m t h hs).settled (hkeeps hs))
  · rw [fireUnit_refused o m t hs]
    exact h

/-- An upgrade that is forced outside of state started. -/
theorem forced_run :
    ∃ events, leaves (UnitLifecycle.upgradeCharm o false true m.context) =
      if o.upgrades false true then
        { m.context with executorRunning := true, events := events }
      else if o.prepared = .failed then m.context
      else { m.context with executorRunning := false, events := events } := by
  obtain ⟨added, -, -, hrun⟩ := upgradeCharm_run o m.context false true
  refine ⟨added ++ m.context.events, ?_⟩
  rw [hrun]
  split
  · rfl
  · split <;> rfl

theorem forced_flags (executor lifecycle : Bool) (hf : m.context.flags = (executor, lifecycle)) :
    (leaves (UnitLifecycle.upgradeCharm o false true m.context)).flags =
      (if o.upgrades false true then true
        else if o.prepared = .failed then executor else false, lifecycle) := by
  obtain ⟨events, hrun⟩ := forced_run o m
  have hlife := flags_lifecycle m.context executor lifecycle hf
  have hexec := flags_executor m.context executor lifecycle hf
  rw [hrun]
  split
  · simp only [UnitAgentParts.flags, hlife]
  · split
    · exact hf
    · simp only [UnitAgentParts.flags, hlife]

theorem forced_asserted :
    (leaves (UnitLifecycle.upgradeCharm o false true m.context)).asserted =
      m.context.asserted := by
  obtain ⟨events, hrun⟩ := forced_run o m
  rw [hrun]
  split
  · rfl
  · split <;> rfl

theorem restFlags_idle (s : Option UnitState) (h₁ : s ≠ some .started)
    (h₂ : s ≠ some .charmUpgradeError) : restFlags s = (true, false) := by
  rcases s with _ | s
  · rfl
  · cases s <;> first | rfl | exact absurd rfl h₁ | exact absurd rfl h₂

theorem forced_inStep_iff (h : Synchronized m) (hs : m.stored.state ≠ some .started) :
    InStep { m with context := leaves (UnitLifecycle.upgradeCharm o false true m.context) } ↔
      if m.stored.state = some .charmUpgradeError then ¬ o.upgrades false true
      else o.prepared = .failed ∨ o.upgrades false true := by
  have hf := synchronized_flags m h
  have hpre := preconditions_rest m.stored h.notInflight
  have hasserted := (forced_asserted o m).trans h.inStep.unasserted
  have hiff : InStep
      { m with context := leaves (UnitLifecycle.upgradeCharm o false true m.context) } ↔
        (leaves (UnitLifecycle.upgradeCharm o false true m.context)).flags =
          restFlags m.stored.state := by
    rw [← hpre]
    exact ⟨fun hstep => hstep.flags, fun hflags => ⟨hflags, hasserted⟩⟩
  rw [hiff]
  by_cases herror : m.stored.state = some .charmUpgradeError
  · have hrest : restFlags m.stored.state = (false, true) := by
      rw [herror]
      rfl
    rw [hrest] at hf ⊢
    rw [forced_flags o m false true hf, if_pos herror]
    by_cases hup : o.upgrades false true <;> simp [hup]
  · have hrest := restFlags_idle m.stored.state hs herror
    rw [hrest] at hf ⊢
    rw [forced_flags o m true false hf, if_neg herror]
    by_cases hup : o.upgrades false true
    · simp [hup]
    · by_cases hprep : o.prepared = .failed <;> simp [hup, hprep]

theorem operate_keeps (operation : AgentOperation) (h : Synchronized m)
    (hkeeps : operationKeeps o m.stored.state operation) :
    Synchronized (operate o m operation) := by
  cases operation with
  | fireTransition t => exact fire_keeps o m t h hkeeps
  | resolved retryHooks => exact resolved_keeps o m retryHooks h hkeeps
  | upgradeFlag latest force =>
    simp only [operate, cbWatchUpgradeFlag]
    cases latest with
    | true => exact h
    | false =>
      have hkeeps := hkeeps rfl
      by_cases hs : m.stored.state = some .started
      · rw [if_pos hs] at hkeeps
        rw [if_neg (by simp), if_neg (not_not_intro hs)]
        exact fire_keeps o m .upgradeCharm h (fun _ => Or.inr hkeeps)
      · rw [if_neg hs] at hkeeps
        rw [if_neg (by simp), if_pos hs]
        cases force with
        | false => exact h
        | true => exact ⟨h.notInflight, (forced_inStep_iff o m h hs).mpr (hkeeps rfl)⟩
  | configChanged =>
    simp only [operate, cbWatchConfigChanged]
    by_cases hs : m.stored.state = some .started
    · rw [if_neg (not_not_intro hs)]
      exact fire_keeps o m .configure h (fun _ => trivial)
    · rw [if_pos hs]
      exact h

theorem operate_needs (operation : AgentOperation) (h : Synchronized m)
    (hstep : InStep (operate o m operation)) : operationKeeps o m.stored.state operation := by
  cases operation with
  | fireTransition t =>
    intro hs
    exact (synchronized_fireUnit o m t h hs).of_inStep hstep
  | resolved retryHooks => exact resolved_needs o m retryHooks h hstep
  | upgradeFlag latest force =>
    rintro rfl
    simp only [operate, cbWatchUpgradeFlag] at hstep
    rw [if_neg (by simp)] at hstep
    by_cases hs : m.stored.state = some .started
    · rw [if_neg (not_not_intro hs)] at hstep
      rw [if_pos hs]
      have hkeeps := (synchronized_fireUnit o m .upgradeCharm h hs.symm).of_inStep hstep
      exact hkeeps.resolve_left (by decide)
    · rw [if_pos hs] at hstep
      rw [if_neg hs]
      rintro rfl
      exact (forced_inStep_iff o m h hs).mp hstep
  | configChanged => trivial

theorem quietStop_run (x : UnitAgentParts) (h : x.lifecycleRunning = true) :
    UnitLifecycle.stop o false x = .ok () { x with lifecycleRunning := false } := by
  simp [UnitLifecycle.stop, bind_run, assertThat_run, h]

theorem executor_stop_asserted (x : UnitAgentParts) :
    (leaves (HookExecutor.stop x)).asserted =
      if x.executorRunning then x.asserted else .alreadyStopped :: x.asserted := by
  cases h : x.executorRunning <;> simp [HookExecutor.stop, bind_run, assertThat_run, record, h]

theorem agentStop_asserted (x : UnitAgentParts) :
    (leaves (UnitAgent.stop o x)).asserted =
      if x.executorRunning then x.asserted else .alreadyStopped :: x.asserted := by
  cases h : x.lifecycleRunning with
  | false =>
    have hrun : UnitAgent.stop o x = HookExecutor.stop x := by
      simp [UnitAgent.stop, h]
    rw [hrun, executor_stop_asserted]
  | true =>
    have hrun : UnitAgent.stop o x = HookExecutor.stop { x with lifecycleRunning := false } := by
      simp [UnitAgent.stop, bind_run, quietStop_run, h]
    rw [hrun, executor_stop_asserted]

/-- Only after the failure of an upgrade does `UnitAgent.stop` find the executor stopped. -/
theorem stop_asserts_iff (h : Synchronized m) :
    (leaves (UnitAgent.stop o m.context)).asserted = [] ↔
      m.stored.state ≠ some .charmUpgradeError := by
  have hexec : m.context.executorRunning = (restFlags m.stored.state).1 :=
    congrArg Prod.fst (synchronized_flags m h)
  rw [agentStop_asserted, hexec, h.inStep.unasserted]
  rcases m.stored.state with _ | s
  · exact ⟨fun _ => by decide, fun _ => rfl⟩
  · cases s <;> decide

end keeping

/-- A run keeps the unit in step if and only if each of its operations does. -/
theorem runInStep_iff_runKeeps (last : Outcomes) (run : List (AgentOperation × Outcomes))
    (m : UnitWorkflowState) (h : Synchronized m) : runInStep last m run ↔ runKeeps m run := by
  induction run generalizing m with
  | nil => exact stop_asserts_iff last m h
  | cons step rest ih =>
    obtain ⟨operation, o⟩ := step
    constructor
    · rintro ⟨hstep, hrest⟩
      have hkeeps := operate_needs o m operation h hstep
      exact ⟨hkeeps, (ih _ (operate_keeps o m operation h hkeeps)).mp hrest⟩
    · rintro ⟨hkeeps, hrest⟩
      have hsynchronized := operate_keeps o m operation h hkeeps
      exact ⟨hsynchronized.inStep, (ih _ hsynchronized).mpr hrest⟩

/-- Every hook, download and extraction succeeds, and a new charm is there. -/
def allWell : Outcomes := ⟨fun _ => true, .ready, true, .nothing⟩

/-- A unit whose agent has never run. -/
def freshUnit : UnitWorkflowState := ⟨⟨none, ∅, none⟩, [], ⟨false, false, [], []⟩⟩

def startedUnit : UnitWorkflowState := (synchronizeUnit allWell freshUnit).1

theorem startedUnit_synchronized : Synchronized startedUnit :=
  ⟨rfl, rfl, rfl⟩

theorem runInStep_iff_runKeeps_upgrade :
    runInStep allWell startedUnit
      [(.upgradeFlag false false, allWell), (.fireTransition .stop, allWell)] := by
  apply (runInStep_iff_runKeeps allWell _ startedUnit startedUnit_synchronized).mpr
  exact ⟨fun _ => by decide, fun _ => rfl, by simp only [runKeeps]; decide⟩

/-- A stop hook that fails leaves the lifecycle running in state stop_error; a failed extraction
leaves the executor stopped, so that the agent's own stop hits "Already stopped". -/
theorem failures_outOfStep :
    Synchronized startedUnit ∧
    ¬ runInStep allWell startedUnit
      [(.fireTransition .stop, { allWell with hook := fun name => name ≠ .stop })] ∧
    ¬ runInStep allWell startedUnit
      [(.upgradeFlag false false, { allWell with extracted := false })] := by
  refine ⟨startedUnit_synchronized, ?_, ?_⟩
  · rintro ⟨hstep, -⟩
    exact absurd hstep.flags (by decide)
  · rintro ⟨-, hstop⟩
    simp only [runInStep] at hstop
    exact absurd hstop (by decide)

end Juju.Unit

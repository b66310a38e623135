import Juju.Lib.Moments
import Juju.Unit.CrashRecovery
import Juju.Unit.HookOrder

namespace Juju.Unit
open Juju.Base Juju.Lib

/-- The hooks among the events of an executor, the first hook first. -/
def hooksAmong : List ExecutorEvent → List HookName
  | [] => []
  | .hook name _ :: before => hooksAmong before ++ [name]
  | .started :: before => hooksAmong before
  | .stopped :: before => hooksAmong before
  | .upgraded :: before => hooksAmong before

/-- The hooks that a process has run. -/
def hooksOf (x : UnitAgentParts) : List HookName := hooksAmong x.events

/-- How an action ends, as far as its transition goes on. -/
inductive Ending where
  | done
  | failed
  /-- It raises or it blocks, and the transition stays in flight. -/
  | hangs
  deriving DecidableEq

def endingOf {V E : Type} : ActionResult V E → Ending
  | .done _ => .done
  | .failed => .failed
  | .raised _ => .hangs
  | .blocked => .hangs

/-- The hooks that the action of a transition may have run when it ends; none where it cannot end
like this. -/
def mayRun : UnitTransition → Ending → List (List HookName)
  | .install, .hangs => [[]]
  | .install, _ => [[.install]]
  | .retryInstallHook, .hangs => [[]]
  | .retryInstallHook, _ => [[.install]]
  | .start, .done => [[.configChanged, .start]]
  | .start, .failed => [[.configChanged], [.configChanged, .start]]
  | .start, .hangs => [[], [.configChanged, .start]]
  | .retryStartHook, .done => [[.configChanged, .start]]
  | .retryStartHook, .failed => [[.configChanged], [.configChanged, .start]]
  | .retryStartHook, .hangs => [[], [.configChanged, .start]]
  | .stop, .hangs => [[]]
  | .stop, _ => [[.stop]]
  | .retryStopHook, .hangs => [[]]
  | .retryStopHook, _ => [[.stop]]
  | .upgradeCharm, _ => [[], [.upgradeCharm]]
  | .retryUpgradeCharm, _ => [[], [.upgradeCharm]]
  | .retryUpgradeCharmHook, _ => [[], [.upgradeCharm]]
  | .configure, _ => [[], [.configChanged]]
  | .retryConfigureHook, _ => [[], [.configChanged]]
  | .errorInstall, .done => [[]]
  | .errorInstall, _ => []
  | .errorStart, .done => [[]]
  | .errorStart, _ => []
  | .errorStop, .done => [[]]
  | .errorStop, _ => []
  | _, _ => [[]]

section actions

variable (o : Outcomes) (x : UnitAgentParts)

/-- A method runs some of the hooks that are listed for its ending. -/
def RunsHooks (method : UnitM Unit) (may : Ending → List (List HookName)) : Prop :=
  ∃ hooks ∈ may (endingOf (invokeLifecycle method x).2),
    hooksOf (invokeLifecycle method x).1 = hooksOf x ++ hooks

theorem install_hooks (fireHooks : Bool) : RunsHooks x (UnitLifecycle.install o fireHooks)
    fun ending => if fireHooks then mayRun .install ending else [[]] := by
  obtain ⟨executorRunning, lifecycleRunning, asserted, events⟩ := x
  cases fireHooks with
  | false => exact ⟨[], by simp, by simp [UnitLifecycle.install, invokeLifecycle]⟩
  | true =>
    cases executorRunning with
    | false =>
      exact ⟨[], by simp [UnitLifecycle.install, HookExecutor.call, invokeLifecycle, endingOf, mayRun],
        by simp [UnitLifecycle.install, HookExecutor.call, invokeLifecycle]⟩
    | true =>
      refine ⟨[.install], ?_, ?_⟩
      · cases hook : o.hook .install <;>
          simp [UnitLifecycle.install, HookExecutor.call, record, invokeLifecycle, endingOf, mayRun,
            hook]
      · cases hook : o.hook .install <;>
          simp [UnitLifecycle.install, HookExecutor.call, record, invokeLifecycle, hook, hooksOf,
            hooksAmong]

/-- The relations that `start` finds run no hook of the unit. -/
theorem relationsStart_hooks (startRelations : Bool) :
    endingOf (invokeLifecycle (relationsStart o startRelations) x).2 ≠ .failed ∧
      hooksOf (invokeLifecycle (relationsStart o startRelations) x).1 = hooksOf x := by
  unfold invokeLifecycle
  rcases relationsStart_cases o x startRelations with ⟨workflows, -, -, hrun⟩ | hfails
  · rw [hrun]
    exact ⟨by simp [endingOf], rfl⟩
  · obtain ⟨running, hrun | hrun⟩ := hfails
    · rw [hrun]
      exact ⟨by simp [endingOf], rfl⟩
    · rw [hrun]
      exact ⟨by simp [endingOf], rfl⟩

/-- Without an assertion in the way, `start` runs the hooks up to the first that fails. -/
theorem start_hooks (fireHooks : Bool) : RunsHooks x (UnitLifecycle.start o fireHooks true)
    fun ending => if fireHooks then mayRun .start ending else [[]] := by
  obtain ⟨executorRunning, lifecycleRunning, asserted, events⟩ := x
  cases fireHooks with
  | false =>
    refine ⟨[], by simp, ?_⟩
    rw [start_quiet, (relationsStart_hooks o _ true).2, List.append_nil]
  | true =>
    cases executorRunning with
    | false =>
      exact ⟨[], by simp [UnitLifecycle.start, bind_run, HookExecutor.call, invokeLifecycle,
          endingOf, mayRun],
        by simp [UnitLifecycle.start, bind_run, HookExecutor.call, invokeLifecycle]⟩
    | true =>
      cases hconfig : o.hook .configChanged with
      | false =>
        exact ⟨[.configChanged], by simp [UnitLifecycle.start, bind_run, HookExecutor.call, record,
            invokeLifecycle, endingOf, mayRun, hconfig],
          by simp [UnitLifecycle.start, bind_run, HookExecutor.call, record, invokeLifecycle,
            hconfig, hooksOf, hooksAmong]⟩
      | true =>
        refine ⟨[.configChanged, .start], ?_⟩
        cases hstart : o.hook .start with
        | false =>
          simp [UnitLifecycle.start, bind_run, HookExecutor.call, record, invokeLifecycle, endingOf,
            mayRun, hconfig, hstart, hooksOf, hooksAmong]
        | true =>
          have hrun : UnitLifecycle.start o true true ⟨true, lifecycleRunning, asserted, events⟩ =
              relationsStart o true ⟨true, lifecycleRunning, asserted,
                .hook .start false :: .hook .configChanged false :: events⟩ := by
            simp [UnitLifecycle.start, relationsStart, bind_run, HookExecutor.call, record, hconfig,
              hstart]
          obtain ⟨hends, hran⟩ := relationsStart_hooks o ⟨true, lifecycleRunning, asserted,
            .hook .start false :: .hook .configChanged false :: events⟩ true
          unfold invokeLifecycle at hends hran ⊢
          rw [hrun, hran]
          refine ⟨?_, by simp [hooksOf, hooksAmong]⟩
          generalize endingOf _ = ending at hends ⊢
          cases ending with
          | failed => exact absurd rfl hends
          | done => decide
          | hangs => decide

theorem stop_hooks (fireHooks : Bool) : RunsHooks x (UnitLifecycle.stop o fireHooks)
    fun ending => if fireHooks then mayRun .stop ending else [[]] := by
  obtain ⟨executorRunning, lifecycleRunning, asserted, events⟩ := x
  cases lifecycleRunning with
  | false =>
    refine ⟨[], ?_, ?_⟩
    · cases fireHooks <;>
        simp [UnitLifecycle.stop, bind_run, assertThat_run, invokeLifecycle, endingOf, mayRun]
    · simp [UnitLifecycle.stop, bind_run, assertThat_run, invokeLifecycle, hooksOf]
  | true =>
    cases fireHooks with
    | false =>
      exact ⟨[], by simp, by simp [UnitLifecycle.stop, bind_run, assertThat_run, invokeLifecycle,
        hooksOf]⟩
    | true =>
      cases executorRunning with
      | false =>
        exact ⟨[], by simp [UnitLifecycle.stop, bind_run, assertThat_run, HookExecutor.call,
            invokeLifecycle, endingOf, mayRun],
          by simp [UnitLifecycle.stop, bind_run, assertThat_run, HookExecutor.call,
            invokeLifecycle]⟩
      | true =>
        refine ⟨[.stop], ?_, ?_⟩
        · cases hook : o.hook .stop <;>
            simp [UnitLifecycle.stop, bind_run, assertThat_run, HookExecutor.call, record,
              invokeLifecycle, endingOf, mayRun, hook]
        · cases hook : o.hook .stop <;>
            simp [UnitLifecycle.stop, bind_run, assertThat_run, HookExecutor.call, record,
              invokeLifecycle, hook, hooksOf, hooksAmong]

theorem configure_hooks (fireHooks : Bool) : RunsHooks x (UnitLifecycle.configure o fireHooks)
    fun _ => if fireHooks then [[], [.configChanged]] else [[]] := by
  obtain ⟨executorRunning, lifecycleRunning, asserted, events⟩ := x
  cases fireHooks with
  | false => exact ⟨[], by simp, by simp [UnitLifecycle.configure, invokeLifecycle]⟩
  | true =>
    by_cases hruns : lifecycleRunning = true ∧ executorRunning = true
    · obtain ⟨rfl, rfl⟩ := hruns
      refine ⟨[.configChanged], by simp, ?_⟩
      cases hook : o.hook .configChanged <;>
        simp [UnitLifecycle.configure, bind_run, assertThat_run, HookExecutor.call, record,
          invokeLifecycle, hook, hooksOf, hooksAmong]
    · refine ⟨[], by simp, ?_⟩
      cases lifecycleRunning <;> cases executorRunning <;>
        simp_all [UnitLifecycle.configure, bind_run, assertThat_run, HookExecutor.call,
          invokeLifecycle, hooksOf]

theorem upgradeCharm_hooks (fireHooks force : Bool) :
    RunsHooks x (UnitLifecycle.upgradeCharm o fireHooks force)
      fun _ => if force then [[]] else [[], [.upgradeCharm]] := by
  obtain ⟨executorRunning, lifecycleRunning, asserted, events⟩ := x
  have hruns (hooks : List HookName) (hhooks : hooks = [] ∨ hooks = [.upgradeCharm] ∧ force = false)
      (heq : hooksOf (invokeLifecycle (UnitLifecycle.upgradeCharm o fireHooks force)
        ⟨executorRunning, lifecycleRunning, asserted, events⟩).1 =
        hooksOf ⟨executorRunning, lifecycleRunning, asserted, events⟩ ++ hooks) :
      RunsHooks ⟨executorRunning, lifecycleRunning, asserted, events⟩
        (UnitLifecycle.upgradeCharm o fireHooks force)
        fun _ => if force then [[]] else [[], [.upgradeCharm]] := by
    refine ⟨hooks, ?_, heq⟩
    rcases hhooks with rfl | ⟨rfl, rfl⟩
    · cases force <;> simp
    · simp
  by_cases hprep : o.prepared = .failed
  · exact hruns [] (Or.inl rfl) (by simp [UnitLifecycle.upgradeCharm, hprep, invokeLifecycle])
  by_cases hextract : o.prepared = .ready ∧ o.extracted = false
  · refine hruns [] (Or.inl rfl) ?_
    cases executorRunning <;>
      simp [UnitLifecycle.upgradeCharm, bind_run, HookExecutor.stop, assertThat_run, record,
        invokeLifecycle, hextract, hooksOf, hooksAmong]
  by_cases hdue : (fireHooks = true ∨ o.prepared = .ready) ∧ force = false
  · refine hruns [.upgradeCharm] (Or.inr ⟨rfl, hdue.2⟩) ?_
    cases executorRunning <;> cases hook : o.hook .upgradeCharm <;>
      simp [UnitLifecycle.upgradeCharm, bind_run, HookExecutor.stop, HookExecutor.runPriorityHook,
        HookExecutor.start, assertThat_run, record, invokeLifecycle, hprep, hextract, hdue, hook,
        hooksOf, hooksAmong]
  · refine hruns [] (Or.inl rfl) ?_
    cases executorRunning <;>
      simp [UnitLifecycle.upgradeCharm, bind_run, HookExecutor.stop, HookExecutor.start,
        assertThat_run, record, invokeLifecycle, hprep, hextract, hdue, hooksOf,
        hooksAmong]

/-- The retries of a configuration start the lifecycle before they configure it. -/
theorem retryConfigure_hooks (fireHooks : Bool) :
    RunsHooks x (UnitLifecycle.start o false true >>= fun _ => UnitLifecycle.configure o fireHooks)
      fun _ => if fireHooks then [[], [.configChanged]] else [[]] := by
  rcases relationsStart_cases o x true with ⟨workflows, -, -, hrun⟩ | hfails
  · obtain ⟨hooks, hmay, hran⟩ := configure_hooks o { x with lifecycleRunning := true } fireHooks
    have hsame : invokeLifecycle
        (UnitLifecycle.start o false true >>= fun _ => UnitLifecycle.configure o fireHooks) x =
        invokeLifecycle (UnitLifecycle.configure o fireHooks) { x with lifecycleRunning := true } := by
      unfold invokeLifecycle
      rw [bind_run, start_quiet, hrun]
    refine ⟨hooks, hmay, ?_⟩
    rw [hsame, hran]
    rfl
  · refine ⟨[], by cases fireHooks <;> simp, ?_⟩
    unfold invokeLifecycle
    rw [bind_run, start_quiet]
    obtain ⟨running, hrun | hrun⟩ := hfails
    · rw [hrun]
      exact (List.append_nil _).symm
    · rw [hrun]
      exact (List.append_nil _).symm

theorem action_hooks (t : UnitTransition) :
    ∃ hooks ∈ mayRun t (endingOf (runAction (unitActions o) t x).2),
      hooksOf (runAction (unitActions o) t x).1 = hooksOf x ++ hooks := by
  have hmethod (method : UnitM Unit) (hm : unitAction o t = some method)
      (may : Ending → List (List HookName)) (hruns : RunsHooks x method may)
      (hmay : ∀ ending, may ending = mayRun t ending) :
      ∃ hooks ∈ mayRun t (endingOf (runAction (unitActions o) t x).2),
        hooksOf (runAction (unitActions o) t x).1 = hooksOf x ++ hooks := by
    rw [runAction_invoke o t x method hm, ← hmay]
    exact hruns
  have hnone (hn : unitAction o t = none) (hmay : mayRun t .done = [[]]) :
      ∃ hooks ∈ mayRun t (endingOf (runAction (unitActions o) t x).2),
        hooksOf (runAction (unitActions o) t x).1 = hooksOf x ++ hooks := by
    have hrun : runAction (unitActions o) t x = (x, .done none) := by
      simp only [runAction, unitActions, hn, Option.map_none]
    rw [hrun]
    exact ⟨[], hmay ▸ List.mem_singleton_self _, (List.append_nil _).symm⟩
  cases t with
  | install => exact hmethod _ rfl _ (install_hooks o x true) fun ending => by cases ending <;> rfl
  | retryInstall => exact hmethod _ rfl _ (install_hooks o x false) fun ending => by cases ending <;> rfl
  | retryInstallHook =>
    exact hmethod _ rfl _ (install_hooks o x true) fun ending => by cases ending <;> rfl
  | start => exact hmethod _ rfl _ (start_hooks o x true) fun ending => by cases ending <;> rfl
  | retryStart => exact hmethod _ rfl _ (start_hooks o x false) fun ending => by cases ending <;> rfl
  | retryStartHook =>
    exact hmethod _ rfl _ (start_hooks o x true) fun ending => by cases ending <;> rfl
  | stop => exact hmethod _ rfl _ (stop_hooks o x true) fun ending => by cases ending <;> rfl
  | retryStop => exact hmethod _ rfl _ (stop_hooks o x false) fun ending => by cases ending <;> rfl
  | retryStopHook => exact hmethod _ rfl _ (stop_hooks o x true) fun ending => by cases ending <;> rfl
  | upgradeCharm =>
    exact hmethod _ rfl _ (upgradeCharm_hooks o x true false) fun ending => by cases ending <;> rfl
  | retryUpgradeCharm =>
    exact hmethod _ rfl _ (upgradeCharm_hooks o x false false) fun ending => by cases ending <;> rfl
  | retryUpgradeCharmHook =>
    exact hmethod _ rfl _ (upgradeCharm_hooks o x true false) fun ending => by cases ending <;> rfl
  | configure =>
    exact hmethod _ rfl _ (configure_hooks o x true) fun ending => by cases ending <;> rfl
  | errorConfigure =>
    exact hmethod _ rfl _ (stop_hooks o x false) fun ending => by cases ending <;> rfl
  | errorRetryConfigure =>
    exact hmethod _ rfl _ (stop_hooks o x false) fun ending => by cases ending <;> rfl
  | retryConfigure =>
    exact hmethod _ rfl _ (retryConfigure_hooks o x false) fun ending => by cases ending <;> rfl
  | retryConfigureHook =>
    exact hmethod _ rfl _ (retryConfigure_hooks o x true) fun ending => by cases ending <;> rfl
  | errorInstall => exact hnone rfl rfl
  | errorStart => exact hnone rfl rfl
  | errorStop => exact hnone rfl rfl
  | upgradeCharmError => exact hnone rfl rfl
  | retryUpgradeCharmError => exact hnone rfl rfl

end actions

/-- The phases of the units that are in a state. -/
def fits : Option UnitState → HookPhase → Bool
  | none, p => p = .unborn ∨ p = .installing
  | some .installError, p => p = .installing
  | some .installed, p => p = .installing ∨ p = .configured ∨ p = .begun
  | some .startError, p => p = .configured ∨ p = .begun
  | some .started, p => p = .configured ∨ p = .begun ∨ p = .upgraded
  | some .configureError, p => p = .configured ∨ p = .begun ∨ p = .upgraded
  | some .charmUpgradeError, p => p = .configured ∨ p = .begun ∨ p = .upgraded
  | some .stopError, p => p = .configured ∨ p = .begun ∨ p = .upgraded ∨ p = .ending
  | some .stopped, p => p = .configured ∨ p = .begun ∨ p = .upgraded ∨ p = .ending

/-- The phases of the units that go through a transition: its hooks may have run already, in a
process that died, and where a failure is recorded they have. -/
def fitsInflight (t : UnitTransition) (p : HookPhase) : Bool :=
  match t with
  | .errorInstall => fits (some .installError) p
  | .errorStart => fits (some .startError) p
  | .stop => fits (some .stopped) p
  | .errorStop => fits (some .stopped) p
  | t => fits (unitTransition t).source p

/-- The phases of the units whose transition has failed. -/
def fitsFailed (t : UnitTransition) (p : HookPhase) : Bool :=
  match (unitTransition t).errorTransitionId with
  | some error => fitsInflight error p
  | none => fits (unitTransition t).source p

def fitsStored (d : UnitDict) (p : HookPhase) : Bool :=
  match d.transitionId with
  | none => fits d.state p
  | some t => fitsInflight t p

section phases

/-- A transition that is not fired only because another has failed. -/
def IsOwn (t : UnitTransition) : Prop :=
  t ≠ .errorInstall ∧ t ≠ .errorStart

theorem own_fitsInflight (t : UnitTransition) (p : HookPhase) (hown : IsOwn t)
    (h : fits (unitTransition t).source p = true) : fitsInflight t p = true := by
  obtain ⟨hinstall, hstart⟩ := hown
  cases t with
  | errorInstall => exact absurd rfl hinstall
  | errorStart => exact absurd rfl hstart
  | _ => cases p <;> first | rfl | exact absurd h (by decide)

/-- The hooks of an action come one after the other in phases that fit its transition. -/
theorem action_phases (t : UnitTransition) (ending : Ending) (p : HookPhase)
    (h : fitsInflight t p = true) : ∀ hooks ∈ mayRun t ending, ∀ front ∈ hooks.inits,
      (p.after front).any (fitsInflight t) = true := by
  cases t <;> cases p <;> first | exact absurd h (by decide) | (cases ending <;> decide)

/-- Where an action succeeds, the unit fits the state that its transition leads to. -/
theorem done_phase (t : UnitTransition) (p : HookPhase) (h : fitsInflight t p = true) :
    ∀ hooks ∈ mayRun t .done,
      (p.after hooks).any (fits (some (unitTransition t).destination)) = true := by
  cases t <;> cases p <;> first | exact absurd h (by decide) | decide

/-- Where it fails, the unit fits the error transition, or stays in its state. -/
theorem failed_phase (t : UnitTransition) (p : HookPhase) (h : fitsInflight t p = true) :
    ∀ hooks ∈ mayRun t .failed, (p.after hooks).any (fitsFailed t) = true := by
  cases t <;> cases p <;> first | exact absurd h (by decide) | decide

/-- Where it hangs, the unit stays in its state, but for a stop that was begun before. -/
theorem hangs_phase (t : UnitTransition) (p : HookPhase) (h : fitsInflight t p = true)
    (hstop : t = .stop → p ≠ .ending) : ∀ hooks ∈ mayRun t .hangs,
      (p.after hooks).any (fits (unitTransition t).source) = true := by
  cases t <;> cases p <;> first | exact absurd h (by decide) | decide | exact absurd rfl (hstop rfl)

end phases

end Juju.Unit

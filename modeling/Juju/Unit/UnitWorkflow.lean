import Juju.Lib.StateMachine
import Juju.Unit.UnitLifecycle

namespace Juju.Unit
open Juju.Base Juju.Lib

inductive UnitState where
  | installed
  | installError
  | started
  | startError
  | stopped
  | stopError
  | charmUpgradeError
  | configureError
  deriving DecidableEq

inductive UnitTransition where
  | install
  | errorInstall
  | retryInstall
  | retryInstallHook
  | start
  | errorStart
  | retryStart
  | retryStartHook
  | stop
  | errorStop
  | retryStop
  | retryStopHook
  | upgradeCharm
  | upgradeCharmError
  | retryUpgradeCharmError
  | retryUpgradeCharm
  | retryUpgradeCharmHook
  | configure
  | errorConfigure
  | errorRetryConfigure
  | retryConfigure
  | retryConfigureHook
  deriving DecidableEq

inductive UnitAlias where
  | retry
  | retryHook
  deriving DecidableEq

/-- The transitions of `UnitWorkflow`, each under its id. -/
def unitTransition (t : UnitTransition) : Transition UnitState UnitTransition UnitAlias :=
  match t with
  | .install => ⟨t, none, .installed, some .errorInstall, true, none⟩
  | .errorInstall => ⟨t, none, .installError, none, false, none⟩
  | .retryInstall => ⟨t, some .installError, .installed, none, false, some .retry⟩
  | .retryInstallHook => ⟨t, some .installError, .installed, none, false, some .retryHook⟩
  | .start => ⟨t, some .installed, .started, some .errorStart, true, none⟩
  | .errorStart => ⟨t, some .installed, .startError, none, false, none⟩
  | .retryStart => ⟨t, some .startError, .started, none, false, some .retry⟩
  | .retryStartHook => ⟨t, some .startError, .started, none, false, some .retryHook⟩
  | .stop => ⟨t, some .started, .stopped, some .errorStop, false, none⟩
  | .errorStop => ⟨t, some .started, .stopError, none, false, none⟩
  | .retryStop => ⟨t, some .stopError, .stopped, none, false, some .retry⟩
  | .retryStopHook => ⟨t, some .stopError, .stopped, none, false, some .retryHook⟩
  | .upgradeCharm => ⟨t, some .started, .started, some .upgradeCharmError, false, none⟩
  | .upgradeCharmError => ⟨t, some .started, .charmUpgradeError, none, false, none⟩
  | .retryUpgradeCharmError =>
    ⟨t, some .charmUpgradeError, .charmUpgradeError, none, false, none⟩
  | .retryUpgradeCharm =>
    ⟨t, some .charmUpgradeError, .started, some .retryUpgradeCharmError, false, some .retry⟩
  | .retryUpgradeCharmHook =>
    ⟨t, some .charmUpgradeError, .started, some .retryUpgradeCharmError, false,
      some .retryHook⟩
  | .configure => ⟨t, some .started, .started, some .errorConfigure, false, none⟩
  | .errorConfigure => ⟨t, some .started, .configureError, none, false, none⟩
  | .errorRetryConfigure => ⟨t, some .configureError, .configureError, none, false, none⟩
  | .retryConfigure =>
    ⟨t, some .configureError, .started, some .errorRetryConfigure, false, some .retry⟩
  | .retryConfigureHook =>
    ⟨t, some .configureError, .started, some .errorRetryConfigure, false, some .retryHook⟩

def unitWorkflow : Workflow UnitState UnitTransition UnitAlias :=
  [.install, .errorInstall, .retryInstall, .retryInstallHook,
    .start, .errorStart, .retryStart, .retryStartHook,
    .stop, .errorStop, .retryStop, .retryStopHook,
    .upgradeCharm, .upgradeCharmError, .retryUpgradeCharmError, .retryUpgradeCharm,
    .retryUpgradeCharmHook,
    .configure, .errorConfigure, .errorRetryConfigure, .retryConfigure,
    .retryConfigureHook].map unitTransition

abbrev UnitDict := StateDict UnitState UnitTransition String

/-- A unit's workflow state with the parts of its agent that it acts on. -/
abbrev UnitWorkflowState := WorkflowState UnitState UnitTransition String UnitAgentParts

/-- An exception other than those that become a `TransitionError`. -/
inductive UnitException where
  | assertion (a : Assertion)
  | stateError
  deriving DecidableEq

abbrev UnitFireResult := FireResult UnitException

/-- `_invoke_lifecycle`. -/
def invokeLifecycle (method : UnitM Unit) (x : UnitAgentParts) :
    UnitAgentParts × ActionResult String UnitException :=
  match method x with
  | .ok _ x => (x, .done none)
  | .error .charm x => (x, .failed)
  | .error (.assertion a) x => (x, .raised (.assertion a))
  | .error .stateError x => (x, .raised .stateError)
  | .error .blocked x => (x, .blocked)

section actions

variable (outcomes : Outcomes)

def doRetryConfigure : UnitM Unit := do
  UnitLifecycle.start outcomes false true
  UnitLifecycle.configure outcomes false

def doRetryConfigureHook : UnitM Unit := do
  UnitLifecycle.start outcomes false true
  UnitLifecycle.configure outcomes true

/-- The methods `do_…` of `UnitWorkflowState`. -/
def unitAction : UnitTransition → Option (UnitM Unit)
  | .install => some (UnitLifecycle.install outcomes true)
  | .retryInstall => some (UnitLifecycle.install outcomes false)
  | .retryInstallHook => some (UnitLifecycle.install outcomes true)
  | .start => some (UnitLifecycle.start outcomes true true)
  | .retryStart => some (UnitLifecycle.start outcomes false true)
  | .retryStartHook => some (UnitLifecycle.start outcomes true true)
  | .stop => some (UnitLifecycle.stop outcomes true)
  | .retryStop => some (UnitLifecycle.stop outcomes false)
  | .retryStopHook => some (UnitLifecycle.stop outcomes true)
  | .upgradeCharm => some (UnitLifecycle.upgradeCharm outcomes true false)
  | .retryUpgradeCharm => some (UnitLifecycle.upgradeCharm outcomes false false)
  | .retryUpgradeCharmHook => some (UnitLifecycle.upgradeCharm outcomes true false)
  | .errorConfigure => some (UnitLifecycle.stop outcomes false)
  | .configure => some (UnitLifecycle.configure outcomes true)
  | .errorRetryConfigure => some (UnitLifecycle.stop outcomes false)
  | .retryConfigure => some (doRetryConfigure outcomes)
  | .retryConfigureHook => some (doRetryConfigureHook outcomes)
  | _ => none

def unitActions (t : UnitTransition) :
    Option (UnitAgentParts → UnitAgentParts × ActionResult String UnitException) :=
  (unitAction outcomes t).map invokeLifecycle

/-- More fuel than any chain of error and automatic transitions of the unit workflow uses. -/
def unitFuel : Nat := 4

/-- `fire_transition`, once the agent has synchronized. -/
def fireUnit (t : UnitTransition) (m : UnitWorkflowState) : UnitWorkflowState × UnitFireResult :=
  fireTransition unitWorkflow (unitActions outcomes.loaded) unitFuel t ∅ m

end actions

/-- `_get_preconditions`: whether the executor and the lifecycle should run. -/
def preconditions (d : UnitDict) : Bool × Bool :=
  match d.state with
  | some .charmUpgradeError => (false, true)
  | some .started => if d.transitionId = some .upgradeCharm then (false, true) else (true, true)
  | _ => (true, false)

/-- What `UnitWorkflowState.synchronize` does before it completes the transition in flight. -/
def meetPreconditions (outcomes : Outcomes) (runExecutor runLifecycle : Bool) : UnitM Unit := do
  let x ← get
  if runExecutor then
    if ¬ x.executorRunning then HookExecutor.start
  else if x.executorRunning then HookExecutor.stop
  let x ← get
  if runLifecycle then
    if ¬ x.lifecycleRunning then UnitLifecycle.start outcomes false false
  else if x.lifecycleRunning then UnitLifecycle.stop outcomes false

/-- `UnitWorkflowState.synchronize`. -/
def synchronizeUnit (outcomes : Outcomes) (m : UnitWorkflowState) :
    UnitWorkflowState × UnitFireResult :=
  let (runExecutor, runLifecycle) := preconditions m.stored
  match invokeLifecycle (meetPreconditions outcomes runExecutor runLifecycle) m.context with
  | (x, .done _) =>
    synchronize unitWorkflow (unitActions outcomes) unitFuel { m with context := x }
  | (x, .raised a) => ({ m with context := x }, .raised a)
  | (x, _) => ({ m with context := x }, .blocked)

end Juju.Unit

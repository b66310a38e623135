import Juju.Base.Runs
import Juju.Unit.ReadyUnit
import Mathlib.Logic.Function.Basic

namespace Juju.Unit
open Juju.Base Juju.Lib

/-- The watches of the unit agent, in the order in which `start` sets them up. -/
inductive UnitWatch where
  | resolved
  | configState
  | upgradeFlag
  deriving DecidableEq

/-- How a callback ends. -/
inductive CallbackResult where
  | returned
  | raised
  /-- It waits for a hook that is never executed. -/
  | blocked
  deriving DecidableEq

/-- What becomes of a transition whose exceptions the callback lets through. -/
def callbackResult (r : UnitFireResult) : CallbackResult :=
  match r with
  | .returned _ => .returned
  | .blocked => .blocked
  | _ => .raised

section results

variable (o : Outcomes) (m : UnitWorkflowState)

/-- How `cb_watch_resolved` ends once it has the lock. -/
def resolvedResult (retryHooks : Bool) : CallbackResult :=
  if m.stored.state = some .started then .returned
  else
    let alias_ := if retryHooks then .retryHook else .retry
    match (fireTransitionAlias unitWorkflow (unitActions o.loaded) unitFuel alias_ m).2 with
    | .blocked => .blocked
    | _ => .returned

/-- How `cb_watch_upgrade_flag` ends once it has the lock: a forced upgrade is no transition. -/
def upgradeFlagResult (force : Bool) : CallbackResult :=
  if m.stored.state ≠ some .started then
    if force then
      match UnitLifecycle.upgradeCharm o false true m.context with
      | .ok _ _ => .returned
      | .error .blocked _ => .blocked
      | .error _ _ => .raised
    else .returned
  else callbackResult (fireUnit o .upgradeCharm m).2

/-- How `cb_watch_config_changed` ends once it has the lock. -/
def configChangedResult : CallbackResult :=
  if m.stored.state ≠ some .started then .returned
  else callbackResult (fireUnit o .configure m).2

end results

namespace UnitWatch

/-- What a callback does once it has the lock, with the flag that it has read. -/
def operation (flag : Bool) : UnitWatch → AgentOperation
  | resolved => .resolved flag
  | configState => .configChanged
  | upgradeFlag => .upgradeFlag false flag

def result (o : Outcomes) (m : UnitWorkflowState) (flag : Bool) : UnitWatch → CallbackResult
  | resolved => resolvedResult o m flag
  | configState => configChangedResult o m
  | upgradeFlag => upgradeFlagResult o m flag

end UnitWatch

/-- How far a watch has come: set up or not, with its watcher added to the deferred of the last
`exists_and_watch`, with its callback under way, or with a callback that never ends or that has
raised before the watcher was added. -/
inductive CallbackStage where
  | unset
  | attached
  | reading
  | clearing (flag : Bool)
  /-- `cb_watch_upgrade_flag` compares the ids of the charms. -/
  | comparing (force : Bool)
  /-- It has or waits for the lock of the workflow. -/
  | locking (flag : Bool)
  | blocked
  | lost
  deriving DecidableEq

/-- A unit with the nodes that its agent watches. `node` is the value of "retry" in the resolved
node, and of "force" in the upgrade node. Each node has changed so often, and had when the last
invocation of its callback began; `registered` tells whether the server has the last watch still. -/
structure WatchedUnit where
  unit : UnitWorkflowState
  node : UnitWatch → Option Bool
  changes : UnitWatch → Nat
  begun : UnitWatch → Nat
  registered : UnitWatch → Bool
  stage : UnitWatch → CallbackStage
  toSetUp : List UnitWatch
  workflowLock : List UnitWatch

inductive UnitEvent where
  | setResolved (retryHooks : Bool)
  | setUpgradeFlag (force : Bool)
  | changeConfig
  /-- `start` comes to the next watch. -/
  | setUp
  /-- A watch has fired, and its deferred calls the watcher. -/
  | invoke (w : UnitWatch)
  | read (w : UnitWatch)
  | clear (w : UnitWatch)
  | compare (w : UnitWatch) (latest : Bool)
  /-- The holder of the lock is done. -/
  | finish (w : UnitWatch) (o : Outcomes)

/-- Whether an event is one of the agent's own. -/
def UnitEvent.internal : UnitEvent → Bool
  | setResolved _ => false
  | setUpgradeFlag _ => false
  | changeConfig => false
  | _ => true

namespace WatchedUnit

variable (s : WatchedUnit) (w : UnitWatch)

/-- A node changes, and what is registered for it fires. -/
def change : WatchedUnit :=
  { s with
    changes := Function.update s.changes w (s.changes w + 1)
    registered := Function.update s.registered w false }

/-- `set_resolved` and `set_upgrade_flag`, which leave a node that exists as it is. -/
def setFlag (flag : Bool) : WatchedUnit :=
  if s.node w = none then { s with node := Function.update s.node w (some flag) }.change w else s

/-- `clear_resolved` and `clear_upgrade_flag`. -/
def clearFlag : WatchedUnit :=
  if s.node w = none then s else { s with node := Function.update s.node w none }.change w

def setStage (stage : CallbackStage) : WatchedUnit :=
  { s with stage := Function.update s.stage w stage }

/-- A callback comes for the lock of the workflow. -/
def comeForLock (flag : Bool) : WatchedUnit :=
  { s.setStage w (.locking flag) with workflowLock := s.workflowLock ++ [w] }

/-- `exists_and_watch`, and the invocation of the callback. -/
def begin_ : WatchedUnit :=
  let s := { s with
    begun := Function.update s.begun w (s.changes w)
    registered := Function.update s.registered w true }
  match w with
  | .configState => s.comeForLock w false
  | _ => s.setStage w .reading

/-- The callback has returned, and the watcher is added to the deferred. The first time `start`
goes on. -/
def attach : WatchedUnit :=
  { s.setStage w .attached with
    toSetUp := if s.toSetUp.head? = some w then s.toSetUp.tail else s.toSetUp }

/-- The holder of the lock ends its work. -/
def finish (flag : Bool) (o : Outcomes) : WatchedUnit :=
  let done := { s with unit := operate o s.unit (w.operation flag) }
  match w.result o s.unit flag with
  | .returned => { done with workflowLock := s.workflowLock.tail }.attach w
  | .raised => { done with workflowLock := s.workflowLock.tail }.setStage w .lost
  | .blocked => done.setStage w .blocked

def step : UnitEvent → Option WatchedUnit
  | .setResolved retryHooks => some (s.setFlag .resolved retryHooks)
  | .setUpgradeFlag force => some (s.setFlag .upgradeFlag force)
  | .changeConfig => some (s.change .configState)
  | .setUp =>
    match s.toSetUp with
    | [] => none
    | w :: _ => if s.stage w = .unset then some (s.begin_ w) else none
  | .invoke w =>
    if s.stage w = .attached ∧ s.registered w = false then some (s.begin_ w) else none
  | .read w =>
    if s.stage w = .reading then
      match s.node w with
      | none => some (s.attach w)
      | some flag => some (s.setStage w (.clearing flag))
    else none
  | .clear w =>
    match s.stage w with
    | .clearing flag =>
      match w with
      | .upgradeFlag => some ((s.clearFlag w).setStage w (.comparing flag))
      | _ => some ((s.clearFlag w).comeForLock w flag)
    | _ => none
  | .compare w latest =>
    match s.stage w with
    | .comparing force => if latest then some (s.attach w) else some (s.comeForLock w force)
    | _ => none
  | .finish w o =>
    match s.stage w with
    | .locking flag => if s.workflowLock.head? = some w then some (s.finish w flag o) else none
    | _ => none

/-- The agent has synchronized its unit, whatever was stored and set, and has no watch yet. -/
structure Initial : Prop where
  synchronized : ∃ o d success,
    synchronizeUnit o (restarted d) = (s.unit, .returned success)
  unset : ∀ w, s.stage w = .unset
  unregistered : ∀ w, s.registered w = false
  toSetUp : s.toSetUp = [.resolved, .configState, .upgradeFlag]
  unlocked : s.workflowLock = []

/-- The next change of the node calls the watcher. -/
def Armed : Prop := s.stage w = .attached ∧ s.registered w = true

/-- The next callback is due. -/
def Pending : Prop := s.stage w = .attached ∧ s.registered w = false

/-- The callback is under way. -/
def Running : Prop :=
  s.stage w = .reading ∨ (∃ flag, s.stage w = .clearing flag) ∨
    (∃ force, s.stage w = .comparing force) ∨ ∃ flag, s.stage w = .locking flag

/-- The agent has nothing left to do. -/
def Quiescent : Prop := ∀ e : UnitEvent, e.internal = true → s.step e = none

/-- No watch is lost, and when the agent has nothing left to do the last invocation of each
callback began after the last change of its node. -/
structure Listening : Prop where
  kept : ∀ w, s.Armed w ∨ s.Pending w ∨ s.Running w ∨ s.stage w = .unset
  heard : s.Quiescent → ∀ w, s.Armed w ∧ s.begun w = s.changes w

/-- A forced upgrade of a unit that is not started downloads and extracts the charm. -/
def Upgrades : UnitEvent → Prop
  | .finish .upgradeFlag o =>
    s.stage .upgradeFlag = .locking true → s.unit.stored.state ≠ some .started →
      o.prepared ≠ .failed ∧ (o.prepared = .ready → o.extracted = true)
  | _ => True

end WatchedUnit

end Juju.Unit

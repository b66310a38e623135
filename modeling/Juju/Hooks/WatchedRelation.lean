import Juju.Hooks.CrashConsistency
import Juju.Hooks.DueHooks
import Juju.State.RelationUnitWatcher

namespace Juju.Hooks
open Juju.Base
open Juju.State (RelationUnitWatcher WatcherEvent WatcherRequest)

variable {U : Type} [LinearOrder U]

/-- A relation that one of its units follows: the container of the units on its other side, the
versions of their settings nodes, the watcher, and the session of the scheduler fed by it.
What a watch has been set on is kept beside the watch, and goes with the notification on its way:
for the container, the number of its changes when it was read last; for settings, their version.
`shown` has the version of a unit's settings when the last hook to show the unit began. -/
structure WatchedRelation (U : Type) where
  container : Option (Finset U)
  changes : Nat
  versions : U → Option Nat
  watcher : RelationUnitWatcher U
  containerRead : Option Nat
  answered : List (U × Option Nat)
  named : List (U × Nat)
  notifying : List (U × Nat)
  watched : List (U × Option Nat)
  session : Session U
  shown : U → Option Nat

inductive RelationEvent (U : Type) where
  /-- The node of the container is created. -/
  | container
  /-- A unit on the other side creates its settings node, or sets it. -/
  | writes (unit : U)
  /-- Its presence node comes, or goes. -/
  | joins (unit : U)
  | leaves (unit : U)
  | watcher (e : WatcherEvent U)
  | scheduler (e : SessionEvent U)
  /-- The agent's process ends, and is started again. -/
  | restarts

namespace WatchedRelation

def children (r : WatchedRelation U) : Finset U := r.container.getD ∅

/-- ZooKeeper answers with what there is, and fires a watch when what it was set on has changed. -/
def Truthful (r : WatchedRelation U) : WatcherEvent U → Prop
  | .childrenAnswered children =>
    (children.getD []).Nodup ∧ children.map List.toFinset = r.container
  | .existsAnswered stat =>
    match r.watcher.requests with
    | .settings u _ :: _ => stat = (r.versions u).isSome
    | _ => stat = r.container.isSome
  | .containerFired => r.containerRead ≠ some r.changes
  | .containerCreated => r.container.isSome
  | .settingsFired i => ∀ read ∈ r.watched[i]?, r.versions read.1 ≠ read.2
  | _ => True

instance decidableTruthful (r : WatchedRelation U) (e : WatcherEvent U) :
    Decidable (r.Truthful e) :=
  match e with
  | .childrenAnswered _ => inferInstanceAs (Decidable (_ ∧ _))
  | .existsAnswered stat =>
    match h : r.watcher.requests with
    | .settings u _ :: _ => decidable_of_iff (stat = (r.versions u).isSome) (by simp [Truthful, h])
    | [] => decidable_of_iff (stat = r.container.isSome) (by simp [Truthful, h])
    | .children _ :: _ => decidable_of_iff (stat = r.container.isSome) (by simp [Truthful, h])
    | .container :: _ => decidable_of_iff (stat = r.container.isSome) (by simp [Truthful, h])
    | .memberNames _ _ _ :: _ =>
      decidable_of_iff (stat = r.container.isSome) (by simp [Truthful, h])
    | .unitName _ :: _ => decidable_of_iff (stat = r.container.isSome) (by simp [Truthful, h])
  | .containerFired => inferInstanceAs (Decidable (_ ≠ _))
  | .containerCreated => inferInstanceAs (Decidable (_ = true))
  | .settingsFired i =>
    match h : r.watched[i]? with
    | none => isTrue (by simp [Truthful, h])
    | some read =>
      decidable_of_iff (r.versions read.1 ≠ read.2) (by simp [Truthful, h])
  | .start => isTrue trivial
  | .stop => isTrue trivial
  | .namesAnswered => isTrue trivial
  | .membersDone _ => isTrue trivial
  | .settingsTracked _ => isTrue trivial
  | .settingsDone _ => isTrue trivial

/-- What is read in an event, or passed on. -/
def reads (r : WatchedRelation U) : WatcherEvent U → WatchedRelation U
  | .childrenAnswered (some _) => { r with containerRead := some r.changes }
  | .existsAnswered _ =>
    match r.watcher.requests with
    | .settings u _ :: _ => { r with answered := r.answered ++ [(u, r.versions u)] }
    | _ => r
  | .namesAnswered =>
    match r.watcher.requests, r.named with
    | .unitName _ :: _, read :: named =>
      { r with named := named, notifying := r.notifying ++ [read] }
    | _, _ => r
  | .settingsTracked i =>
    let left := r.answered.eraseIdx i
    match r.answered[i]? with
    | some (u, some v) =>
      if r.watcher.unitNameMap then
        { r with answered := left, notifying := r.notifying ++ [(u, v)] }
      else { r with answered := left, named := r.named ++ [(u, v)] }
    | some (u, none) => { r with answered := left, watched := r.watched ++ [(u, none)] }
    | none => r
  | .settingsDone i =>
    match r.notifying[i]? with
    | some (u, v) =>
      { r with notifying := r.notifying.eraseIdx i, watched := r.watched ++ [(u, some v)] }
    | none => r
  | .settingsFired i => { r with watched := r.watched.eraseIdx i }
  | _ => r

/-- An event of the scheduler; where a hook begins, the settings are shown as they are. -/
def deliver (r : WatchedRelation U) (e : SessionEvent U) :
    Except (SchedulerError U) (WatchedRelation U) := do
  let session ← r.session.step e
  let shown := match r.session.begun session e with
    | some change =>
      if change.changeType = .departed then r.shown
      else Function.update r.shown change.unitName (r.versions change.unitName)
    | none => r.shown
  .ok { r with session := session, shown := shown }

/-- The `cb_members` and `cb_settings` calls that have been made from `r` to `r'`. -/
def membersCalled (r r' : WatchedRelation U) : Option (List U × List U) :=
  (r'.watcher.calls.drop r.watcher.calls.length).head?

def settingsCalled (r r' : WatchedRelation U) : Option (U × Nat) :=
  (r'.notifying.drop r.notifying.length).head?

/-- The callback of the scheduler that is called from `r` to `r'`. -/
def called (r r' : WatchedRelation U) : Option (SessionEvent U) :=
  match r.membersCalled r', r.settingsCalled r' with
  | some (_, newUnits), _ => some (.members (sorted newUnits))
  | none, some (u, v) => some (.settings [(u, (v : Int))])
  | none, none => none

/-- The scheduler is called back, with the old units that the watcher passes on. -/
def callBack (r r' : WatchedRelation U) : Except (SchedulerError U) (WatchedRelation U) :=
  let r' := match r.membersCalled r' with
    | some (oldUnits, _) =>
      { r' with session := { r'.session with current := sorted oldUnits } }
    | none => r'
  match r.called r' with
  | some e => r'.deliver e
  | none => .ok r'

/-- What a new process makes of the state file: it is executing no hook. -/
def reload (s : Session U) : Session U :=
  { s with scheduler := loadState s.scheduler.stateFile.head?, executing := none }

/-- A new process has a new watcher, and what the state file has. -/
def restart (r : WatchedRelation U) : WatchedRelation U :=
  { r with
    watcher := RelationUnitWatcher.constructed
    containerRead := none
    answered := []
    named := []
    notifying := []
    watched := []
    session := reload r.session }

def nextVersion : Option Nat → Nat
  | none => 0
  | some v => v + 1

/-- One event; none where it cannot happen, or raises. -/
def step (interested : U → Bool) (r : WatchedRelation U) :
    RelationEvent U → Option (WatchedRelation U)
  | .container => if r.container = none then some { r with container := some ∅ } else none
  | .writes u =>
    some { r with versions := Function.update r.versions u (some (nextVersion (r.versions u))) }
  | .joins u =>
    -- the settings node and the container are created before the presence node
    if r.container ≠ none ∧ (r.versions u).isSome ∧ u ∉ r.children then
      some { r with container := some (insert u r.children), changes := r.changes + 1 }
    else none
  | .leaves u =>
    if u ∈ r.children then
      some { r with container := some (r.children.erase u), changes := r.changes + 1 }
    else none
  | .watcher e =>
    if r.Truthful e then
      match r.watcher.step interested e with
      | some watcher => (r.callBack { r.reads e with watcher := watcher }).toOption
      | none => none
    else none
  | .scheduler e =>
    match e with
    | .members _ | .settings _ => none
    | e => (r.deliver e).toOption
  | .restarts => some r.restart

/-- A relation in which nothing has happened. -/
def fresh : WatchedRelation U :=
  ⟨none, 0, fun _ => none, RelationUnitWatcher.constructed, none, [], [], [], [], freshSession,
    fun _ => none⟩

def stops : WatcherEvent U → Bool
  | .stop => true
  | _ => false

/-- The watcher is not stopped, and what it tells the scheduler is timely, and does not come while a
hook is under way that a stopped loop has left. -/
def Undisturbed (interested : U → Bool) (r : WatchedRelation U) : RelationEvent U → Prop
  | .watcher e => stops e = false ∧ ∀ watcher ∈ r.watcher.step interested e,
      ∀ c ∈ r.called { r.reads e with watcher := watcher }, Timely r.session c ∧ r.session.InLoop
  | _ => True

instance decidableNoneBehind (s : Session U) (newUnits : List U) :
    Decidable (NoneBehind s newUnits) :=
  inferInstanceAs (Decidable (∀ c ∈ s.executing, if s.scheduler.running then
    ∀ p ∈ s.scheduler.runQueue.pending.tail, p.unitName ∉ changedUnits s.scheduler newUnits
    else c.unitName ∈ changedUnits s.scheduler newUnits →
      ∃ p ∈ s.scheduler.runQueue.pending.tail, p.unitName = c.unitName ∧
        p.changeType ≠ c.changeType))

instance decidableTimely (s : Session U) (e : SessionEvent U) : Decidable (Timely s e) :=
  match e with
  | .members newUnits => decidableNoneBehind s newUnits
  | .settings _ => inferInstanceAs (Decidable (_ ∧ ∀ uv ∈ _, _))
  | .run => isTrue trivial
  | .hookEnds _ => isTrue trivial
  | .stop => isTrue trivial

instance decidableUndisturbed (interested : U → Bool) (r : WatchedRelation U)
    (e : RelationEvent U) : Decidable (Undisturbed interested r e) :=
  match e with
  | .watcher _ => inferInstanceAs (Decidable (_ ∧ ∀ watcher ∈ _, ∀ c ∈ _, _))
  | .container => isTrue trivial
  | .writes _ => isTrue trivial
  | .joins _ => isTrue trivial
  | .leaves _ => isTrue trivial
  | .scheduler _ => isTrue trivial
  | .restarts => isTrue trivial

/-- Nothing is under way: no callback, no watch that has something to fire for, no hook. -/
structure AtRest (r : WatchedRelation U) : Prop where
  started : r.watcher.stopped = some false
  quiet : r.watcher.Quiet
  container : r.watcher.containerWatches ≠ 0 → r.containerRead = some r.changes
  creation : r.watcher.creationWatches ≠ 0 → r.container = none
  settings : ∀ read ∈ r.watched, r.versions read.1 = read.2
  queue : r.session.scheduler.runQueue.pending = []

/-- The charm has been told of every unit on the other side, and the last hook to show one began
when its settings were what they are. A new watcher that has found no unit tells nothing. -/
structure Delivered (interested : U → Bool) (r : WatchedRelation U) : Prop where
  joined : ∀ u ∈ r.children, interested u → u ∈ present r.session.history ∧
    ∃ v, r.versions u = some v ∧ r.shown u = some v
  departed : r.watcher.calls ≠ [] → ∀ u ∈ present r.session.history,
    u ∈ r.children ∧ interested u

end WatchedRelation

end Juju.Hooks

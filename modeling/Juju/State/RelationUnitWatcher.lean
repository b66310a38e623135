import Juju.Base.Runs

namespace Juju.State
open Juju.Base

/-- A request to ZooKeeper, with what its answer goes on to. -/
inductive WatcherRequest (U : Type) where
  /-- `get_children_and_watch`; `establishing` where a missing container is handled. -/
  | children (establishing : Bool)
  /-- `exists_and_watch` of the container. -/
  | container
  /-- The names for the `cb_members` call of a task. -/
  | memberNames (task : Nat) (oldUnits newUnits : List U)
  /-- `exists_and_watch` of a unit's settings, which may have to wait for the end of a task. -/
  | settings (unit : U) (task : Option Nat)
  /-- The name for a `cb_settings` call. -/
  | unitName (unit : U)

/-- A `RelationUnitWatcherBase` between two of its callbacks. Requests are answered in the order
they were made; pending watches are those with their handler attached: on the children of the
container, on the creation of the container, on units' settings. Units go by their ids. -/
structure RelationUnitWatcher (U : Type) where
  stopped : Option Bool
  units : List U
  /-- `_unit_name_map` is filled. -/
  unitNameMap : Bool
  requests : List (WatcherRequest U)
  nextTask : Nat
  /-- The `cb_members` calls under way. -/
  calling : List Nat
  /-- Settings found, or not, and not notified yet. -/
  answered : List (U × Option Nat × Bool)
  /-- The `cb_settings` calls under way. -/
  notifying : List U
  containerWatches : Nat
  creationWatches : Nat
  settingsWatches : List U
  /-- The `cb_members` calls made. -/
  calls : List (List U × List U)

inductive WatcherEvent (U : Type) where
  | start
  | stop
  /-- The children of the container, or none where it does not exist. -/
  | childrenAnswered (children : Option (List U))
  | existsAnswered (stat : Bool)
  | namesAnswered
  | membersDone (i : Nat)
  /-- The notification of a unit's settings, which nothing holds back any more. -/
  | settingsTracked (i : Nat)
  | settingsDone (i : Nat)
  | containerFired
  | containerCreated
  | settingsFired (i : Nat)

namespace RelationUnitWatcher

variable {U : Type} [DecidableEq U]

def request (s : RelationUnitWatcher U) (r : WatcherRequest U) : RelationUnitWatcher U :=
  { s with requests := s.requests ++ [r] }

/-- `_cb_container_children`, on children already filtered. -/
def cbContainerChildren (s : RelationUnitWatcher U) (children : List U) : RelationUnitWatcher U :=
  if s.units = children then
    -- no delta: the handler is attached to the container watch
    { s with containerWatches := s.containerWatches + 1 }
  else
    let added := children.filter fun u => u ∉ s.units
    let unitNameMap := s.unitNameMap && added.isEmpty
    let s' := { s with
      units := children
      unitNameMap := unitNameMap
      nextTask := s.nextTask + 1
      requests := s.requests ++ added.map fun u => WatcherRequest.settings u (some s.nextTask) }
    if unitNameMap then
      { s' with calling := s.calling ++ [s.nextTask], calls := s.calls ++ [(s.units, children)] }
    else s'.request (.memberNames s.nextTask s.units children)

/-- The task of a `cb_members` call has not come to its end. -/
def TaskOpen (s : RelationUnitWatcher U) (task : Nat) : Prop :=
  task ∈ s.calling ∨ s.requests.any fun r => match r with
    | .memberNames t _ _ => t = task
    | _ => false

instance (s : RelationUnitWatcher U) (task : Nat) : Decidable (s.TaskOpen task) :=
  inferInstanceAs (Decidable (_ ∨ _))

/-- `_notify_unit_settings_version`; with no settings node, the handler is attached at once. -/
def notifyUnitSettingsVersion (s : RelationUnitWatcher U) (u : U) (stat : Bool) :
    RelationUnitWatcher U :=
  if stat then
    if s.unitNameMap then { s with notifying := s.notifying ++ [u] } else s.request (.unitName u)
  else { s with settingsWatches := s.settingsWatches ++ [u] }

/-- `_cb_unit_change`. -/
def cbUnitChange (s : RelationUnitWatcher U) (u : U) : RelationUnitWatcher U :=
  if s.stopped = some true ∨ u ∉ s.units then s else s.request (.settings u none)

/-- `_cb_container_child_change`. -/
def cbContainerChildChange (s : RelationUnitWatcher U) : RelationUnitWatcher U :=
  if s.stopped = some true then s else s.request (.children false)

/-- One event; `interested` is `_filter_units`. -/
def step (interested : U → Bool) (s : RelationUnitWatcher U) :
    WatcherEvent U → Option (RelationUnitWatcher U)
  | .start =>
    if s.stopped = some false then none
    else some ({ s with stopped := some false }.request (.children true))
  | .stop => some { s with stopped := some true }
  | .childrenAnswered children =>
    match s.requests, children with
    | .children _ :: requests, some children =>
      some ({ s with requests := requests }.cbContainerChildren (children.filter interested))
    | .children true :: requests, none => some ({ s with requests := requests }.request .container)
    | _, _ => none
  | .existsAnswered stat =>
    match s.requests with
    | .container :: requests =>
      -- a watch set on a container that is there by then never sees it created
      some (if stat then { s with requests := requests }.request (.children true)
        else { s with requests := requests, creationWatches := s.creationWatches + 1 })
    | .settings u task :: requests =>
      some { s with requests := requests, answered := s.answered ++ [(u, task, stat)] }
    | _ => none
  | .namesAnswered =>
    match s.requests with
    | .memberNames task oldUnits newUnits :: requests =>
      some { s with
        requests := requests
        unitNameMap := true
        calling := s.calling ++ [task]
        calls := s.calls ++ [(oldUnits, newUnits)] }
    | .unitName u :: requests =>
      some { s with requests := requests, unitNameMap := true, notifying := s.notifying ++ [u] }
    | _ => none
  | .membersDone i =>
    if i < s.calling.length then
      some { s with
        calling := s.calling.eraseIdx i
        containerWatches := s.containerWatches + 1 }
    else none
  | .settingsTracked i =>
    match s.answered[i]? with
    | none => none
    | some (u, task, stat) =>
      if ∃ t ∈ task, s.TaskOpen t then none
      else some ({ s with answered := s.answered.eraseIdx i }.notifyUnitSettingsVersion u stat)
  | .settingsDone i =>
    match s.notifying[i]? with
    | none => none
    | some u => some { s with
        notifying := s.notifying.eraseIdx i
        settingsWatches := s.settingsWatches ++ [u] }
  | .containerFired =>
    match s.containerWatches with
    | 0 => none
    | n + 1 => some { s with containerWatches := n }.cbContainerChildChange
  | .containerCreated =>
    match s.creationWatches with
    | 0 => none
    | n + 1 => some ({ s with creationWatches := n }.request (.children true))
  | .settingsFired i =>
    match s.settingsWatches[i]? with
    | none => none
    | some u => some ({ s with settingsWatches := s.settingsWatches.eraseIdx i }.cbUnitChange u)

/-- A watcher just constructed. -/
def constructed : RelationUnitWatcher U := ⟨none, [], false, [], 0, [], [], [], 0, 0, [], []⟩

/-- No callback is in progress. -/
structure Quiet (s : RelationUnitWatcher U) : Prop where
  requests : s.requests = []
  calling : s.calling = []
  answered : s.answered = []
  notifying : s.notifying = []

def lastReported (s : RelationUnitWatcher U) : List U :=
  (s.calls.getLast?.map Prod.snd).getD []

/-- From `s` on, a `cb_members` call with these units has been made in `s'`, or is made when
ZooKeeper has answered the requests before the names for it, whatever it answers. -/
def Reports (interested : U → Bool) (s s' : RelationUnitWatcher U) (oldUnits newUnits : List U) :
    Prop :=
  s'.calls = s.calls ++ [(oldUnits, newUnits)] ∨
  s'.calls = s.calls ∧ ∃ n, ∀ stats : List Bool, stats.length = n → ∃ s'',
    stepAll (step interested) s' (stats.map .existsAnswered ++ [.namesAnswered]) = some s'' ∧
      s''.calls = s.calls ++ [(oldUnits, newUnits)]

/-- A watch is pending whose handler reads the children and reports them where they differ from
the last reported ones, and each unit last reported has a watch pending whose handler goes on to
a `cb_settings` call, at once or when it has the unit's name. -/
structure Covered (interested : U → Bool) (s : RelationUnitWatcher U) : Prop where
  container : ∃ e, (e = .containerFired ∨ e = .containerCreated) ∧ ∃ s₁,
    s.step interested e = some s₁ ∧ ∀ children, ∃ s₂,
      s₁.step interested (.childrenAnswered (some children)) = some s₂ ∧
      (children.filter interested ≠ s.lastReported →
        Reports interested s s₂ s.lastReported (children.filter interested))
  settings : ∀ u ∈ s.lastReported, ∃ i s₁ s₂ s₃, s.settingsWatches[i]? = some u ∧
    s.step interested (.settingsFired i) = some s₁ ∧
    s₁.step interested (.existsAnswered true) = some s₂ ∧
    s₂.step interested (.settingsTracked 0) = some s₃ ∧
    (s₃.notifying = s.notifying ++ [u] ∨ ∃ s₄, s₃.step interested .namesAnswered = some s₄ ∧
      s₄.notifying = s.notifying ++ [u])

/-- Each list of old units is, as a set, the new units of the call before it. -/
def CallsChain (s : RelationUnitWatcher U) : Prop :=
  ∀ before c d after, s.calls = before ++ c :: d :: after → ∀ u, u ∈ d.1 ↔ u ∈ c.2

/-- No change of the settings of a unit of the watcher's comes to a stopped watcher, and no
membership change overtakes one whose names are still being read. -/
def Attended (interested : U → Bool) (s : RelationUnitWatcher U) : WatcherEvent U → Prop
  | .settingsFired i => ∀ u, s.settingsWatches[i]? = some u → u ∈ s.units → s.stopped ≠ some true
  | .childrenAnswered (some children) =>
    children.filter interested ≠ s.units → children.filter interested ⊆ s.units →
      s.unitNameMap = true → ∀ task oldUnits newUnits,
        .memberNames task oldUnits newUnits ∉ s.requests
  | _ => True

end RelationUnitWatcher

end Juju.State

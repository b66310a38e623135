import Juju.Base.Dict
import Juju.Hooks.HookQueue
import Mathlib.Data.List.Sort

namespace Juju.Hooks
open Juju.Base

/-- `DeferredQueue` with a backlog of one: `waiting` counts the deferreds handed out by
`next_change` and not yet fired. -/
structure HookQueue (U : Type) where
  pending : List (Change U)
  waiting : Nat

/-- What `_save_state` writes, before YAML. -/
structure SavedState (U : Type) where
  contextMembers : List U
  memberVersions : Dict U Int
  changeQueue : List (Change U)

/-- The scheduler's own state; `stateFile` lists the contents the state file has had, the
newest first. The set of context members is a list without repetitions. -/
structure HookScheduler (U : Type) where
  running : Bool
  contextMembers : Option (List U)
  memberVersions : Dict U Int
  runQueue : HookQueue U
  stateFile : List (SavedState U)

inductive SchedulerError (U : Type) where
  | queue (e : QueueError)
  /-- `sorted(None)`, while no membership has been delivered. -/
  | contextNone
  /-- `set.remove` of an element that is not there. -/
  | keyError (unitName : U)
  | queueUnderflow
  | alreadyRunning

variable {U : Type} [LinearOrder U]

def sorted (units : List U) : List U := units.insertionSort (· ≤ ·)

@[simp] theorem mem_sorted (units : List U) (u : U) : u ∈ sorted units ↔ u ∈ units :=
  (List.perm_insertionSort (· ≤ ·) units).mem_iff

def createState : HookScheduler U :=
  ⟨false, none, ∅, ⟨[], 0⟩, []⟩

def saveState (s : HookScheduler U) : Except (SchedulerError U) (HookScheduler U) :=
  match s.contextMembers with
  | none => .error .contextNone
  | some members =>
    .ok { s with stateFile :=
      ⟨sorted members, s.memberVersions, s.runQueue.pending⟩ :: s.stateFile }

def getChange (s : HookScheduler U) (unitName : U) (changeType : ChangeType) :
    Except (SchedulerError U) (Change U) :=
  match s.contextMembers with
  | none => .error .contextNone
  | some members => .ok ⟨unitName, changeType, sorted members⟩

/-- `_queue_change` on the scheduler's queue, with its `cb_modified` saving the state. -/
def queueAndSave (s : HookScheduler U) (change : Change U) (offset : Nat) :
    Except (SchedulerError U) (HookScheduler U) :=
  match queueChange s.runQueue.pending change offset with
  | .error e => .error (.queue e)
  | .ok (pending, modified) =>
    let s := { s with runQueue := { s.runQueue with pending := pending } }
    if modified then saveState s else .ok s

/-- `HookQueue.put`: the second component is the value a waiting deferred is fired with. -/
def put (s : HookScheduler U) (change : Option (Change U)) (offset : Nat) :
    Except (SchedulerError U) (HookScheduler U × Option (Option (Change U))) :=
  let fired (s : HookScheduler U) : HookScheduler U :=
    { s with runQueue := { s.runQueue with waiting := s.runQueue.waiting - 1 } }
  if s.runQueue.waiting ≠ 0 then
    match change with
    | none => .ok (fired s, some none)
    | some change => do
      let s ← queueAndSave s change 0
      match s.runQueue.pending with
      | [] => .ok (s, none)
      | head :: _ => .ok (fired s, some (some head))
  else
    match change with
    | none => .ok (s, none)
    | some change => do
      let s ← queueAndSave s change offset
      .ok (s, none)

/-- `HookQueue.next_change`: the head of the queue, or `none` for a waiting deferred. -/
def nextChange (s : HookScheduler U) :
    Except (SchedulerError U) (HookScheduler U × Option (Change U)) :=
  match s.runQueue.pending with
  | head :: _ => .ok (s, some head)
  | [] =>
    if s.runQueue.waiting < 1 then
      .ok ({ s with runQueue := { s.runQueue with waiting := s.runQueue.waiting + 1 } }, none)
    else .error .queueUnderflow

def finishedChange (s : HookScheduler U) : Except (SchedulerError U) (HookScheduler U) :=
  match s.runQueue.pending with
  | [] => .ok s
  | _ :: rest => saveState { s with runQueue := { s.runQueue with pending := rest } }

def stop (s : HookScheduler U) : Except (SchedulerError U) (HookScheduler U) :=
  if s.running then do
    let (s, _) ← put { s with running := false } none 1
    .ok s
  else .ok s

def queueJoined (s : HookScheduler U) (unitName : U) :
    Except (SchedulerError U) (HookScheduler U) := do
  let s := { s with contextMembers := s.contextMembers.map (List.insert unitName) }
  let change ← getChange s unitName .joined
  let (s, _) ← put s (some change) s.running.toNat
  .ok s

def queueDeparted (s : HookScheduler U) (unitName : U) :
    Except (SchedulerError U) (HookScheduler U) := do
  if unitName ∉ s.contextMembers.getD [] then throw (.keyError unitName)
  let s := { s with contextMembers := s.contextMembers.map (List.erase · unitName) }
  let change ← getChange s unitName .departed
  let (s, _) ← put s (some change) s.running.toNat
  .ok s

def cbChangeMembers (s : HookScheduler U) (oldUnits newUnits : List U) :
    Except (SchedulerError U) (HookScheduler U) := do
  let context := s.contextMembers.getD oldUnits.dedup
  let added := newUnits.dedup.filter (· ∉ s.memberVersions)
  let removed := s.memberVersions.keys.filter (· ∉ newUnits)
  let versions := added.foldl (fun d u => d.insert u 0) s.memberVersions
  let versions := removed.foldl (fun d u => d.erase u) versions
  let s := { s with contextMembers := some context, memberVersions := versions }
  let s ← (sorted added).foldlM queueJoined s
  let s ← (sorted removed).foldlM queueDeparted s
  saveState s

def queueModified (s : HookScheduler U) (unitVersion : U × Int) :
    Except (SchedulerError U) (HookScheduler U) := do
  let (unitName, version) := unitVersion
  if version > (s.memberVersions.lookup unitName).getD 0 then
    let s := { s with memberVersions := s.memberVersions.insert unitName version }
    let change ← getChange s unitName .modified
    let (s, _) ← put s (some change) s.running.toNat
    .ok s
  else .ok s

def cbChangeSettings (s : HookScheduler U) (unitVersions : List (U × Int)) :
    Except (SchedulerError U) (HookScheduler U) := do
  let s ← unitVersions.foldlM queueModified s
  saveState s

/-- A hook that `run` has executed, with its result and the queue it left behind. -/
structure Execution (U : Type) where
  change : Change U
  success : Bool
  behind : List (Change U)

/-- What `run` does once the hook of the head of the queue has ended. -/
def hookEnded (s : HookScheduler U) (change : Change U) (success : Bool) :
    Except (SchedulerError U) (HookScheduler U) := do
  let s ← if change.changeType = .joined then do
      let expanded ← getChange s change.unitName .modified
      let (s, _) ← put s (some expanded) 1
      pure s
    else pure s
  if success then finishedChange s else .ok { s with running := false }

/-- The loop of `run` while nothing else happens: `outcomes` are the results of the hooks it
gets to execute before `stop` is called, at the latest when it waits on an empty queue. -/
def runLoop : List Bool → HookScheduler U →
    Except (SchedulerError U) (HookScheduler U × List (Execution U))
  | [], s => do
    let s ← stop s
    .ok (s, [])
  | success :: outcomes, s => do
    match ← nextChange s with
    | (s, none) =>
      let s ← stop s
      .ok (s, [])
    | (s, some change) =>
      let s ← hookEnded s change success
      let executed : Execution U := ⟨change, success, s.runQueue.pending⟩
      if s.running then
        let (s, rest) ← runLoop outcomes s
        .ok (s, executed :: rest)
      else .ok (s, [executed])

def run (s : HookScheduler U) (outcomes : List Bool) :
    Except (SchedulerError U) (HookScheduler U × List (Execution U)) :=
  if s.running then .error .alreadyRunning
  else runLoop outcomes { s with running := true }

end Juju.Hooks

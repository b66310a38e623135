import Juju.Base.Runs
import Juju.Hooks.HookQueue

namespace Juju.Hooks
open Juju.Base

variable {U : Type} [DecidableEq U]

/-- A hook that a loop of `run` has started and not seen the end of. -/
structure ExecutingHook (U : Type) where
  serial : Nat
  change : Change U

/-- The queue and the loops of `run` at work on it. Every queued change has a number of its own
in `serials`; `waiting` counts the loops that wait in `next_change`, and `finished` has the
number of every change whose hook succeeded, with that of the change then taken off. -/
structure SchedulerLoops (U : Type) where
  running : Bool
  pending : List (Change U)
  serials : List Nat
  nextSerial : Nat
  waiting : Nat
  executing : List (ExecutingHook U)
  finished : List (Nat × Option Nat)

/-- What `_queue_change` does to the numbers of the changes. -/
def queueSerials (pending : List (Change U)) (serials : List Nat) (change : Change U)
    (offset fresh : Nat) : List Nat :=
  match previous change.unitName (pending.drop offset) with
  | none => serials ++ [fresh]
  | some (previousIdx, prev) =>
    match reduce (previousIdx, prev.changeType) (-1, change.changeType) with
    | none => serials
    | some (changeIdx, changeType) =>
      if changeIdx = some (previousIdx : Int) then serials
      else match changeType with
        | some _ => serials.eraseIdx previousIdx ++ [fresh]
        | none => serials.eraseIdx previousIdx

namespace SchedulerLoops

/-- A loop takes the head of the queue and starts its hook. -/
def executeHead (s : SchedulerLoops U) : SchedulerLoops U :=
  match s.pending, s.serials with
  | change :: _, serial :: _ => { s with executing := s.executing ++ [⟨serial, change⟩] }
  | _, _ => s

/-- A loop comes to its condition, and asks for the next change if it goes on; a second loop
that would wait ends with QueueUnderflow. -/
def turn (s : SchedulerLoops U) : SchedulerLoops U :=
  if s.running then
    match s.pending with
    | _ :: _ => s.executeHead
    | [] => if s.waiting < 1 then { s with waiting := s.waiting + 1 } else s
  else s

/-- `put` of a change; one that `_reduce` does not handle raises. A loop that waits is resumed
with the head of the queue. -/
def put (s : SchedulerLoops U) (change : Change U) (offset : Nat) : SchedulerLoops U :=
  let offset := if s.waiting ≠ 0 then 0 else offset
  match queueChange s.pending change offset with
  | .error _ => s
  | .ok (pending, _) =>
    let queued := { s with
      pending := pending
      serials := queueSerials s.pending s.serials change offset s.nextSerial
      nextSerial := s.nextSerial + 1 }
    if s.waiting ≠ 0 ∧ pending ≠ [] then
      { queued with waiting := s.waiting - 1 }.executeHead
    else queued

/-- `finished_change`, after the hook of the change numbered `serial` has succeeded. -/
def finishedChange (s : SchedulerLoops U) (serial : Nat) : SchedulerLoops U :=
  { s with
    pending := s.pending.tail
    serials := s.serials.tail
    finished := s.finished ++ [(serial, s.serials.head?)] }

end SchedulerLoops

inductive LoopEvent (U : Type) where
  | run
  | stop
  | put (change : Change U)
  /-- A hook ends, with the members of the context by then. -/
  | hookEnds (hook : Nat) (success : Bool) (members : List U)

/-- One event: `run` asserts that the scheduler is not running, and the callbacks put their
changes with an offset of `int(self._running)`. -/
def SchedulerLoops.step (s : SchedulerLoops U) : LoopEvent U → Option (SchedulerLoops U)
  | .run => if s.running then none else some { s with running := true }.turn
  | .stop =>
    -- a loop that waits gets the None and ends
    some (if s.running then { s with running := false, waiting := s.waiting - 1 } else s)
  | .put change => some (s.put change s.running.toNat)
  | .hookEnds hook success members =>
    match s.executing[hook]? with
    | none => none
    | some x =>
      let s := { s with executing := s.executing.eraseIdx hook }
      let s :=
        if x.change.changeType = .joined then s.put ⟨x.change.unitName, .modified, members⟩ 1
        else s
      some (if success then (s.finishedChange x.serial).turn else { s with running := false })

/-- A scheduler that has not run yet, on the queue that it has loaded. -/
structure SchedulerLoops.Unstarted (s : SchedulerLoops U) : Prop where
  running : s.running = false
  serials : s.serials = List.range s.pending.length
  nextSerial : s.nextSerial = s.pending.length
  waiting : s.waiting = 0
  executing : s.executing = []
  finished : s.finished = []

/-- The merge leaves the head of the queue where it is. -/
def KeepsHead (pending : List (Change U)) (change : Change U) (offset : Nat) : Prop :=
  match previous change.unitName (pending.drop offset) with
  | none => True
  | some (previousIdx, prev) => previousIdx = 0 →
      prescribed prev.changeType change.changeType = some .keep ∨
        prescribed prev.changeType change.changeType = none

/-- `run` is not called while a hook of an earlier loop is still executed, and no change that
comes during a hook takes the head off the queue. -/
def Orderly (s : SchedulerLoops U) : LoopEvent U → Prop
  | .run => s.executing = []
  | .put change => s.executing ≠ [] → KeepsHead s.pending change s.running.toNat
  | _ => True

/-- At most one hook is executed, every `finished_change` has removed the change whose hook
had succeeded, and no such change is executed again. -/
structure OneLoop (s : SchedulerLoops U) : Prop where
  one : s.executing.length ≤ 1
  removes : ∀ f ∈ s.finished, f.2 = some f.1
  never : ∀ f ∈ s.finished, ∀ x ∈ s.executing, x.serial ≠ f.1

end Juju.Hooks

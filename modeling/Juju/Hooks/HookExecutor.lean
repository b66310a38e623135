import Juju.Base.Runs

namespace Juju.Hooks
open Juju.Base

/-- An entry of `_executions`: a hook, by the number of its `__call__`, or the STOP value. -/
inductive QueuedExecution where
  | hook (n : Nat)
  | stop

/-- Who waits for the run lock. -/
inductive LockWaiter where
  /-- A loop of `start` with the hook that it has taken from the queue. -/
  | loop (n : Nat)
  | stop
  | priorityHook

/-- A hook under way, or ended but not yet past the release of the run lock. -/
inductive Invocation where
  | hook (n : Nat)
  | priorityHook

/-- `handed` is a run lock given to the first who waits, who has not resumed yet. -/
inductive RunLock where
  | free
  | handed
  | held

/-- The queue, the run lock and the loops of `start`: those at their `while`, those that wait for
the queue and those in the line for the lock. `scheduled` counts the calls, `begun` has every
scheduled hook begun with `_running` at its begin, `fired` every deferred fired with its result. -/
structure HookExecutor where
  running : Bool
  executions : List QueuedExecution
  atTop : Nat
  getting : Nat
  lock : RunLock
  line : List LockWaiter
  executing : List Invocation
  releasing : List Invocation
  scheduled : Nat
  begun : List (Nat × Bool)
  fired : List (Nat × Bool)

namespace HookExecutor

/-- `_run_lock.acquire()`; nobody is in the line for a free lock. -/
def acquire (s : HookExecutor) (w : LockWaiter) : HookExecutor :=
  { s with
    lock := match s.lock with
      | .free => .handed
      | lock => lock
    line := s.line ++ [w] }

/-- `_run_lock.release()`, which hands the lock to the first in the line. -/
def release (s : HookExecutor) : HookExecutor :=
  { s with
    lock := match s.line with
      | [] => .free
      | _ :: _ => .handed }

/-- A loop that has got an entry of the queue. -/
def got (s : HookExecutor) : QueuedExecution → HookExecutor
  | .stop => { s with atTop := s.atTop + 1 }
  | .hook n => s.acquire (.loop n)

/-- `_executions.put`: a loop that waits gets the entry at once. -/
def put (s : HookExecutor) (x : QueuedExecution) : HookExecutor :=
  match s.getting with
  | 0 => { s with executions := s.executions ++ [x] }
  | getting + 1 => { s with getting := getting }.got x

/-- A loop comes to `while self._running`, and takes the next entry. -/
def turn (s : HookExecutor) : HookExecutor :=
  if s.running then
    match s.executions with
    | [] => { s with getting := s.getting + 1 }
    | x :: executions => { s with executions := executions }.got x
  else s

/-- The first in the line resumes with the lock. -/
def resume (s : HookExecutor) : LockWaiter → HookExecutor
  | .loop n =>
    if s.running then
      { s with
        lock := .held
        executing := s.executing ++ [.hook n]
        begun := s.begun ++ [(n, s.running)] }
    else { s with atTop := s.atTop + 1 }.release
  | .stop => ({ s with running := false }.put .stop).release
  | .priorityHook =>
    -- the assertion fails while the executor is running
    if s.running then s.release
    else { s with lock := .held, executing := s.executing ++ [.priorityHook] }

end HookExecutor

inductive ExecutorEvent where
  /-- `__call__`. -/
  | schedule
  | start
  | stop
  | runPriorityHook
  /-- A loop at its `while` goes on. -/
  | turn
  /-- The holder-to-be of the lock goes on. -/
  | resume
  /-- The hook at `i` of those executing ends, and its deferred is fired. -/
  | hookEnds (i : Nat) (success : Bool)
  | release

/-- One event; `start` and `stop` assert that the executor is stopped, or running. -/
def HookExecutor.step (s : HookExecutor) : ExecutorEvent → Option HookExecutor
  | .schedule => some ({ s with scheduled := s.scheduled + 1 }.put (.hook s.scheduled))
  | .start => if s.running then none else some { s with running := true, atTop := s.atTop + 1 }
  | .stop => if s.running then some (s.acquire .stop) else none
  | .runPriorityHook => some (s.acquire .priorityHook)
  | .turn =>
    match s.atTop with
    | 0 => none
    | atTop + 1 => some { s with atTop := atTop }.turn
  | .resume =>
    match s.lock, s.line with
    | .handed, w :: line => some ({ s with line := line }.resume w)
    | _, _ => none
  | .hookEnds i success =>
    match s.executing[i]? with
    | none => none
    | some x =>
      some { s with
        executing := s.executing.eraseIdx i
        releasing := s.releasing ++ [x]
        fired := match x with
          | .hook n => s.fired ++ [(n, success)]
          | .priorityHook => s.fired }
  | .release =>
    match s.releasing with
    | [] => none
    | .hook _ :: releasing =>
      some { s with releasing := releasing, atTop := s.atTop + 1 }.release
    | .priorityHook :: releasing => some { s with releasing := releasing }.release

/-- A `HookExecutor()`. -/
def freshExecutor : HookExecutor := ⟨false, [], 0, 0, .free, [], [], [], 0, [], []⟩

/-- A loop that comes by the lock with its hook finds the executor running. -/
def LoopFindsRunning (s : HookExecutor) : ExecutorEvent → Prop
  | .resume => ∀ n line, s.line = .loop n :: line → s.running = true
  | _ => True

/-- The scheduled hooks in the queue. -/
def queuedHooks : List QueuedExecution → List Nat :=
  List.filterMap fun x => match x with
    | .hook n => some n
    | .stop => none

/-- The scheduled hooks that loops in the line hold. -/
def heldHooks : List LockWaiter → List Nat :=
  List.filterMap fun w => match w with
    | .loop n => some n
    | _ => none

/-- The scheduled hooks among those under way. -/
def executingHooks : List Invocation → List Nat :=
  List.filterMap fun x => match x with
    | .hook n => some n
    | .priorityHook => none

/-- Hooks run one at a time, in the order of their calls and while the executor is running, and
each is in the queue, held by a loop, or has had its deferred fired once after being run. -/
structure SerialInOrder (s : HookExecutor) : Prop where
  one : s.executing.length ≤ 1
  order : (s.begun.map Prod.fst).Pairwise (· < ·)
  whileRunning : ∀ b ∈ s.begun, b.2 = true
  ran : ∀ f ∈ s.fired, f.1 ∈ s.begun.map Prod.fst
  kept : ∀ n < s.scheduled, (queuedHooks s.executions).count n +
    (heldHooks s.line ++ executingHooks s.executing).count n + (s.fired.map Prod.fst).count n = 1

end Juju.Hooks

import Mathlib.Data.List.Nodup
import Juju.Hooks.HookExecutor

namespace Juju.Hooks
open Juju.Base

namespace HookExecutor

/-- Who waits for what: a loop only for an empty queue, and someone only for a lock that is taken;
who holds the lock runs one hook or has run it. -/
structure LockInv (s : HookExecutor) : Prop where
  getting : s.getting ≠ 0 → s.executions = []
  free : s.lock = .free → s.line = []
  held : s.lock = .held → s.executing.length + s.releasing.length = 1
  notHeld : s.lock ≠ .held → s.executing = [] ∧ s.releasing = []

/-- The hooks called, in their order: those begun, those that loops hold, those in the queue. -/
structure HookOrder (s : HookExecutor) : Prop where
  sequence : s.begun.map Prod.fst ++ heldHooks s.line ++ queuedHooks s.executions =
    List.range s.scheduled
  ends : s.fired.map Prod.fst ++ executingHooks s.executing = s.begun.map Prod.fst
  whileRunning : ∀ b ∈ s.begun, b.2 = true

theorem acquire_lockInv (s : HookExecutor) (w : LockWaiter) (h : LockInv s) :
    LockInv (s.acquire w) := by
  refine ⟨h.getting, ?_, ?_, ?_⟩
  · intro hfree
    simp only [acquire] at hfree
    split at hfree
    · cases hfree
    · rename_i hlock
      exact absurd hfree hlock
  · intro hheld
    simp only [acquire] at hheld
    split at hheld
    · cases hheld
    · exact h.held hheld
  · intro hheld
    apply h.notHeld
    intro hlock
    simp [acquire, hlock] at hheld

/-- A release by whoever has neither a hook nor the end of one to see to. -/
theorem release_lockInv (s : HookExecutor) (hgetting : s.getting ≠ 0 → s.executions = [])
    (hexecuting : s.executing = []) (hreleasing : s.releasing = []) : LockInv s.release := by
  refine ⟨hgetting, ?_, ?_, fun _ => ⟨hexecuting, hreleasing⟩⟩
  · intro hfree
    simp only [release] at hfree
    split at hfree
    · rename_i hline
      exact hline
    · cases hfree
  · intro hheld
    simp only [release] at hheld
    split at hheld <;> cases hheld

theorem got_lockInv (s : HookExecutor) (x : QueuedExecution) (h : LockInv s) : LockInv (s.got x) := by
  cases x with
  | stop => exact ⟨h.getting, h.free, h.held, h.notHeld⟩
  | hook n => exact acquire_lockInv s (.loop n) h

theorem put_lockInv (s : HookExecutor) (x : QueuedExecution) (h : LockInv s) : LockInv (s.put x) := by
  unfold put
  split
  · rename_i hnone
    exact ⟨fun hne => absurd hnone hne, h.free, h.held, h.notHeld⟩
  · rename_i getting hsome
    have hempty := h.getting (by omega)
    exact got_lockInv _ x ⟨fun _ => hempty, h.free, h.held, h.notHeld⟩

theorem turn_lockInv (s : HookExecutor) (h : LockInv s) : LockInv s.turn := by
  unfold turn
  split
  · split
    · rename_i hempty
      exact ⟨fun _ => hempty, h.free, h.held, h.notHeld⟩
    · rename_i x executions hqueue
      have hnone (hne : s.getting ≠ 0) : False := by
        rw [h.getting hne] at hqueue
        cases hqueue
      exact got_lockInv _ x ⟨fun hne => (hnone hne).elim, h.free, h.held, h.notHeld⟩
  · exact h

theorem got_hooks (s : HookExecutor) (x : QueuedExecution) :
    heldHooks (s.got x).line = heldHooks s.line ++ queuedHooks [x] ∧
      (s.got x).executions = s.executions := by
  cases x with
  | stop => exact ⟨(List.append_nil _).symm, rfl⟩
  | hook n => exact ⟨List.filterMap_append, rfl⟩

/-- What is put comes last of what is waiting. -/
theorem put_hooks (s : HookExecutor) (x : QueuedExecution) (h : LockInv s) :
    heldHooks (s.put x).line ++ queuedHooks (s.put x).executions =
      heldHooks s.line ++ queuedHooks s.executions ++ queuedHooks [x] := by
  unfold put
  split
  · rw [List.append_assoc]
    exact congrArg _ List.filterMap_append
  · rename_i getting hsome
    have hempty := h.getting (by omega)
    obtain ⟨hline, hqueue⟩ := got_hooks { s with getting := getting } x
    rw [hline, hqueue]
    simp only [hempty]
    simp [queuedHooks]

/-- A turn of a loop moves a hook from the queue to the end of the line. -/
theorem turn_hooks (s : HookExecutor) :
    heldHooks s.turn.line ++ queuedHooks s.turn.executions =
      heldHooks s.line ++ queuedHooks s.executions := by
  unfold turn
  split
  · split
    · rfl
    · rename_i x executions hqueue
      obtain ⟨hline, hrest⟩ := got_hooks { s with executions := executions } x
      rw [hline, hrest, hqueue, List.append_assoc]
      exact congrArg _ List.filterMap_append.symm
  · rfl

/-- The hooks begun and ended, and those called. -/
structure SameRecord (s s' : HookExecutor) : Prop where
  begun : s'.begun = s.begun
  fired : s'.fired = s.fired
  executing : s'.executing = s.executing
  releasing : s'.releasing = s.releasing
  scheduled : s'.scheduled = s.scheduled

theorem got_record (s : HookExecutor) (x : QueuedExecution) : SameRecord s (s.got x) := by
  cases x <;> exact ⟨rfl, rfl, rfl, rfl, rfl⟩

theorem put_record (s : HookExecutor) (x : QueuedExecution) : SameRecord s (s.put x) := by
  unfold put
  split
  · exact ⟨rfl, rfl, rfl, rfl, rfl⟩
  · have hgot := got_record { s with getting := ‹Nat› } x
    exact ⟨hgot.begun, hgot.fired, hgot.executing, hgot.releasing, hgot.scheduled⟩

theorem turn_record (s : HookExecutor) : SameRecord s s.turn := by
  unfold turn
  split
  · split
    · exact ⟨rfl, rfl, rfl, rfl, rfl⟩
    · have hgot := got_record { s with executions := ‹List QueuedExecution› } ‹QueuedExecution›
      exact ⟨hgot.begun, hgot.fired, hgot.executing, hgot.releasing, hgot.scheduled⟩
  · exact ⟨rfl, rfl, rfl, rfl, rfl⟩

/-- The order stands while hooks only move up in what is waiting. -/
theorem SameRecord.order (s s' : HookExecutor) (h : SameRecord s s') (ho : HookOrder s)
    (hhooks : heldHooks s'.line ++ queuedHooks s'.executions =
      heldHooks s.line ++ queuedHooks s.executions) : HookOrder s' where
  sequence := by
    rw [h.begun, h.scheduled, List.append_assoc, hhooks, ← List.append_assoc, ho.sequence]
  ends := by rw [h.fired, h.executing, h.begun, ho.ends]
  whileRunning := by rw [h.begun]; exact ho.whileRunning

/-- Someone who holds no hook joins the line. -/
theorem acquire_order (s : HookExecutor) (w : LockWaiter) (hw : heldHooks [w] = [])
    (h : HookOrder s) : HookOrder (s.acquire w) := by
  refine SameRecord.order s _ ⟨rfl, rfl, rfl, rfl, rfl⟩ h ?_
  have hline : heldHooks (s.line ++ [w]) = heldHooks s.line ++ heldHooks [w] :=
    List.filterMap_append
  simp [acquire, hline, hw]

/-- A call puts its hook last. -/
theorem schedule_order (s : HookExecutor) (hl : LockInv s) (h : HookOrder s) :
    HookOrder ({ s with scheduled := s.scheduled + 1 }.put (.hook s.scheduled)) := by
  have hrecord := put_record { s with scheduled := s.scheduled + 1 } (.hook s.scheduled)
  have hhooks := put_hooks { s with scheduled := s.scheduled + 1 } (.hook s.scheduled)
    ⟨hl.getting, hl.free, hl.held, hl.notHeld⟩
  refine ⟨?_, ?_, ?_⟩
  · rw [hrecord.begun, hrecord.scheduled, List.append_assoc, hhooks, ← List.append_assoc,
      ← List.append_assoc, h.sequence, List.range_succ]
    rfl
  · rw [hrecord.fired, hrecord.executing, hrecord.begun]
    exact h.ends
  · rw [hrecord.begun]
    exact h.whileRunning

/-- The first in the line has the lock: a loop begins its hook, being the next in order. -/
theorem resume_inv (s : HookExecutor) (w : LockWaiter) (line : List LockWaiter)
    (hl : LockInv s) (ho : HookOrder s) (hlock : s.lock = .handed) (hline : s.line = w :: line)
    (hfine : ∀ n rest, s.line = .loop n :: rest → s.running = true) :
    LockInv ({ s with line := line }.resume w) ∧ HookOrder ({ s with line := line }.resume w) := by
  obtain ⟨hexecuting, hreleasing⟩ := hl.notHeld (by simp [hlock])
  have hsequence := ho.sequence
  rw [hline] at hsequence
  cases w with
  | loop n =>
    have hrun := hfine n line hline
    simp only [resume, hrun, if_true]
    refine ⟨⟨hl.getting, nofun, ?_, nofun⟩, ⟨?_, ?_, ?_⟩⟩
    · simp [hexecuting, hreleasing]
    · rw [← hsequence]
      simp [heldHooks]
    · have hends := ho.ends
      rw [hexecuting] at hends
      simp [hexecuting, ← hends, executingHooks]
    · intro b hb
      rcases List.mem_append.mp hb with hb | hb
      · exact ho.whileRunning b hb
      · rw [List.mem_singleton.mp hb]
  | stop =>
    have hmid : LockInv { s with line := line, running := false } :=
      ⟨hl.getting, fun hfree => by simp [hlock] at hfree, hl.held, hl.notHeld⟩
    have hrecord := put_record { s with line := line, running := false } .stop
    have hhooks := put_hooks _ .stop hmid
    refine ⟨release_lockInv _ (put_lockInv _ .stop hmid).getting (hrecord.executing.trans hexecuting)
      (hrecord.releasing.trans hreleasing), SameRecord.order s _ ⟨hrecord.begun, hrecord.fired,
        hrecord.executing, hrecord.releasing, hrecord.scheduled⟩ ho ?_⟩
    rw [hline]
    exact hhooks.trans (List.append_nil _)
  | priorityHook =>
    have hkept (s' : HookExecutor) (hrecord : SameRecord s s') (hl' : s'.line = line)
        (hq : s'.executions = s.executions) : HookOrder s' := by
      refine SameRecord.order s s' hrecord ho ?_
      rw [hl', hq, hline]
      rfl
    simp only [resume]
    split
    · exact ⟨release_lockInv _ hl.getting hexecuting hreleasing,
        hkept _ ⟨rfl, rfl, rfl, rfl, rfl⟩ rfl rfl⟩
    · refine ⟨⟨hl.getting, nofun, ?_, nofun⟩, ⟨?_, ?_, ho.whileRunning⟩⟩
      · simp [hexecuting, hreleasing]
      · exact hsequence
      · have hends := ho.ends
        rw [hexecuting] at hends
        simpa [hexecuting, executingHooks] using hends

/-- A hook that ends is the only one. -/
theorem executing_single (s : HookExecutor) (hl : LockInv s) (i : Nat) (x : Invocation)
    (hx : s.executing[i]? = some x) :
    i = 0 ∧ s.executing = [x] ∧ s.releasing = [] ∧ s.lock = .held := by
  have hlt : i < s.executing.length := (List.getElem?_eq_some_iff.mp hx).1
  have hheld : s.lock = .held := by
    cases hlock : s.lock with
    | held => rfl
    | free => simp [(hl.notHeld (by simp [hlock])).1] at hlt
    | handed => simp [(hl.notHeld (by simp [hlock])).1] at hlt
  have hsum := hl.held hheld
  obtain ⟨y, hy⟩ := List.length_eq_one_iff.mp (by omega : s.executing.length = 1)
  have hi : i = 0 := by omega
  have hempty : s.releasing = [] := List.length_eq_zero_iff.mp (by omega)
  rw [hy, hi] at hx
  exact ⟨hi, by rw [hy, Option.some.inj hx], hempty, hheld⟩

theorem hookEnds_inv (s s' : HookExecutor) (i : Nat) (success : Bool) (hl : LockInv s)
    (ho : HookOrder s) (hs : s.step (.hookEnds i success) = some s') :
    LockInv s' ∧ HookOrder s' := by
  simp only [step] at hs
  split at hs
  · cases hs
  · rename_i x hx
    obtain rfl := Option.some.inj hs
    obtain ⟨rfl, hexecuting, hreleasing, hheld⟩ := executing_single s hl i x hx
    refine ⟨⟨hl.getting, hl.free, ?_, fun hne => absurd hheld hne⟩, ho.sequence, ?_,
      ho.whileRunning⟩
    · simp [hexecuting, hreleasing]
    · have hends := ho.ends
      rw [hexecuting] at hends
      cases x with
      | hook n => simpa [hexecuting, executingHooks] using hends
      | priorityHook => simpa [hexecuting, executingHooks] using hends

theorem release_inv (s s' : HookExecutor) (hl : LockInv s) (ho : HookOrder s)
    (hs : s.step .release = some s') : LockInv s' ∧ HookOrder s' := by
  have hlast (x : Invocation) (rest : List Invocation) (hx : s.releasing = x :: rest) :
      s.executing = [] ∧ rest = [] := by
    have hheld : s.lock = .held := by
      cases hlock : s.lock with
      | held => rfl
      | free => simp [(hl.notHeld (by simp [hlock])).2] at hx
      | handed => simp [(hl.notHeld (by simp [hlock])).2] at hx
    have hsum := hl.held hheld
    rw [hx, List.length_cons] at hsum
    exact ⟨List.length_eq_zero_iff.mp (by omega), List.length_eq_zero_iff.mp (by omega)⟩
  simp only [step] at hs
  split at hs
  · cases hs
  · rename_i n rest hx
    obtain rfl := Option.some.inj hs
    obtain ⟨hexecuting, hrest⟩ := hlast _ rest hx
    exact ⟨release_lockInv _ hl.getting hexecuting hrest, ho.sequence, ho.ends, ho.whileRunning⟩
  · rename_i rest hx
    obtain rfl := Option.some.inj hs
    obtain ⟨hexecuting, hrest⟩ := hlast _ rest hx
    exact ⟨release_lockInv _ hl.getting hexecuting hrest, ho.sequence, ho.ends, ho.whileRunning⟩

theorem step_inv (s s' : HookExecutor) (e : ExecutorEvent) (h : LockInv s ∧ HookOrder s)
    (hfine : LoopFindsRunning s e) (hs : s.step e = some s') : LockInv s' ∧ HookOrder s' := by
  obtain ⟨hl, ho⟩ := h
  cases e with
  | schedule =>
    obtain rfl := Option.some.inj hs
    exact ⟨put_lockInv _ _ ⟨hl.getting, hl.free, hl.held, hl.notHeld⟩, schedule_order s hl ho⟩
  | start =>
    simp only [step] at hs
    split at hs
    · cases hs
    · obtain rfl := Option.some.inj hs
      exact ⟨⟨hl.getting, hl.free, hl.held, hl.notHeld⟩, ho.sequence, ho.ends, ho.whileRunning⟩
  | stop =>
    simp only [step] at hs
    split at hs
    · obtain rfl := Option.some.inj hs
      exact ⟨acquire_lockInv s .stop hl, acquire_order s .stop rfl ho⟩
    · cases hs
  | runPriorityHook =>
    obtain rfl := Option.some.inj hs
    exact ⟨acquire_lockInv s .priorityHook hl, acquire_order s .priorityHook rfl ho⟩
  | turn =>
    simp only [step] at hs
    split at hs
    · cases hs
    · obtain rfl := Option.some.inj hs
      rename_i atTop _
      exact ⟨turn_lockInv _ ⟨hl.getting, hl.free, hl.held, hl.notHeld⟩,
        SameRecord.order { s with atTop := atTop } _ (turn_record _)
          ⟨ho.sequence, ho.ends, ho.whileRunning⟩ (turn_hooks _)⟩
  | resume =>
    simp only [step] at hs
    split at hs
    · rename_i w line hlock hline
      obtain rfl := Option.some.inj hs
      exact resume_inv s w line hl ho hlock hline hfine
    · cases hs
  | hookEnds i success => exact hookEnds_inv s s' i success hl ho hs
  | release => exact release_inv s s' hl ho hs

/-- Reading the order off: each number called is in one place. -/
theorem order_serial (s : HookExecutor) (hl : LockInv s) (ho : HookOrder s) :
    SerialInOrder s := by
  refine ⟨?_, ?_, ho.whileRunning, ?_, ?_⟩
  · by_cases hheld : s.lock = .held
    · have hsum := hl.held hheld
      omega
    · simp [(hl.notHeld hheld).1]
  · have hrange : (List.range s.scheduled).Pairwise (· < ·) := List.pairwise_lt_range
    rw [← ho.sequence, List.append_assoc] at hrange
    exact (List.pairwise_append.mp hrange).1
  · intro f hf
    rw [← ho.ends]
    exact List.mem_append_left _ (List.mem_map_of_mem hf)
  · intro n hn
    have hcount : (List.range s.scheduled).count n = 1 :=
      List.count_eq_one_of_mem List.nodup_range (List.mem_range.mpr hn)
    rw [← ho.sequence, ← ho.ends] at hcount
    simp only [List.count_append] at hcount ⊢
    omega

end HookExecutor

/-- In a run where every loop that comes by the lock finds the executor running, hooks run
serially, in order and without loss. -/
theorem executor_serial (s : HookExecutor)
    (h : Reachable (· = freshExecutor) HookExecutor.step LoopFindsRunning s) :
    SerialInOrder s := by
  have hinv := reachable_invariant (fun s => s.LockInv ∧ s.HookOrder)
    (by
      rintro s rfl
      exact ⟨⟨fun _ => rfl, fun _ => rfl, nofun, fun _ => ⟨rfl, rfl⟩⟩, rfl, rfl, nofun⟩)
    (fun s s' e hi hf hs => HookExecutor.step_inv s s' e hi hf hs) s h
  exact HookExecutor.order_serial s hinv.1 hinv.2

theorem executor_serial_failed :
    ∃ s, Reachable (· = freshExecutor) HookExecutor.step LoopFindsRunning s ∧
      s.fired = [(0, false)] ∧ s.begun = [(0, true)] ∧ SerialInOrder s := by
  have hcalled : Reachable (· = freshExecutor) HookExecutor.step LoopFindsRunning _ :=
    .step freshExecutor _ .schedule (.init _ rfl) trivial rfl
  have hstarted := Reachable.step _ _ ExecutorEvent.start hcalled trivial rfl
  have htaken := Reachable.step _ _ ExecutorEvent.turn hstarted trivial rfl
  have hbegun := Reachable.step _ _ ExecutorEvent.resume htaken (fun _ _ _ => rfl) rfl
  have hended := Reachable.step _ _ (ExecutorEvent.hookEnds 0 false) hbegun trivial rfl
  exact ⟨_, hended, rfl, rfl, executor_serial _ hended⟩

/-- A start during a priority hook and a stop that waits for it: the loop takes the hook called
next, comes by the lock behind the stop, and drops it. -/
theorem scheduled_hook_dropped :
    ∃ s, Reachable (· = freshExecutor) HookExecutor.step (fun _ _ => True) s ∧
      s.scheduled = 1 ∧ s.executions = [.stop] ∧ s.line = [] ∧ s.executing = [] ∧
      s.fired = [] ∧ ¬ SerialInOrder s := by
  have hrun : Reachable (· = freshExecutor) HookExecutor.step (fun _ _ => True) _ :=
    reachable_stepAll (fun _ _ => trivial)
      [.runPriorityHook, .resume, .start, .turn, .stop, .schedule, .hookEnds 0 true, .release,
        .resume, .resume]
      freshExecutor _ (.init _ rfl) rfl
  exact ⟨_, hrun, rfl, rfl, rfl, rfl, rfl, fun h => absurd (h.kept 0 (by decide)) (by decide)⟩

end Juju.Hooks

import Juju.Hooks.SchedulerLoops

namespace Juju.Hooks
open Juju.Base

variable {U : Type} [DecidableEq U]

section serials

variable (pending : List (Change U)) (serials : List Nat) (change : Change U) (offset fresh : Nat)

/-- The numbers go with the changes. -/
theorem queueSerials_length (result : List (Change U)) (saved : Bool)
    (hlen : serials.length = pending.length)
    (h : queueChange pending change offset = .ok (result, saved)) :
    (queueSerials pending serials change offset fresh).length = result.length := by
  unfold queueChange at h
  unfold queueSerials
  cases hprev : previous change.unitName (pending.drop offset) with
  | none =>
    simp only [hprev, Except.ok.injEq, Prod.mk.injEq] at h
    simp [← h.1, hlen]
  | some found =>
    obtain ⟨previousIdx, prev⟩ := found
    simp only [hprev] at h ⊢
    cases hreduce : reduce (previousIdx, prev.changeType) (-1, change.changeType) with
    | none => simp [hreduce] at h
    | some reduced =>
      obtain ⟨changeIdx, changeType⟩ := reduced
      simp only [hreduce] at h ⊢
      by_cases hkeep : changeIdx = some (previousIdx : Int)
      · simp only [if_pos hkeep, Except.ok.injEq, Prod.mk.injEq] at h ⊢
        rw [← h.1, hlen]
      · simp only [if_neg hkeep] at h ⊢
        cases changeType with
        | some t =>
          simp only [Except.ok.injEq, Prod.mk.injEq] at h
          simp [← h.1, List.length_eraseIdx, hlen]
        | none =>
          simp only at h
          split at h
          · simp only [Except.ok.injEq, Prod.mk.injEq] at h
            have htake : (pending.take offset).length + (pending.drop offset).length =
                pending.length := by
              rw [← List.length_append, List.take_append_drop]
            rw [← h.1, List.length_eraseIdx, List.length_eraseIdx, List.length_append,
              wipeMember_length, htake, hlen]
          · simp at h

theorem queueSerials_subset (n : Nat)
    (h : n ∈ queueSerials pending serials change offset fresh) : n ∈ serials ∨ n = fresh := by
  have herase (i : Nat) (hn : n ∈ serials.eraseIdx i) : n ∈ serials :=
    (List.eraseIdx_sublist serials i).subset hn
  unfold queueSerials at h
  split at h
  · simpa using h
  · split at h
    · exact Or.inl h
    · split at h
      · exact Or.inl h
      · split at h
        · rcases List.mem_append.mp h with h | h
          · exact Or.inl (herase _ h)
          · exact Or.inr (List.mem_singleton.mp h)
        · exact Or.inl (herase _ h)

theorem queueSerials_nodup (hnodup : serials.Nodup) (hfresh : fresh ∉ serials) :
    (queueSerials pending serials change offset fresh).Nodup := by
  have happend (l : List Nat) (hl : l.Sublist serials) : (l ++ [fresh]).Nodup := by
    refine List.nodup_append.mpr ⟨hnodup.sublist hl, by simp, ?_⟩
    intro a ha b hb he
    rw [he, List.mem_singleton.mp hb] at ha
    exact hfresh (hl.subset ha)
  unfold queueSerials
  split
  · exact happend serials (List.Sublist.refl _)
  · split
    · exact hnodup
    · split
      · exact hnodup
      · split
        · exact happend _ (List.eraseIdx_sublist serials _)
        · exact hnodup.sublist (List.eraseIdx_sublist serials _)

/-- A merge that keeps the head keeps its number first. -/
theorem queueSerials_head (n : Nat) (h : KeepsHead pending change offset)
    (hhead : serials.head? = some n) :
    (queueSerials pending serials change offset fresh).head? = some n := by
  obtain ⟨rest, rfl⟩ := List.head?_eq_some_iff.mp hhead
  unfold KeepsHead at h
  unfold queueSerials
  cases hprev : previous change.unitName (pending.drop offset) with
  | none => simp
  | some found =>
    obtain ⟨previousIdx, prev⟩ := found
    rw [hprev] at h
    have hneg (i : Nat) : ¬ (-1 : Int) = (i : Int) := by omega
    cases previousIdx with
    | succ i =>
      simp only
      split
      · rfl
      · split
        · rfl
        · split <;> simp
    | zero =>
      have hkeep := h rfl
      simp only
      generalize prev.changeType = previousType at hkeep
      generalize change.changeType = newType at hkeep
      cases previousType <;> cases newType <;> simp_all [prescribed, reduce]

/-- The change that follows a joined hook is kept in the entry that it meets. -/
theorem keepsHead_modified (u : U) (members : List U) :
    KeepsHead pending ⟨u, .modified, members⟩ offset := by
  unfold KeepsHead
  split
  · trivial
  · rename_i prev _
    intro _
    simp only
    generalize prev.changeType = previousType
    cases previousType <;> decide

end serials

/-- The changes are numbered apart, and those that have succeeded are off the queue. -/
structure Numbered (s : SchedulerLoops U) : Prop where
  length : s.serials.length = s.pending.length
  nodup : s.serials.Nodup
  below : ∀ n ∈ s.serials, n < s.nextSerial
  done : ∀ f ∈ s.finished, f.2 = some f.1 ∧ f.1 ∉ s.serials ∧ f.1 < s.nextSerial

/-- What the loops keep: one of them waits on an empty queue, or one executes its head. -/
structure LoopInv (s : SchedulerLoops U) : Prop extends Numbered s where
  waits : s.waiting ≠ 0 →
    s.waiting = 1 ∧ s.running = true ∧ s.pending = [] ∧ s.executing = []
  head : s.executing = [] ∨ ∃ x, s.executing = [x] ∧ s.serials.head? = some x.serial

namespace SchedulerLoops

omit [DecidableEq U] in
theorem executeHead_inv (s : SchedulerLoops U) (h : Numbered s) (hwait : s.waiting = 0)
    (hnone : s.executing = []) : LoopInv s.executeHead := by
  unfold executeHead
  split
  · rename_i change _ serial _ _ hserials
    refine ⟨⟨h.length, h.nodup, h.below, h.done⟩, fun hw => absurd hwait hw,
      Or.inr ⟨⟨serial, change⟩, ?_, ?_⟩⟩
    · simp only [hnone, List.nil_append]
    · simp only [hserials, List.head?_cons]
  · exact ⟨h, fun hw => absurd hwait hw, Or.inl hnone⟩

omit [DecidableEq U] in
theorem turn_inv (s : SchedulerLoops U) (h : Numbered s) (hwait : s.waiting = 0)
    (hnone : s.executing = []) : LoopInv s.turn := by
  unfold turn
  split
  · rename_i hrun
    split
    · exact executeHead_inv s h hwait hnone
    · rename_i hempty
      rw [if_pos (by omega)]
      exact ⟨⟨h.length, h.nodup, h.below, h.done⟩,
        fun _ => ⟨by simp [hwait], hrun, hempty, hnone⟩, Or.inl hnone⟩
  · exact ⟨h, fun hw => absurd hwait hw, Or.inl hnone⟩

/-- A queueing keeps the numbers apart. -/
theorem queued_numbered (s : SchedulerLoops U) (change : Change U) (offset : Nat)
    (pending : List (Change U)) (saved : Bool) (h : Numbered s)
    (hqueue : queueChange s.pending change offset = .ok (pending, saved)) :
    Numbered { s with
      pending := pending
      serials := queueSerials s.pending s.serials change offset s.nextSerial
      nextSerial := s.nextSerial + 1 } where
  length := queueSerials_length _ _ _ _ _ _ _ h.length hqueue
  nodup := queueSerials_nodup _ _ _ _ _ h.nodup fun hn => Nat.lt_irrefl _ (h.below _ hn)
  below n hn := by
    rcases queueSerials_subset _ _ _ _ _ n hn with hn | rfl
    · exact Nat.lt_succ_of_lt (h.below n hn)
    · exact Nat.lt_succ_self _
  done f hf := by
    obtain ⟨hremoved, hoff, hlt⟩ := h.done f hf
    refine ⟨hremoved, fun hn => ?_, Nat.lt_succ_of_lt hlt⟩
    rcases queueSerials_subset _ _ _ _ _ _ hn with hn | hn
    · exact hoff hn
    · omega

theorem put_inv (s : SchedulerLoops U) (change : Change U) (offset : Nat) (h : LoopInv s)
    (hkeep : s.executing ≠ [] → KeepsHead s.pending change offset) :
    LoopInv (s.put change offset) := by
  unfold put
  generalize hoff : (if s.waiting ≠ 0 then 0 else offset) = offset'
  simp only
  split
  · exact h
  · rename_i pending saved hqueue
    have hnum := queued_numbered s change offset' pending saved h.toNumbered hqueue
    by_cases hwait : s.waiting = 0
    · rw [if_neg (by simp [hwait])]
      refine ⟨hnum, fun hw => absurd hwait hw, ?_⟩
      rcases h.head with hnone | ⟨x, hx, hhead⟩
      · exact Or.inl hnone
      · rw [if_neg (by simp [hwait])] at hoff
        subst hoff
        exact Or.inr ⟨x, hx, queueSerials_head _ _ _ _ _ _ (hkeep (by simp [hx])) hhead⟩
    · obtain ⟨hone, hrun, -, hnone⟩ := h.waits hwait
      by_cases hempty : pending = []
      · rw [if_neg (by simp [hempty])]
        exact ⟨hnum, fun _ => ⟨hone, hrun, hempty, hnone⟩, Or.inl hnone⟩
      · rw [if_pos ⟨hwait, hempty⟩]
        exact executeHead_inv _ ⟨hnum.length, hnum.nodup, hnum.below, hnum.done⟩
          (by simp [hone]) hnone

/-- With no loop that waits, a put that keeps the head changes the queue behind it only. -/
theorem put_head (s : SchedulerLoops U) (change : Change U) (offset n : Nat)
    (hwait : s.waiting = 0) (hkeep : KeepsHead s.pending change offset)
    (hhead : s.serials.head? = some n) :
    (s.put change offset).serials.head? = some n ∧
      (s.put change offset).executing = s.executing ∧ (s.put change offset).waiting = 0 := by
  unfold put
  rw [if_neg (by simp [hwait])]
  simp only
  split
  · exact ⟨hhead, rfl, hwait⟩
  · rw [if_neg (by simp [hwait])]
    exact ⟨queueSerials_head _ _ _ _ _ _ hkeep hhead, rfl, hwait⟩

omit [DecidableEq U] in
theorem finishedChange_numbered (s : SchedulerLoops U) (serial : Nat) (h : Numbered s)
    (hhead : s.serials.head? = some serial) : Numbered (s.finishedChange serial) := by
  obtain ⟨rest, hserials⟩ := List.head?_eq_some_iff.mp hhead
  have hnodup := h.nodup
  rw [hserials, List.nodup_cons] at hnodup
  have htail (n : Nat) (hn : n ∈ s.serials.tail) : n ∈ s.serials := List.mem_of_mem_tail hn
  refine ⟨?_, h.nodup.sublist (List.tail_sublist _), fun n hn => h.below n (htail n hn), ?_⟩
  · simp [finishedChange, h.length]
  · intro f hf
    rcases List.mem_append.mp hf with hf | hf
    · obtain ⟨hremoved, hoff, hlt⟩ := h.done f hf
      exact ⟨hremoved, fun hn => hoff (htail _ hn), hlt⟩
    · rw [List.mem_singleton.mp hf]
      refine ⟨hhead, ?_, h.below serial (by simp [hserials])⟩
      simp [finishedChange, hserials, hnodup.1]

theorem hookEnds_inv (s s' : SchedulerLoops U) (hook : Nat) (success : Bool) (members : List U)
    (h : LoopInv s) (hs : s.step (.hookEnds hook success members) = some s') : LoopInv s' := by
  simp only [step] at hs
  split at hs
  · cases hs
  · rename_i x hx
    obtain rfl := Option.some.inj hs
    obtain ⟨y, hy, hhead⟩ := h.head.resolve_left fun hnone => by simp [hnone] at hx
    obtain ⟨rfl, rfl⟩ : hook = 0 ∧ y = x := by
      rw [hy, List.getElem?_singleton] at hx
      split at hx
      · exact ⟨‹_›, Option.some.inj hx⟩
      · cases hx
    have hwait : s.waiting = 0 := by
      by_contra hw
      simp [(h.waits hw).2.2.2] at hy
    simp only [hy, List.eraseIdx_cons_zero]
    -- the hook has ended, and its loop has put its own change
    generalize hended : (if y.change.changeType = .joined then _ else _) = t
    have ht : LoopInv t ∧ t.serials.head? = some y.serial ∧ t.executing = [] ∧
        t.waiting = 0 := by
      have hinv : LoopInv { s with executing := [] } :=
        ⟨⟨h.length, h.nodup, h.below, h.done⟩, fun hw => absurd hwait hw, Or.inl rfl⟩
      rw [← hended]
      split
      · have hkeep := keepsHead_modified s.pending 1 y.change.unitName members
        exact ⟨put_inv _ _ _ hinv fun hne => absurd rfl hne,
          put_head { s with executing := [] } _ _ _ hwait hkeep hhead⟩
      · exact ⟨hinv, hhead, rfl, hwait⟩
    obtain ⟨hinv, hfirst, hnone, hwaits⟩ := ht
    cases success with
    | true => exact turn_inv _ (finishedChange_numbered t _ hinv.toNumbered hfirst) hwaits hnone
    | false =>
      exact ⟨⟨hinv.length, hinv.nodup, hinv.below, hinv.done⟩, fun hw => absurd hwaits hw,
        Or.inl hnone⟩

theorem step_inv (s s' : SchedulerLoops U) (e : LoopEvent U) (h : LoopInv s) (hfine : Orderly s e)
    (hs : s.step e = some s') : LoopInv s' := by
  cases e with
  | run =>
    simp only [step] at hs
    split at hs
    · cases hs
    · rename_i hrun
      obtain rfl := Option.some.inj hs
      have hwait : s.waiting = 0 := by
        by_contra hw
        exact hrun (h.waits hw).2.1
      exact turn_inv _ ⟨h.length, h.nodup, h.below, h.done⟩ hwait hfine
  | stop =>
    obtain rfl := Option.some.inj hs
    split
    · refine ⟨⟨h.length, h.nodup, h.below, h.done⟩, fun hw => ?_, h.head⟩
      have hone : s.waiting = 1 := (h.waits (by simp only at hw; omega)).1
      simp [hone] at hw
    · exact h
  | put change =>
    obtain rfl := Option.some.inj hs
    exact put_inv s change _ h hfine
  | hookEnds hook success members => exact hookEnds_inv s s' hook success members h hs

omit [DecidableEq U] in
theorem unstarted_inv (s : SchedulerLoops U) (h : Unstarted s) : LoopInv s where
  length := by simp [h.serials]
  nodup := by simp [h.serials, List.nodup_range]
  below n hn := by simpa [h.serials, h.nextSerial] using hn
  done f hf := by simp [h.finished] at hf
  waits hw := absurd h.waiting hw
  head := Or.inl h.executing

end SchedulerLoops

/-- In a run where no loop is started over another's hook, and no change that comes during a
hook takes the head off the queue, there is one loop. -/
theorem one_loop (s : SchedulerLoops U)
    (h : Reachable SchedulerLoops.Unstarted SchedulerLoops.step Orderly s) : OneLoop s := by
  have hinv := reachable_invariant LoopInv SchedulerLoops.unstarted_inv
    (fun s s' e hi hf hs => SchedulerLoops.step_inv s s' e hi hf hs) s h
  constructor
  · rcases hinv.head with hnone | ⟨x, hx, -⟩
    · simp [hnone]
    · simp [hx]
  · exact fun f hf => (hinv.done f hf).1
  · intro f hf x hx heq
    rcases hinv.head with hnone | ⟨y, hy, hhead⟩
    · simp [hnone] at hx
    · rw [hy, List.mem_singleton] at hx
      subst hx
      exact (hinv.done f hf).2.1 (heq ▸ List.mem_of_mem_head? hhead)

/-- A scheduler that has the joined change of a unit in its queue. -/
def joinedQueued : SchedulerLoops Nat where
  running := false
  pending := [⟨1, .joined, [1]⟩]
  serials := [0]
  nextSerial := 1
  waiting := 0
  executing := []
  finished := []

theorem joinedQueued_unstarted : joinedQueued.Unstarted := ⟨rfl, rfl, rfl, rfl, rfl, rfl⟩

theorem one_loop_departed :
    ∃ s, Reachable SchedulerLoops.Unstarted SchedulerLoops.step Orderly s ∧
      s.finished = [((0 : Nat), some 0)] ∧ s.executing.length = 1 ∧ OneLoop (U := Nat) s := by
  have hrun : Reachable SchedulerLoops.Unstarted SchedulerLoops.step Orderly _ :=
    .step joinedQueued _ .run (.init _ joinedQueued_unstarted) rfl rfl
  have hput := Reachable.step _ _ (LoopEvent.put ⟨(2 : Nat), .joined, [1, 2]⟩) hrun
    (fun _ => trivial) rfl
  have hends := Reachable.step _ _ (LoopEvent.hookEnds 0 true [(1 : Nat), 2]) hput trivial rfl
  exact ⟨_, hends, rfl, rfl, one_loop _ hends⟩

/-- A restart within a hook has the same change executed twice, and the second success takes
off nothing that its hook was about. -/
theorem restart_executes_twice :
    ∃ s t : SchedulerLoops Nat,
      Reachable SchedulerLoops.Unstarted SchedulerLoops.step (fun _ _ => True) s ∧
      s.executing = [⟨0, ⟨1, .joined, [1]⟩⟩, ⟨0, ⟨1, .joined, [1]⟩⟩] ∧ ¬ OneLoop s ∧
      Reachable SchedulerLoops.Unstarted SchedulerLoops.step (fun _ _ => True) t ∧
      t.finished = [(0, some 0), (0, some 1)] ∧ ¬ OneLoop t := by
  have hrun : Reachable SchedulerLoops.Unstarted SchedulerLoops.step (fun _ _ => True) _ :=
    .step joinedQueued _ .run (.init _ joinedQueued_unstarted) trivial rfl
  have hstop := Reachable.step _ _ .stop hrun trivial rfl
  have hagain := Reachable.step _ _ .run hstop trivial rfl
  have hfirst := Reachable.step _ _ (.hookEnds 0 true [1]) hagain trivial rfl
  have hsecond := Reachable.step _ _ (.hookEnds 0 true [1]) hfirst trivial rfl
  exact ⟨_, _, hagain, rfl, fun h => absurd h.one (by decide), hsecond, rfl,
    fun h => absurd (h.removes (0, some 1) (by decide)) (by decide)⟩

end Juju.Hooks

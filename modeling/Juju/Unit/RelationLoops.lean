import Mathlib.Data.List.Perm.Basic
import Mathlib.Data.List.Perm.Subperm
import Mathlib.Data.List.Nodup
import Juju.Unit.RelationInStep

namespace Juju.Unit
open Juju.Base Juju.Lib
open scoped List

def WorkflowTask.errorLoop {C : Type} : WorkflowTask C → Option Nat
  | .error loop => some loop
  | _ => none

def RunTask.hookLoop {C : Type} : RunTask C → Option Nat
  | .hook loop => some loop
  | _ => none

/-- The loops whose error handlers have, or wait for, the workflow lock. -/
def errorLoops {C : Type} : List (WorkflowTask C) → List Nat :=
  List.filterMap WorkflowTask.errorLoop

/-- The loops whose hooks have, or wait for, the run lock. -/
def hookLoops {C : Type} : List (RunTask C) → List Nat :=
  List.filterMap RunTask.hookLoop

def RunTask.isWorkflow {C : Type} : RunTask C → Bool
  | .workflow => true
  | _ => false

/-- From within the run lock or from without, the run lock is acquired and released in turn, and
released in the end. -/
def Alternates : Bool → List WorkflowOp → Bool
  | within, [] => !within
  | within, .acquireRun :: ops => !within && Alternates true ops
  | within, .releaseRun :: ops => within && Alternates false ops
  | within, _ :: ops => Alternates within ops

namespace RelationTasks

variable {C : Type}

def allLoops (s : RelationTasks C) : List Nat :=
  s.loops ++ s.failing ++ hookLoops s.runLock ++ errorLoops s.workflowLock

/-- Every loop is in one place. -/
structure Numbered (s : RelationTasks C) : Prop where
  nodup : s.allLoops.Nodup
  below : ∀ loop ∈ s.allLoops, loop < s.nextLoop

theorem takeWorkflow_frame (s : RelationTasks C) (line : List (WorkflowTask C)) :
    (s.takeWorkflow line).workflowLock <:+ line ∧ (s.takeWorkflow line).runLock = s.runLock ∧
      (s.takeWorkflow line).departing = s.departing ∧ (s.takeWorkflow line).loops = s.loops ∧
      (s.takeWorkflow line).failing = s.failing ∧
      (s.takeWorkflow line).nextLoop = s.nextLoop := by
  induction line with
  | nil => exact ⟨List.suffix_rfl, rfl, rfl, rfl, rfl, rfl⟩
  | cons task line ih =>
    unfold takeWorkflow
    split
    · exact ⟨ih.1.trans (List.suffix_cons task line), ih.2⟩
    · exact ⟨List.suffix_rfl, rfl, rfl, rfl, rfl, rfl⟩

theorem acquireWorkflow_frame (s : RelationTasks C) (task : WorkflowTask C) :
    (s.acquireWorkflow task).workflowLock <+ s.workflowLock ++ [task] ∧
      (s.acquireWorkflow task).runLock = s.runLock ∧
      (s.acquireWorkflow task).departing = s.departing ∧
      (s.acquireWorkflow task).loops = s.loops ∧ (s.acquireWorkflow task).failing = s.failing ∧
      (s.acquireWorkflow task).nextLoop = s.nextLoop := by
  unfold acquireWorkflow
  split
  · rename_i hfree
    obtain ⟨hline, hrest⟩ := takeWorkflow_frame s [task]
    rw [hfree]
    exact ⟨hline.sublist, hrest⟩
  · exact ⟨List.Sublist.refl _, rfl, rfl, rfl, rfl, rfl⟩

theorem releaseWorkflow_frame (s : RelationTasks C) (line : List (WorkflowTask C))
    (task : WorkflowTask C) :
    (s.releaseWorkflow line task).workflowLock <:+ line ∧
      (s.releaseWorkflow line task).ops = (s.takeWorkflow line).ops ∧
      (s.releaseWorkflow line task).runLock = s.runLock ∧
      (s.releaseWorkflow line task).departing = s.departing ∧
      (s.releaseWorkflow line task).loops = s.loops ∧
      (s.releaseWorkflow line task).failing = s.failing ∧
      (s.releaseWorkflow line task).nextLoop = s.nextLoop := by
  obtain ⟨hline, hrun, hdeparting, hloops, hfailing, hnext⟩ := takeWorkflow_frame s line
  cases task <;> exact ⟨hline, rfl, hrun, hdeparting, hloops, hfailing, hnext⟩

theorem moved_perm {α : Type} (l : List α) (i : Nat) (a : α) (h : l[i]? = some a) :
    (a :: l.eraseIdx i).Perm l := by
  obtain ⟨hi, rfl⟩ := List.getElem?_eq_some_iff.mp h
  exact List.getElem_cons_eraseIdx_perm hi

theorem errorLoops_append (l₁ l₂ : List (WorkflowTask C)) :
    errorLoops (l₁ ++ l₂) = errorLoops l₁ ++ errorLoops l₂ := List.filterMap_append

theorem hookLoops_append (l₁ l₂ : List (RunTask C)) :
    hookLoops (l₁ ++ l₂) = hookLoops l₁ ++ hookLoops l₂ := List.filterMap_append

theorem errorLoops_error (loop : Nat) :
    errorLoops ([.error loop] : List (WorkflowTask C)) = [loop] := rfl

theorem hookLoops_hook (loop : Nat) : hookLoops ([.hook loop] : List (RunTask C)) = [loop] := rfl

/-- A step that starts no loop leaves each loop in one place or ends it. -/
theorem acquireWorkflow_loops (s : RelationTasks C) (task : WorkflowTask C) :
    (s.acquireWorkflow task).allLoops <+~ s.allLoops ++ errorLoops [task] := by
  obtain ⟨hline, hrun, -, hloops, hfailing, -⟩ := acquireWorkflow_frame s task
  unfold allLoops
  rw [hrun, hloops, hfailing, List.append_assoc _ (errorLoops s.workflowLock),
    ← errorLoops_append]
  exact ((List.Sublist.refl _).append (hline.filterMap _)).subperm

theorem perform_allLoops (s : RelationTasks C) (op : WorkflowOp) (ops : List WorkflowOp)
    (hops : s.ops = op :: ops) :
    (({ s with ops := ops }.perform op).allLoops <+~ s.allLoops ∧
        ({ s with ops := ops }.perform op).nextLoop = s.nextLoop) ∨
      ((∃ ops, s.ops = .runScheduler :: ops) ∧ s.side.executing = false ∧
        (s.nextLoop :: s.allLoops).Perm ({ s with ops := ops }.perform op).allLoops ∧
        ({ s with ops := ops }.perform op).nextLoop = s.nextLoop + 1) := by
  cases op with
  | acquireRun =>
    refine Or.inl ⟨?_, rfl⟩
    have hnone : hookLoops ([.workflow] : List (RunTask C)) = [] := rfl
    simp only [perform, allLoops, hookLoops_append, hnone, List.append_nil]
    exact List.Subperm.refl _
  | releaseRun =>
    refine Or.inl ⟨?_, rfl⟩
    have htail := (List.tail_sublist s.runLock).filterMap RunTask.hookLoop
    exact (((List.Sublist.refl _).append htail).append (List.Sublist.refl _)).subperm
  | runScheduler =>
    simp only [perform]
    split
    · exact Or.inl ⟨List.Subperm.refl _, rfl⟩
    · rename_i hstopped
      refine Or.inr ⟨⟨ops, hops⟩, Bool.eq_false_iff.mpr hstopped, ?_, rfl⟩
      apply List.perm_iff_count.mpr
      intro k
      simp only [allLoops, List.count_append, List.count_cons, List.count_nil]
      omega
  | _ => exact Or.inl ⟨List.Subperm.refl _, rfl⟩

/-- The loops after one step. -/
theorem step_allLoops (s s' : RelationTasks C) (e : RelationEvent C) (hs : s.step e = some s') :
    (s'.allLoops <+~ s.allLoops ∧ s'.nextLoop = s.nextLoop) ∨
      ((∃ ops, s.ops = .runScheduler :: ops) ∧ s.side.executing = false ∧
        (s.nextLoop :: s.allLoops).Perm s'.allLoops ∧ s'.nextLoop = s.nextLoop + 1) := by
  have hacquire (task : WorkflowTask C) (hnone : errorLoops [task] = []) :
      (s.acquireWorkflow task).allLoops <+~ s.allLoops ∧
        (s.acquireWorkflow task).nextLoop = s.nextLoop := by
    have hloops := acquireWorkflow_loops s task
    rw [hnone, List.append_nil] at hloops
    exact ⟨hloops, (acquireWorkflow_frame s task).2.2.2.2.2⟩
  cases e with
  | resolved caller =>
    obtain rfl := Option.some.inj hs
    exact Or.inl (hacquire _ rfl)
  | stop caller =>
    obtain rfl := Option.some.inj hs
    exact Or.inl (hacquire _ rfl)
  | restart caller =>
    obtain rfl := Option.some.inj hs
    exact Or.inl (hacquire _ rfl)
  | depart caller =>
    obtain rfl := Option.some.inj hs
    refine Or.inl ⟨?_, rfl⟩
    have hnone : hookLoops [.departure caller] = [] := rfl
    simp only [allLoops, hookLoops_append, hnone, List.append_nil]
    exact List.Subperm.refl _
  | goOn =>
    simp only [step] at hs
    split at hs
    · cases hs
    · split at hs
      · cases hs
      · rename_i task line hline hops
        obtain rfl := Option.some.inj hs
        obtain ⟨hsuffix, -, hrun, -, hloops, hfailing, hnext⟩ :=
          releaseWorkflow_frame s line task
        refine Or.inl ⟨?_, hnext⟩
        unfold allLoops
        rw [hrun, hloops, hfailing, hline]
        have hrest := (hsuffix.trans (List.suffix_cons task line)).sublist
        exact ((List.Sublist.refl _).append (hrest.filterMap _)).subperm
      · cases hs
      · rename_i hops _
        obtain rfl := Option.some.inj hs
        exact perform_allLoops s _ _ hops
  | departureStops =>
    simp only [step] at hs
    split at hs
    · rename_i hrun
      obtain rfl := Option.some.inj hs
      refine Or.inl ⟨?_, rfl⟩
      simp only [allLoops, hrun]
      exact List.Subperm.refl _
    · cases hs
  | departureGoesOn i =>
    simp only [step] at hs
    split at hs
    · cases hs
    · obtain rfl := Option.some.inj hs
      have hloops := acquireWorkflow_loops { s with departing := s.departing.eraseIdx i }
        (.depart ‹C›)
      rw [show errorLoops [.depart _] = [] from rfl, List.append_nil] at hloops
      exact Or.inl ⟨hloops, (acquireWorkflow_frame _ _).2.2.2.2.2⟩
  | change i =>
    simp only [step] at hs
    split at hs
    · cases hs
    · rename_i loop hloop
      obtain rfl := Option.some.inj hs
      refine Or.inl ⟨?_, rfl⟩
      have hmoved := moved_perm _ _ _ hloop
      refine (List.perm_iff_count.mpr fun k => ?_).subperm
      have hcount := hmoved.count_eq k
      simp only [allLoops, hookLoops_append, hookLoops_hook, List.count_append, List.count_cons,
        List.count_nil] at hcount ⊢
      omega
  | loopEnds i =>
    simp only [step] at hs
    split at hs
    · obtain rfl := Option.some.inj hs
      refine Or.inl ⟨?_, rfl⟩
      have herased := List.eraseIdx_sublist s.loops i
      exact (((herased.append (List.Sublist.refl _)).append (List.Sublist.refl _)).append
        (List.Sublist.refl _)).subperm
    · cases hs
  | hookEnds success =>
    simp only [step] at hs
    split at hs
    · rename_i loop line hrun
      obtain rfl := Option.some.inj hs
      have hmoved (k : Nat) : (hookLoops s.runLock).count k =
          (hookLoops line).count k + if loop == k then 1 else 0 := by
        rw [hrun]
        exact List.count_cons
      refine Or.inl ⟨(List.perm_iff_count.mpr fun k => ?_).subperm, ?_⟩
      · have hcount := hmoved k
        split <;> simp only [allLoops, List.count_append, List.count_cons, List.count_nil] <;> omega
      · split <;> rfl
    · obtain rfl := Option.some.inj hs
      exact Or.inl ⟨List.Subperm.refl _, rfl⟩
    · cases hs
  | errorReported i =>
    simp only [step] at hs
    split at hs
    · cases hs
    · rename_i loop hloop
      obtain rfl := Option.some.inj hs
      have hmoved := moved_perm _ _ _ hloop
      split
      · refine Or.inl ⟨(acquireWorkflow_loops _ _).trans
          (List.perm_iff_count.mpr fun k => ?_).subperm, (acquireWorkflow_frame _ _).2.2.2.2.2⟩
        have hcount := hmoved.count_eq k
        simp only [allLoops, errorLoops_error, List.count_append, List.count_cons,
          List.count_nil] at hcount ⊢
        omega
      · refine Or.inl ⟨?_, rfl⟩
        have herased := List.eraseIdx_sublist s.failing i
        exact ((((List.Sublist.refl _).append herased).append (List.Sublist.refl _)).append
          (List.Sublist.refl _)).subperm

theorem alternates_append (within : Bool) (ops rest : List WorkflowOp)
    (hops : Alternates within ops = true) (hrest : Alternates false rest = true) :
    Alternates within (ops ++ rest) = true := by
  induction ops generalizing within with
  | nil =>
    cases within with
    | false => exact hrest
    | true => cases hops
  | cons op ops ih =>
    cases op with
    | acquireRun =>
      simp only [List.cons_append, Alternates, Bool.and_eq_true] at hops ⊢
      exact ⟨hops.1, ih true hops.2⟩
    | releaseRun =>
      simp only [List.cons_append, Alternates, Bool.and_eq_true] at hops ⊢
      exact ⟨hops.1, ih false hops.2⟩
    | _ => exact ih within hops

theorem fireRelation_alternates (t : RelationTransition) :
    Alternates false (fireRelation t) = true := by
  cases t <;> rfl

theorem fireIfAvailable_alternates (state : Option RelationState) (t : RelationTransition) :
    Alternates false (fireIfAvailable state t) = true := by
  unfold fireIfAvailable
  split
  · exact fireRelation_alternates t
  · rfl

theorem fireAutomaticRelation_alternates (state : Option RelationState) :
    Alternates false (fireAutomaticRelation state) = true := by
  unfold fireAutomaticRelation
  split
  · exact fireRelation_alternates _
  · rfl

theorem synchronizeRelation_alternates (state : Option RelationState)
    (inflight : Option RelationTransition) :
    Alternates false (synchronizeRelation state inflight) = true := by
  have hstart : Alternates false (if (synchronizeTable state).1 || (synchronizeTable state).2 then
      lifecycleStart (synchronizeTable state).1 (synchronizeTable state).2 else []) = true := by
    rcases state with _ | state
    · rfl
    · cases state <;> rfl
  have hestablish := alternates_append false (lifecycleStop true) _ rfl hstart
  cases inflight with
  | some t => exact alternates_append false _ _ hestablish (fireIfAvailable_alternates state t)
  | none => exact alternates_append false _ _ hestablish (fireAutomaticRelation_alternates state)

theorem program_alternates (side : RelationSide) (task : WorkflowTask C) :
    Alternates false (task.program side) = true := by
  by_cases hsync : ∃ caller, task = .synchronize caller
  · obtain ⟨caller, rfl⟩ := hsync
    exact synchronizeRelation_alternates side.state side.inflight
  · rcases program_fires side task fun caller h => hsync ⟨caller, h⟩ with
      hnone | ⟨t, hfire, -⟩
    · rw [hnone]
      rfl
    · rw [hfire]
      exact fireRelation_alternates t

theorem takeWorkflow_alternates (s : RelationTasks C) (line : List (WorkflowTask C)) :
    Alternates false (s.takeWorkflow line).ops = true := by
  induction line with
  | nil => rfl
  | cons task line ih =>
    unfold takeWorkflow
    split
    · exact ih
    · rename_i hprogram
      have halternates := program_alternates s.side task
      rwa [hprogram] at halternates

/-- The line for the run lock, and what the holder of the workflow lock has still to do. -/
structure InTurn (s : RelationTasks C) : Prop where
  once : s.runLock.countP RunTask.isWorkflow ≤ 1
  alternates : Alternates (s.runLock.any RunTask.isWorkflow) s.ops = true

theorem acquireWorkflow_inTurn (s : RelationTasks C) (task : WorkflowTask C) (h : InTurn s)
    (hidle : s.workflowLock = [] → s.ops = []) : InTurn (s.acquireWorkflow task) := by
  unfold acquireWorkflow
  split
  · rename_i hfree
    have halternates := h.alternates
    rw [hidle hfree] at halternates
    have hout : s.runLock.any RunTask.isWorkflow = false := by simpa [Alternates] using halternates
    have hrun := (takeWorkflow_frame s [task]).2.1
    refine ⟨hrun ▸ h.once, ?_⟩
    rw [hrun, hout]
    exact takeWorkflow_alternates s [task]
  · exact ⟨h.once, h.alternates⟩

theorem perform_inTurn (s : RelationTasks C) (op : WorkflowOp) (ops : List WorkflowOp)
    (h : InTurn s) (hops : s.ops = op :: ops) (hwaits : s.waitsForRun = false) :
    InTurn ({ s with ops := ops }.perform op) := by
  obtain ⟨honce, halternates⟩ := h
  rw [hops] at halternates
  cases op with
  | acquireRun =>
    simp only [Alternates, Bool.and_eq_true, Bool.not_eq_true'] at halternates
    obtain ⟨hout, hafter⟩ := halternates
    have hnone : s.runLock.countP RunTask.isWorkflow = 0 := by
      rw [List.countP_eq_zero]
      exact fun task htask => List.any_eq_false.mp hout task htask
    refine ⟨?_, ?_⟩
    · simp [perform, hnone, RunTask.isWorkflow]
    · simpa [perform, RunTask.isWorkflow] using hafter
  | releaseRun =>
    simp only [Alternates, Bool.and_eq_true] at halternates
    refine ⟨(List.tail_sublist s.runLock).countP_le.trans honce, ?_⟩
    have hout : s.runLock.tail.any RunTask.isWorkflow = false := hwaits
    simpa only [perform, hout] using halternates.2
  | runScheduler =>
    simp only [perform]
    split <;> exact ⟨honce, halternates⟩
  | _ => exact ⟨honce, halternates⟩

theorem step_inTurn (s s' : RelationTasks C) (e : RelationEvent C) (h : InTurn s)
    (hidle : s.workflowLock = [] → s.ops = []) (hs : s.step e = some s') : InTurn s' := by
  cases e with
  | resolved caller =>
    obtain rfl := Option.some.inj hs
    exact acquireWorkflow_inTurn s _ h hidle
  | stop caller =>
    obtain rfl := Option.some.inj hs
    exact acquireWorkflow_inTurn s _ h hidle
  | restart caller =>
    obtain rfl := Option.some.inj hs
    exact acquireWorkflow_inTurn s _ h hidle
  | depart caller =>
    obtain rfl := Option.some.inj hs
    exact ⟨by simpa [RunTask.isWorkflow] using h.once,
      by simpa [RunTask.isWorkflow] using h.alternates⟩
  | goOn =>
    simp only [step] at hs
    split at hs
    · cases hs
    · rename_i hwaits
      split at hs
      · cases hs
      · rename_i task line hline hops
        obtain rfl := Option.some.inj hs
        obtain ⟨-, htaken, hrun, -⟩ := releaseWorkflow_frame s line task
        have halternates := h.alternates
        rw [hops] at halternates
        have hout : s.runLock.any RunTask.isWorkflow = false := by
          simpa [Alternates] using halternates
        refine ⟨hrun ▸ h.once, ?_⟩
        rw [htaken, hrun, hout]
        exact takeWorkflow_alternates s line
      · cases hs
      · rename_i hops _
        obtain rfl := Option.some.inj hs
        exact perform_inTurn s _ _ h hops (Bool.eq_false_iff.mpr hwaits)
  | departureStops =>
    simp only [step] at hs
    split at hs
    · rename_i hrun
      obtain rfl := Option.some.inj hs
      obtain ⟨honce, halternates⟩ := h
      rw [hrun] at honce halternates
      exact ⟨by simpa [RunTask.isWorkflow] using honce,
        by simpa [RunTask.isWorkflow] using halternates⟩
    · cases hs
  | departureGoesOn i =>
    simp only [step] at hs
    split at hs
    · cases hs
    · obtain rfl := Option.some.inj hs
      exact acquireWorkflow_inTurn _ _ ⟨h.once, h.alternates⟩ hidle
  | change i =>
    simp only [step] at hs
    split at hs
    · cases hs
    · obtain rfl := Option.some.inj hs
      exact ⟨by simpa [RunTask.isWorkflow] using h.once,
        by simpa [RunTask.isWorkflow] using h.alternates⟩
  | loopEnds i =>
    simp only [step] at hs
    split at hs
    · obtain rfl := Option.some.inj hs
      exact ⟨h.once, h.alternates⟩
    · cases hs
  | hookEnds success =>
    simp only [step] at hs
    split at hs
    · rename_i loop line hrun
      obtain rfl := Option.some.inj hs
      obtain ⟨honce, halternates⟩ := h
      rw [hrun] at honce halternates
      have hrest : Alternates (line.any RunTask.isWorkflow) s.ops = true := by
        simpa [RunTask.isWorkflow] using halternates
      split <;> exact ⟨by simpa [RunTask.isWorkflow] using honce, hrest⟩
    · rename_i hops
      obtain rfl := Option.some.inj hs
      have halternates := h.alternates
      rw [hops] at halternates
      exact ⟨h.once, halternates⟩
    · cases hs
  | errorReported i =>
    simp only [step] at hs
    split at hs
    · cases hs
    · obtain rfl := Option.some.inj hs
      split
      · exact acquireWorkflow_inTurn _ _ ⟨h.once, h.alternates⟩ hidle
      · exact ⟨h.once, h.alternates⟩

theorem step_numbered (s s' : RelationTasks C) (e : RelationEvent C) (h : Numbered s)
    (hs : s.step e = some s') : Numbered s' := by
  rcases step_allLoops s s' e hs with ⟨hloops, hnext⟩ | ⟨-, -, hperm, hnext⟩
  · refine ⟨List.nodup_iff_count_le_one.mpr fun k => ?_, fun loop hloop => ?_⟩
    · exact (hloops.count_le k).trans (List.nodup_iff_count_le_one.mp h.nodup k)
    · rw [hnext]
      exact h.below loop (hloops.subset hloop)
  · refine ⟨hperm.nodup (List.nodup_cons.mpr ⟨fun hmem => ?_, h.nodup⟩), fun loop hloop => ?_⟩
    · have hless := h.below _ hmem
      omega
    · rw [hnext]
      rcases List.mem_cons.mp (hperm.mem_iff.mpr hloop) with rfl | hold
      · omega
      · have hless := h.below loop hold
        omega

theorem callers_le (s s' : RelationTasks C)
    (hrun : s'.runLock.filterMap RunTask.caller <+ s.runLock.filterMap RunTask.caller)
    (hworkflow : s'.workflowLock.filterMap WorkflowTask.caller <+
      s.workflowLock.filterMap WorkflowTask.caller) :
    s'.callers.length ≤ s.callers.length := (hrun.append hworkflow).length_le

theorem perform_callers (s : RelationTasks C) (op : WorkflowOp) :
    (s.perform op).callers.length ≤ s.callers.length := by
  cases op with
  | acquireRun =>
    refine callers_le _ _ ?_ (List.Sublist.refl _)
    simp only [perform, List.filterMap_append]
    exact (List.append_nil _).symm ▸ List.Sublist.refl _
  | releaseRun =>
    exact callers_le _ _ ((List.tail_sublist s.runLock).filterMap _) (List.Sublist.refl _)
  | runScheduler =>
    simp only [perform]
    split <;> exact Nat.le_refl _
  | _ => exact Nat.le_refl _

/-- No caller comes by itself. -/
theorem step_callers (s s' : RelationTasks C) (e : RelationEvent C) (he : e.internal = true)
    (hs : s.step e = some s') : s'.callers.length ≤ s.callers.length := by
  cases e with
  | goOn =>
    simp only [step] at hs
    split at hs
    · cases hs
    · split at hs
      · cases hs
      · rename_i task line hline hops
        obtain rfl := Option.some.inj hs
        obtain ⟨hsuffix, -, hrun, -⟩ := releaseWorkflow_frame s line task
        refine callers_le _ _ (hrun ▸ List.Sublist.refl _) ?_
        rw [hline]
        exact (hsuffix.trans (List.suffix_cons task line)).sublist.filterMap _
      · cases hs
      · obtain rfl := Option.some.inj hs
        exact perform_callers _ _
  | departureStops =>
    simp only [step] at hs
    split at hs
    · rename_i hrun
      obtain rfl := Option.some.inj hs
      refine callers_le _ _ ?_ (List.Sublist.refl _)
      rw [hrun]
      exact (List.sublist_cons_self _ _).filterMap _
    · cases hs
  | change i =>
    simp only [step] at hs
    split at hs
    · cases hs
    · obtain rfl := Option.some.inj hs
      refine callers_le _ _ ?_ (List.Sublist.refl _)
      simp only [List.filterMap_append]
      exact (List.append_nil _).symm ▸ List.Sublist.refl _
  | loopEnds i =>
    simp only [step] at hs
    split at hs
    · obtain rfl := Option.some.inj hs
      exact Nat.le_refl _
    · cases hs
  | hookEnds success =>
    simp only [step] at hs
    split at hs
    · rename_i hrun
      obtain rfl := Option.some.inj hs
      refine callers_le _ _ ?_ ?_
      · rw [hrun]
        split <;> exact (List.sublist_cons_self _ _).filterMap _
      · split <;> exact List.Sublist.refl _
    · obtain rfl := Option.some.inj hs
      exact Nat.le_refl _
    · cases hs
  | errorReported i =>
    simp only [step] at hs
    split at hs
    · cases hs
    · rename_i loop _
      obtain rfl := Option.some.inj hs
      split
      · obtain ⟨hline, hrun, -⟩ :=
          acquireWorkflow_frame { s with failing := s.failing.eraseIdx i } (.error loop)
        refine callers_le _ _ ?_ ?_
        · rw [hrun]
        · have hsub := hline.filterMap WorkflowTask.caller
          rw [List.filterMap_append] at hsub
          exact hsub.trans (List.append_nil _ ▸ List.Sublist.refl _)
      · exact Nat.le_refl _
  | _ => cases he

theorem acquireWorkflow_callers (s : RelationTasks C) (departing : List C)
    (task : WorkflowTask C) :
    ({ s with departing := departing }.acquireWorkflow task).callers.length ≤
      s.callers.length + 1 := by
  obtain ⟨hline, hrun, -⟩ := acquireWorkflow_frame { s with departing := departing } task
  have hsub := (hline.filterMap WorkflowTask.caller).length_le
  have hlast := List.length_filterMap_le WorkflowTask.caller [task]
  rw [List.filterMap_append, List.length_append] at hsub
  rw [List.length_singleton] at hlast
  unfold callers
  rw [hrun, List.length_append, List.length_append]
  dsimp only at hsub ⊢
  omega

/-- One caller comes at a time. -/
theorem step_callers_succ (s s' : RelationTasks C) (e : RelationEvent C)
    (hs : s.step e = some s') : s'.callers.length ≤ s.callers.length + 1 := by
  by_cases he : e.internal = true
  · exact (step_callers s s' e he hs).trans (Nat.le_succ _)
  · cases e with
    | resolved caller =>
      obtain rfl := Option.some.inj hs
      exact acquireWorkflow_callers s s.departing _
    | stop caller =>
      obtain rfl := Option.some.inj hs
      exact acquireWorkflow_callers s s.departing _
    | restart caller =>
      obtain rfl := Option.some.inj hs
      exact acquireWorkflow_callers s s.departing _
    | depart caller =>
      obtain rfl := Option.some.inj hs
      have hlast := List.length_filterMap_le RunTask.caller [.departure caller]
      rw [List.length_singleton] at hlast
      unfold callers
      rw [List.filterMap_append, List.length_append, List.length_append, List.length_append]
      dsimp only
      omega
    | departureGoesOn i =>
      simp only [step] at hs
      split at hs
      · cases hs
      · obtain rfl := Option.some.inj hs
        exact acquireWorkflow_callers s _ _
    | _ => exact absurd rfl he

end RelationTasks

end Juju.Unit

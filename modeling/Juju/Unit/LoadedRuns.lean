import Juju.Base.StateExcept
import Juju.Unit.FoundRelations

namespace Juju.Unit
open Juju.Base

namespace LoadedWorkflow

/-- Whether the scheduler runs, and whether a hook that it has to run holds the run lock. -/
def lockAfter : Bool × Bool → WorkflowOp → Bool × Bool
  | (_, held), .runScheduler => (true, held)
  | (_, held), .stopLifecycle _ => (false, held)
  | (running, _), .releaseRun => (running, running)
  | lock, _ => lock

/-- The run lock is acquired once more while such a hook holds it. -/
def relocks : Bool × Bool → List WorkflowOp → Bool
  | _, [] => false
  | lock, op :: ops => op = .acquireRun && lock.2 || relocks (lockAfter lock op) ops

def makesWatch (ops : List WorkflowOp) : Bool := .runScheduler ∈ ops ∨ .startWatcher ∈ ops

section run

variable (executing : Bool) (w w' : LoadedWorkflow)

/-- The lock is as it would be if the scheduler had a hook to run. -/
structure Tracks (lock : Bool × Bool) : Prop where
  running : w.side.executing = lock.1
  held : w.held = (!executing && w.relation.hookDue && lock.2)

theorem tracks_free (h : w.held = false) : Tracks executing w (w.side.executing, false) :=
  ⟨rfl, by rw [h, Bool.and_false]⟩

/-- What an operation needs to come to its end. -/
structure Runs (lock : Bool × Bool) (ops : List WorkflowOp) : Prop where
  role : makesWatch ops = true → w.watched = true ∨ w.relation.hasRole = true
  hook : executing = false → .executeHook ∉ ops
  free : executing = false → w.relation.hookDue = true → relocks lock ops = false

/-- What the operations have changed when they come to their end. -/
structure Ran (lock : Bool × Bool) (ops : List WorkflowOp) : Prop where
  relation : w'.relation = w.relation
  side : w'.side = ops.foldl RelationSide.perform w.side
  watched : w'.watched = (w.watched || makesWatch ops)
  lock : Tracks executing w' (ops.foldl lockAfter lock)

theorem ensureWatch_ok (h : w.watched = true ∨ w.relation.hasRole = true) :
    w.ensureWatch = .ok { w with watched := true } := by
  obtain ⟨relation, side, watched, held⟩ := w
  cases watched with
  | true => rfl
  | false => exact if_pos (h.resolve_left Bool.false_ne_true)

theorem ensureWatch_needs (h : w.ensureWatch = .ok w') :
    w.watched = true ∨ w.relation.hasRole = true := by
  unfold ensureWatch at h
  split at h
  · exact Or.inl ‹_›
  · split at h
    · exact Or.inr ‹_›
    · cases h

/-- One operation. -/
theorem perform_ok (lock : Bool × Bool) (op : WorkflowOp) (htracks : Tracks executing w lock)
    (h : Runs executing w lock [op]) :
    ∃ w', w.perform executing op = .ok w' ∧ Ran executing w w' lock [op] := by
  obtain ⟨hrunning, hheld⟩ := htracks
  have hplain (hmakes : makesWatch [op] = false) (hlock : lockAfter lock op = lock)
      (hside : (w.side.perform op).executing = w.side.executing) :
      Ran executing w { w with side := w.side.perform op } lock [op] := by
    refine ⟨rfl, rfl, by rw [hmakes, Bool.or_false], ?_, ?_⟩
    · exact (hside.trans hrunning).trans (congrArg Prod.fst hlock.symm)
    · rw [List.foldl_cons, List.foldl_nil, hlock]
      exact hheld
  cases op with
  | acquireRun =>
    have hfree : w.held = false := by
      rw [hheld]
      cases hexecuting : executing with
      | true => rfl
      | false =>
        cases hdue : w.relation.hookDue with
        | false => rfl
        | true => simpa [relocks] using h.free hexecuting hdue
    exact ⟨w, by rw [perform, hfree]; rfl, hplain rfl rfl rfl⟩
  | runScheduler =>
    refine ⟨_, ensureWatch_ok _ (h.role rfl), rfl, rfl, (Bool.or_true _).symm, rfl, ?_⟩
    exact hheld
  | startWatcher =>
    have hwatch := ensureWatch_ok w (h.role rfl)
    refine ⟨{ w with side := w.side.perform .startWatcher, watched := true }, ?_, rfl, rfl,
      (Bool.or_true _).symm, hrunning, hheld⟩
    rw [perform, hwatch]
    rfl
  | releaseRun =>
    refine ⟨_, rfl, rfl, rfl, (Bool.or_false _).symm, hrunning, ?_⟩
    exact (congrArg (fun running => !executing && running && w.relation.hookDue) hrunning).trans
      (Bool.and_right_comm ..)
  | executeHook =>
    have hexecuting : executing = true := by
      cases he : executing with
      | true => rfl
      | false => exact absurd (List.mem_singleton_self _) (h.hook he)
    exact ⟨w, if_pos hexecuting, hplain rfl rfl rfl⟩
  | stopLifecycle stopWatches =>
    exact ⟨_, rfl, rfl, rfl, (Bool.or_false _).symm, rfl, hheld⟩
  | setInflight t => exact ⟨_, rfl, hplain rfl rfl rfl⟩
  | clearHandler => exact ⟨_, rfl, hplain rfl rfl rfl⟩
  | setState s => exact ⟨_, rfl, hplain rfl rfl rfl⟩

theorem perform_needs (lock : Bool × Bool) (op : WorkflowOp) (htracks : Tracks executing w lock)
    (h : w.perform executing op = .ok w') : Runs executing w lock [op] := by
  have hquiet (hmakes : makesWatch [op] = false) (hhook : op ≠ .executeHook)
      (hlock : op ≠ .acquireRun) : Runs executing w lock [op] := by
    refine ⟨fun hyes => ?_, fun _ hin => hhook (List.mem_singleton.mp hin).symm, fun _ _ => ?_⟩
    · rw [hmakes] at hyes
      cases hyes
    · simp [relocks, hlock]
  cases op with
  | acquireRun =>
    refine ⟨fun hyes => (by cases hyes), fun _ hin => (by simp at hin), fun hexecuting hdue => ?_⟩
    cases hheld : w.held with
    | true => simp [perform, hheld] at h
    | false => simpa [htracks.held, hexecuting, hdue, relocks] using hheld
  | runScheduler =>
    have hrole := ensureWatch_needs { w with side := w.side.perform .runScheduler } w' h
    exact ⟨fun _ => hrole, fun _ hin => (by simp at hin), fun _ _ => rfl⟩
  | startWatcher =>
    obtain ⟨w₁, hfirst, -⟩ := except_bind_ok _ _ _ h
    exact ⟨fun _ => ensureWatch_needs w w₁ hfirst, fun _ hin => (by simp at hin), fun _ _ => rfl⟩
  | executeHook =>
    refine ⟨fun hyes => (by cases hyes), fun hexecuting _ => ?_, fun _ _ => rfl⟩
    simp [perform, hexecuting] at h
  | releaseRun => exact hquiet rfl (by decide) (by decide)
  | stopLifecycle stopWatches => exact hquiet rfl (by simp) (by simp)
  | setInflight t => exact hquiet rfl (by simp) (by simp)
  | clearHandler => exact hquiet rfl (by decide) (by decide)
  | setState s => exact hquiet rfl (by simp) (by simp)

theorem makesWatch_cons (op : WorkflowOp) (ops : List WorkflowOp) :
    makesWatch (op :: ops) = (makesWatch [op] || makesWatch ops) := by
  simp [makesWatch, Bool.or_assoc, or_assoc, or_left_comm]

theorem runs_head (lock : Bool × Bool) (op : WorkflowOp) (ops : List WorkflowOp)
    (h : Runs executing w lock (op :: ops)) : Runs executing w lock [op] := by
  refine ⟨fun hyes => h.role ?_, fun he hin => h.hook he ?_, fun he hdue => ?_⟩
  · rw [makesWatch_cons, hyes]
    rfl
  · exact List.mem_cons.mpr (Or.inl (List.mem_singleton.mp hin))
  · have hfree := h.free he hdue
    simp only [relocks, Bool.or_eq_false_iff] at hfree ⊢
    exact ⟨hfree.1, trivial⟩

/-- A task needs what its first operation needs, and then the rest. -/
theorem runs_cons (lock : Bool × Bool) (op : WorkflowOp) (ops : List WorkflowOp)
    (hran : Ran executing w w' lock [op]) : Runs executing w lock (op :: ops) ↔
      Runs executing w lock [op] ∧ Runs executing w' (lockAfter lock op) ops := by
  have hmakes := makesWatch_cons op ops
  constructor
  · intro h
    refine ⟨runs_head executing w lock op ops h, fun hyes => ?_,
      fun he hin => h.hook he (List.mem_cons_of_mem _ hin), fun he hdue => ?_⟩
    · rw [hran.watched, hran.relation]
      exact (h.role (by rw [hmakes, hyes, Bool.or_true])).imp_left fun hw => by rw [hw]; rfl
    · rw [hran.relation] at hdue
      have hfree := h.free he hdue
      simp only [relocks, Bool.or_eq_false_iff] at hfree
      exact hfree.2
  · rintro ⟨hfirst, hrest⟩
    refine ⟨fun hyes => ?_, fun he hin => ?_, fun he hdue => ?_⟩
    · rw [hmakes, Bool.or_eq_true] at hyes
      by_cases hnow : makesWatch [op] = true
      · exact hfirst.role hnow
      · have hlater := hrest.role (hyes.resolve_left hnow)
        rw [hran.watched, hran.relation, Bool.eq_false_iff.mpr hnow, Bool.or_false] at hlater
        exact hlater
    · rcases List.mem_cons.mp hin with hnow | hlater
      · exact hfirst.hook he (List.mem_singleton.mpr hnow)
      · exact hrest.hook he hlater
    · have hnow := hfirst.free he hdue
      have hlater := hrest.free he (by rwa [hran.relation])
      simp only [relocks, Bool.or_eq_false_iff] at hnow ⊢
      exact ⟨hnow.1, hlater⟩

/-- The operations of a task come to their end when they have what they need. -/
theorem run_ok (lock : Bool × Bool) (ops : List WorkflowOp) (htracks : Tracks executing w lock)
    (h : Runs executing w lock ops) :
    ∃ w', w.run executing ops = .ok w' ∧ Ran executing w w' lock ops := by
  induction ops generalizing w lock with
  | nil => exact ⟨w, rfl, rfl, rfl, (Bool.or_false _).symm, htracks⟩
  | cons op ops ih =>
    obtain ⟨w₁, hw₁, hran⟩ :=
      perform_ok executing w lock op htracks (runs_head executing w lock op ops h)
    obtain ⟨-, hrest⟩ := (runs_cons executing w w₁ lock op ops hran).mp h
    obtain ⟨w', hw', hran'⟩ := ih w₁ (lockAfter lock op) hran.lock hrest
    refine ⟨w', ?_, hran'.relation.trans hran.relation, ?_, ?_, hran'.lock⟩
    · rw [run, List.foldlM_cons, hw₁]
      exact hw'
    · rw [hran'.side, hran.side]
      rfl
    · rw [hran'.watched, hran.watched, makesWatch_cons op ops, Bool.or_assoc]

theorem run_needs (lock : Bool × Bool) (ops : List WorkflowOp) (htracks : Tracks executing w lock)
    (h : w.run executing ops = .ok w') : Runs executing w lock ops := by
  induction ops generalizing w lock with
  | nil => exact ⟨fun hyes => (by cases hyes), fun _ hin => (by cases hin), fun _ _ => rfl⟩
  | cons op ops ih =>
    rw [run, List.foldlM_cons] at h
    obtain ⟨w₁, hw₁, hrest⟩ := except_bind_ok _ _ _ h
    have hfirst := perform_needs executing w w₁ lock op htracks hw₁
    obtain ⟨w₂, hw₂, hran⟩ := perform_ok executing w lock op htracks hfirst
    obtain rfl := Except.ok.inj (hw₁.symm.trans hw₂)
    have hruns := ih w₁ (lockAfter lock op) hran.lock hrest
    exact (runs_cons executing w w₁ lock op ops hran).mpr ⟨hfirst, hruns⟩

/-- A task that comes to its end has changed what its operations change. -/
theorem run_ran (lock : Bool × Bool) (ops : List WorkflowOp) (htracks : Tracks executing w lock)
    (h : w.run executing ops = .ok w') : Ran executing w w' lock ops := by
  obtain ⟨w₁, hw₁, hran⟩ :=
    run_ok executing w lock ops htracks (run_needs executing w w' lock ops htracks h)
  obtain rfl := Except.ok.inj (h.symm.trans hw₁)
  exact hran

end run

end LoadedWorkflow

end Juju.Unit

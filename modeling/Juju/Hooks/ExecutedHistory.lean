import Juju.Hooks.HookScheduler
import Juju.Hooks.WellQueued

namespace Juju.Hooks
open Juju.Base

variable {U : Type} [LinearOrder U]

/-- The units whose joined hook has succeeded without a departed hook having succeeded since. -/
def present (history : List (Execution U)) : Finset U :=
  history.foldl (fun live e => if e.success then e.change.settle live else live) ∅

/-- The units whose joined hook has been executed without a departed hook executed since, whether
the hooks succeeded or not. -/
def met (history : List (Execution U)) : Finset U :=
  history.foldl (fun live e => e.change.settle live) ∅

/-- The types of the changes of a unit that were executed successfully. -/
def changesOf (u : U) (history : List (Execution U)) : List ChangeType :=
  (history.filter fun e => e.success ∧ e.change.unitName = u).map fun e => e.change.changeType

/-- One word (joined modified* departed) for each number of modified changes listed. -/
def course (rounds : List Nat) : List ChangeType :=
  rounds.flatMap fun n => .joined :: (List.replicate n .modified ++ [.departed])

/-- A joined change is still followed by a modified or a departed one. -/
def Expanded (e : Execution U) : Prop :=
  e.success = true → e.change.changeType = .joined →
    ∃ c ∈ e.behind, c.unitName = e.change.unitName ∧
      (c.changeType = .modified ∨ c.changeType = .departed)

/-- The members a hook sees are its own unit and units it knows to be in the relation. -/
def SeesPresent (before : List (Execution U)) (e : Execution U) : Prop :=
  ∀ w ∈ e.change.members, w = e.change.unitName ∨ w ∈ present before

@[simp] theorem present_snoc (history : List (Execution U)) (e : Execution U) :
    present (history ++ [e]) =
      if e.success then e.change.settle (present history) else present history := by
  simp [present]

theorem changesOf_snoc (u : U) (history : List (Execution U)) (e : Execution U) :
    changesOf u (history ++ [e]) = changesOf u history ++
      if e.success ∧ e.change.unitName = u then [e.change.changeType] else [] := by
  unfold changesOf
  rw [List.filter_append, List.map_append, List.filter_singleton]
  by_cases h : e.success ∧ e.change.unitName = u <;> simp [h]

theorem course_snoc (rounds : List Nat) (n : Nat) :
    course (rounds ++ [n]) =
      course rounds ++ .joined :: (List.replicate n .modified ++ [.departed]) := by
  simp [course]

/-- How far a unit's changes have come: between two words, or within one. -/
def Underway (u : U) (history : List (Execution U)) : Prop :=
  (u ∉ present history → ∃ rounds, changesOf u history = course rounds) ∧
  (u ∈ present history → ∃ rounds n,
    changesOf u history = course rounds ++ .joined :: List.replicate n .modified)

theorem underway_prefix (u : U) (history : List (Execution U)) (h : Underway u history) :
    ∃ rounds, changesOf u history <+: course rounds := by
  by_cases hu : u ∈ present history
  · obtain ⟨rounds, n, hw⟩ := h.2 hu
    refine ⟨rounds ++ [n], [.departed], ?_⟩
    rw [hw, course_snoc, List.append_assoc, List.cons_append]
  · obtain ⟨rounds, hw⟩ := h.1 hu
    exact ⟨rounds, hw ▸ List.prefix_rfl⟩

/-- Executing a change that fits carries every unit's word on. -/
theorem underway_snoc (u : U) (history : List (Execution U)) (e : Execution U)
    (h : Underway u history) (hfits : Fits (present history) e.change) :
    Underway u (history ++ [e]) := by
  cases hs : e.success with
  | false => simpa [Underway, changesOf_snoc, hs] using h
  | true =>
    by_cases hu : e.change.unitName = u
    · subst hu
      simp only [Underway, present_snoc, changesOf_snoc, hs, if_true, and_self]
      cases ht : e.change.changeType with
      | joined =>
        obtain ⟨rounds, hw⟩ := h.1 (hfits.1.mp ht)
        simp only [Change.settle, ht]
        exact ⟨fun hno => absurd (Finset.mem_insert_self _ _) hno,
          fun _ => ⟨rounds, 0, by rw [hw]; rfl⟩⟩
      | departed =>
        have hin : e.change.unitName ∈ present history := by
          by_contra hno
          simpa [ht] using hfits.1.mpr hno
        obtain ⟨rounds, n, hw⟩ := h.2 hin
        simp only [Change.settle, ht]
        refine ⟨fun _ => ⟨rounds ++ [n], ?_⟩, fun hno => absurd hno (by simp)⟩
        rw [hw, course_snoc, List.append_assoc, List.cons_append]
      | modified =>
        have hin : e.change.unitName ∈ present history := by
          by_contra hno
          simpa [ht] using hfits.1.mpr hno
        obtain ⟨rounds, n, hw⟩ := h.2 hin
        simp only [Change.settle, ht]
        refine ⟨fun hno => absurd hin hno, fun _ => ⟨rounds, n + 1, ?_⟩⟩
        rw [hw, List.replicate_succ', List.append_assoc, List.cons_append]
    · simpa [Underway, changesOf_snoc, hs, hu, settle_mem_of_ne _ _ _ hu] using h

/-- What a run of hooks has shown the charm. -/
structure HistoryLaw (history : List (Execution U)) : Prop where
  underway : ∀ u, Underway u history
  expanded : ∀ e ∈ history, Expanded e
  members : ∀ before e after, history = before ++ e :: after → SeesPresent before e

theorem historyLaw_nil : HistoryLaw ([] : List (Execution U)) := by
  refine ⟨fun u => ⟨fun _ => ⟨[], rfl⟩, fun h => absurd h (by simp [present])⟩, by simp, ?_⟩
  intro before e after h
  simp at h

theorem historyLaw_snoc (history : List (Execution U)) (e : Execution U)
    (h : HistoryLaw history) (hfits : Fits (present history) e.change) (he : Expanded e) :
    HistoryLaw (history ++ [e]) := by
  refine ⟨fun u => underway_snoc u history e (h.underway u) hfits, ?_, ?_⟩
  · intro d hd
    rcases List.mem_append.mp hd with hd | hd
    · exact h.expanded d hd
    · exact List.mem_singleton.mp hd ▸ he
  · intro before d after hsplit
    rcases List.eq_nil_or_concat after with rfl | ⟨after, last, rfl⟩
    · obtain ⟨rfl, hlast⟩ := List.append_inj' hsplit rfl
      obtain rfl : e = d := by simpa using hlast
      exact hfits.2
    · rw [List.concat_eq_append, ← List.cons_append, ← List.append_assoc] at hsplit
      obtain ⟨hinit, -⟩ := List.append_inj' hsplit rfl
      exact h.members before d after hinit

end Juju.Hooks

import Mathlib.Data.List.Basic

namespace Juju.Base

variable {α : Type}

/-- Every entry from position `i` up to position `j` equals its successor. -/
def EqualRun (l : List α) (i j : Nat) : Prop := ∀ k < j, i ≤ k → l[k]? = l[k + 1]?

instance [DecidableEq α] (l : List α) (i j : Nat) : Decidable (EqualRun l i j) :=
  inferInstanceAs (Decidable (∀ k < j, i ≤ k → l[k]? = l[k + 1]?))

theorem eraseIdx_split (before after : List α) (a : α) :
    (before ++ a :: after).eraseIdx before.length = before ++ after := by
  rw [List.eraseIdx_append_of_length_le (Nat.le_refl _), Nat.sub_self, List.eraseIdx_cons_zero]

/-- Removing two different positions gives the same list exactly when all entries
between them are equal. -/
theorem eraseIdx_eq_iff (l : List α) (i j : Nat) (hij : i ≤ j) :
    l.eraseIdx i = l.eraseIdx j ↔ EqualRun l i j := by
  constructor
  · intro h k hk hi
    have hget := congrArg (fun r : List α => r[k]?) h
    simp only [List.getElem?_eraseIdx_of_ge hi, List.getElem?_eraseIdx_of_lt hk] at hget
    exact hget.symm
  · intro h
    apply List.ext_getElem?
    intro k
    rcases Nat.lt_or_ge k i with hk | hk
    · rw [List.getElem?_eraseIdx_of_lt hk, List.getElem?_eraseIdx_of_lt (by omega)]
    · rcases Nat.lt_or_ge k j with hkj | hkj
      · rw [List.getElem?_eraseIdx_of_ge hk, List.getElem?_eraseIdx_of_lt hkj]
        exact (h k hkj hk).symm
      · rw [List.getElem?_eraseIdx_of_ge hk, List.getElem?_eraseIdx_of_ge hkj]

/-- Popping an index before a split point drops the entry at the split exactly when both
stand in one run of equal entries. -/
theorem erase_run_iff (head before after : List α) (a : α) (i : Nat) (hi : i ≤ before.length) :
    (head ++ (before ++ a :: after)).eraseIdx i = head ++ (before ++ after) ↔
      EqualRun (head ++ (before ++ a :: after)) i (head.length + before.length) := by
  have hlast : (head ++ (before ++ a :: after)).eraseIdx (head.length + before.length) =
      head ++ (before ++ after) := by
    rw [List.eraseIdx_append_of_length_le (by omega), Nat.add_sub_cancel_left, eraseIdx_split]
  rw [← hlast]
  exact eraseIdx_eq_iff _ _ _ (by omega)

theorem idxOf_le_of_split [DecidableEq α] (before after : List α) (a : α) :
    (before ++ a :: after).idxOf a ≤ before.length := by
  rw [List.idxOf_append]
  split_ifs with h
  · exact Nat.le_of_lt (List.idxOf_lt_length_iff.mpr h)
  · simp

/-- The last entry satisfying a test splits a list in one way only. -/
theorem last_split_unique (p : α → Prop) (b₁ b₂ a₁ a₂ : List α) (x₁ x₂ : α)
    (h : b₁ ++ x₁ :: a₁ = b₂ ++ x₂ :: a₂) (h₁ : p x₁) (h₂ : p x₂)
    (ha₁ : ∀ y ∈ a₁, ¬ p y) (ha₂ : ∀ y ∈ a₂, ¬ p y) :
    b₁ = b₂ ∧ x₁ = x₂ ∧ a₁ = a₂ := by
  rcases List.append_eq_append_iff.mp h with ⟨t, hb, ht⟩ | ⟨t, hb, ht⟩
  · cases t with
    | nil => simp_all
    | cons y t =>
      obtain ⟨rfl, rfl⟩ := List.cons.inj ht
      exact absurd h₂ (ha₁ x₂ (by simp))
  · cases t with
    | nil => simp_all
    | cons y t =>
      obtain ⟨rfl, rfl⟩ := List.cons.inj ht
      exact absurd h₁ (ha₂ x₁ (by simp))

/-- Searching a reversed list finds the last entry satisfying the test. -/
theorem find?_reverse_eq_some (p : α → Bool) (l : List α) (x : α)
    (h : l.reverse.find? p = some x) :
    ∃ before after, l = before ++ x :: after ∧ p x = true ∧ ∀ y ∈ after, p y = false := by
  obtain ⟨hx, as, bs, hl, has⟩ := List.find?_eq_some_iff_append.mp h
  refine ⟨bs.reverse, as.reverse, ?_, hx, ?_⟩
  · have hr := congrArg List.reverse hl
    simpa using hr
  · intro y hy
    simpa using has y (by simpa using hy)

/-- A list that ends with an entry, cut at that entry or at an earlier one. -/
theorem snoc_cut (l before after : List α) (x last : α) (h : l ++ [last] = before ++ x :: after) :
    (after = [] ∧ x = last ∧ l = before) ∨
      ∃ after', after = after' ++ [last] ∧ l = before ++ x :: after' := by
  cases List.eq_nil_or_concat after with
  | inl hnil =>
    subst hnil
    obtain ⟨hlog, hlast⟩ := List.append_inj' h rfl
    exact .inl ⟨rfl, (List.cons.inj hlast).1.symm, hlog⟩
  | inr hconcat =>
    obtain ⟨after', last', rfl⟩ := hconcat
    rw [List.concat_eq_append, ← List.cons_append, ← List.append_assoc] at h
    obtain ⟨hlog, hlast⟩ := List.append_inj' h rfl
    exact .inr ⟨after', by rw [(List.cons.inj hlast).1, List.concat_eq_append], hlog⟩

end Juju.Base

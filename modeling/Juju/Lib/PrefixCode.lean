import Mathlib.Data.List.Basic

namespace Juju.Lib

variable {α β : Type} {P : α → Prop} {f : α → List β}

/-- Each code word tells what it stands for, whatever comes after it. -/
structure IsPrefixCode (P : α → Prop) (f : α → List β) : Prop where
  nonempty : ∀ a, P a → f a ≠ []
  apart : ∀ a b, P a → P b → ∀ x y, f a ++ x = f b ++ y → a = b

/-- What is written in a prefix code is read in one way. -/
theorem IsPrefixCode.flatMap_injective (h : IsPrefixCode P f) (l l' : List α)
    (hl : ∀ a ∈ l, P a) (hl' : ∀ a ∈ l', P a) (he : l.flatMap f = l'.flatMap f) : l = l' := by
  induction l generalizing l' with
  | nil =>
    cases l' with
    | nil => rfl
    | cons b l' =>
      have hempty : f b = [] := by
        rw [List.flatMap_cons, List.flatMap_nil] at he
        exact (List.append_eq_nil_iff.mp he.symm).1
      exact absurd hempty (h.nonempty b (hl' b (by simp)))
  | cons a l ih =>
    cases l' with
    | nil =>
      have hempty : f a = [] := by
        rw [List.flatMap_cons, List.flatMap_nil] at he
        exact (List.append_eq_nil_iff.mp he).1
      exact absurd hempty (h.nonempty a (hl a (by simp)))
    | cons b l' =>
      rw [List.flatMap_cons, List.flatMap_cons] at he
      have hfirst := h.apart a b (hl a (by simp)) (hl' b (by simp)) _ _ he
      subst hfirst
      have hrest := ih l' (fun x hx => hl x (List.mem_cons_of_mem _ hx))
        (fun x hx => hl' x (List.mem_cons_of_mem _ hx)) (List.append_cancel_left he)
      rw [hrest]

end Juju.Lib

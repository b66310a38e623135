import Mathlib.Logic.Function.Basic

namespace Juju.Base

variable {K V : Type} [DecidableEq V]

/-- The three-way merge of partial maps: `local_` where it differs from `pristine`, and `base`
elsewhere. -/
def threeWay (pristine local_ base : K → Option V) : K → Option V :=
  fun k => if local_ k ≠ pristine k then local_ k else base k

theorem threeWay_edited (pristine local_ base : K → Option V) (k : K)
    (h : local_ k ≠ pristine k) : threeWay pristine local_ base k = local_ k :=
  if_pos h

theorem threeWay_untouched (pristine local_ base : K → Option V) (k : K)
    (h : local_ k = pristine k) : threeWay pristine local_ base k = base k :=
  if_neg (not_not.mpr h)

/-- Without edits nothing is changed. -/
theorem threeWay_self (pristine base : K → Option V) :
    threeWay pristine pristine base = base :=
  funext fun k => threeWay_untouched pristine pristine base k rfl

/-- The merge is the local map exactly when the base agrees with it wherever it has no edits. -/
theorem threeWay_eq_local_iff (pristine local_ base : K → Option V) :
    threeWay pristine local_ base = local_ ↔ ∀ k, local_ k = pristine k → base k = local_ k := by
  constructor
  · intro h k hk
    rw [← threeWay_untouched pristine local_ base k hk, h]
  · intro h
    funext k
    by_cases hk : local_ k = pristine k
    · rw [threeWay_untouched pristine local_ base k hk, h k hk]
    · exact threeWay_edited pristine local_ base k hk

end Juju.Base

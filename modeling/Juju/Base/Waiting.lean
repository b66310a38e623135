import Mathlib.Data.Set.Basic
import Mathlib.Logic.Relation

namespace Juju.Base

section waiting

variable {A : Type} (waits : A → A → Prop)

/-- Everyone in `D` waits for what only another of `D` can do. -/
def Deadlocked (D : Set A) : Prop := D.Nonempty ∧ ∀ a ∈ D, ∃ b ∈ D, waits a b

variable {waits}

/-- Where there is no deadlock, whatever one waits for comes down to somebody who does not wait. -/
theorem ends_of_not_deadlocked (h : ∀ D, ¬ Deadlocked waits D) (a : A) :
    ∃ b, Relation.ReflTransGen waits a b ∧ ∀ c, ¬ waits b c := by
  by_contra hnone
  refine h (fun b => Relation.ReflTransGen waits a b) ⟨⟨a, .refl⟩, fun b hb => ?_⟩
  by_contra hends
  exact hnone ⟨b, hb, fun c hbc => hends ⟨c, hb.tail hbc, hbc⟩⟩

/-- The same for one who waits: it is somebody else. -/
theorem waits_for_free (h : ∀ D, ¬ Deadlocked waits D) (a b : A) (hab : waits a b) :
    ∃ c, Relation.TransGen waits a c ∧ ∀ d, ¬ waits c d := by
  obtain ⟨c, hbc, hfree⟩ := ends_of_not_deadlocked h b
  exact ⟨c, Relation.TransGen.head' hab hbc, hfree⟩

/-- Where each waits on a resource of a rank, and whoever one waits for only waits for resources
of a higher rank, nobody who waits on a bounded rank is in a deadlock. -/
theorem not_deadlocked_of_ranked (ranked : A → Nat → A → Prop) (bound : Nat)
    (hranked : ∀ a b, waits a b → ∃ i, ranked a i b)
    (hclimbs : ∀ a b c i j, ranked a i b → ranked b j c → i < j)
    (hbound : ∀ a b i, ranked a i b → i < bound) (D : Set A) : ¬ Deadlocked waits D := by
  rintro ⟨⟨a, ha⟩, hwaits⟩
  have hevery (k : Nat) : ∃ a ∈ D, ∃ b ∈ D, ∃ i, k ≤ i ∧ ranked a i b := by
    induction k with
    | zero =>
      obtain ⟨b, hb, hab⟩ := hwaits a ha
      obtain ⟨i, hi⟩ := hranked a b hab
      exact ⟨a, ha, b, hb, i, Nat.zero_le i, hi⟩
    | succ k ih =>
      obtain ⟨a, _, b, hb, i, hk, hi⟩ := ih
      obtain ⟨c, hc, hbc⟩ := hwaits b hb
      obtain ⟨j, hj⟩ := hranked b c hbc
      have hij := hclimbs a b c i j hi hj
      exact ⟨b, hb, c, hc, j, by omega, hj⟩
  obtain ⟨a, _, b, _, i, hi, hab⟩ := hevery bound
  have hless := hbound a b i hab
  omega

end waiting

end Juju.Base

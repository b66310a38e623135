import Mathlib.Data.List.Basic

namespace Juju.Base

variable {D : Type}

/-- Changes that lead from one value to another, each from where the one before it ended. -/
def ChainFrom : D → List (D × D) → D → Prop
  | a, [], b => a = b
  | a, c :: cs, b => c.1 = a ∧ ChainFrom c.2 cs b

theorem chainFrom_append (a b : D) (cs ds : List (D × D)) :
    ChainFrom a (cs ++ ds) b ↔ ∃ m, ChainFrom a cs m ∧ ChainFrom m ds b := by
  induction cs generalizing a with
  | nil => simp [ChainFrom]
  | cons c cs ih =>
    simp only [List.cons_append, ChainFrom, ih]
    constructor
    · rintro ⟨hc, m, hcs, hds⟩
      exact ⟨m, ⟨hc, hcs⟩, hds⟩
    · rintro ⟨m, ⟨hc, hcs⟩, hds⟩
      exact ⟨hc, m, hcs, hds⟩

theorem chainFrom_snoc (a m b : D) (cs : List (D × D)) (h : ChainFrom a cs m) :
    ChainFrom a (cs ++ [(m, b)]) b :=
  (chainFrom_append a b cs _).mpr ⟨m, h, rfl, rfl⟩

theorem chainFrom_adjacent (a b : D) (before after : List (D × D))
    (c d : D × D) (h : ChainFrom a (before ++ c :: d :: after) b) : d.1 = c.2 := by
  obtain ⟨m, -, -, hd, -⟩ := (chainFrom_append a b before _).mp h
  exact hd

theorem chainFrom_last (a b : D) (cs : List (D × D)) (h : ChainFrom a cs b) :
    (cs.getLast?.map Prod.snd).getD a = b := by
  rcases List.eq_nil_or_concat cs with rfl | ⟨before, c, rfl⟩
  · exact h
  · rw [List.concat_eq_append] at h ⊢
    obtain ⟨m, -, -, hb⟩ := (chainFrom_append a b before _).mp h
    simpa [ChainFrom] using hb

theorem chainFrom_map {D' : Type} (f : D → D') (a b : D) (cs : List (D × D))
    (h : ChainFrom a cs b) : ChainFrom (f a) (cs.map fun c => (f c.1, f c.2)) (f b) := by
  induction cs generalizing a with
  | nil => exact congrArg f h
  | cons c cs ih => exact ⟨congrArg f h.1, ih c.2 h.2⟩

/-- What changes nothing may be left out. -/
theorem chainFrom_filter [DecidableEq D] (a b : D) (cs : List (D × D)) (h : ChainFrom a cs b) :
    ChainFrom a (cs.filter fun c => c.1 ≠ c.2) b := by
  induction cs generalizing a with
  | nil => exact h
  | cons c cs ih =>
    obtain ⟨hfirst, hrest⟩ := h
    have hkept := ih c.2 hrest
    by_cases hsame : c.1 = c.2
    · rw [List.filter_cons_of_neg (by simpa using hsame), ← hfirst, hsame]
      exact hkept
    · rw [List.filter_cons_of_pos (by simpa using hsame)]
      exact ⟨hfirst, hkept⟩

end Juju.Base

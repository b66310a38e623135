import Mathlib.Computability.Language

namespace Juju.Lib
open Computability

/-- A regular pattern over the characters `α`; `one p` is a class of characters. -/
inductive Pattern (α : Type) where
  | never
  | empty
  | one (p : α → Bool)
  | either (a b : Pattern α)
  | seq (a b : Pattern α)
  | many (a : Pattern α)

namespace Pattern

variable {α : Type}

/-- The words that a pattern spells. -/
def language : Pattern α → Language α
  | .never => 0
  | .empty => 1
  | .one p => {w | ∃ x, p x = true ∧ w = [x]}
  | .either a b => a.language + b.language
  | .seq a b => a.language * b.language
  | .many a => a.language∗

/-- `a+`. -/
def some (a : Pattern α) : Pattern α := .seq a (.many a)

/-- `a?`. -/
def optional (a : Pattern α) : Pattern α := .either a .empty

def nullable : Pattern α → Bool
  | .never => false
  | .empty => true
  | .one _ => false
  | .either a b => a.nullable || b.nullable
  | .seq a b => a.nullable && b.nullable
  | .many _ => true

/-- What is left to be spelled after `x`. -/
def derivative (x : α) : Pattern α → Pattern α
  | .never => .never
  | .empty => .never
  | .one p => if p x then .empty else .never
  | .either a b => .either (a.derivative x) (b.derivative x)
  | .seq a b =>
    if a.nullable then .either (.seq (a.derivative x) b) (b.derivative x)
    else .seq (a.derivative x) b
  | .many a => .seq (a.derivative x) (.many a)

def spells (p : Pattern α) : List α → Bool
  | [] => p.nullable
  | x :: w => (p.derivative x).spells w

theorem mem_one (p : α → Bool) (w : List α) :
    w ∈ (Pattern.one p).language ↔ ∃ x, p x = true ∧ w = [x] := Iff.rfl

theorem mem_either (a b : Pattern α) (w : List α) :
    w ∈ (Pattern.either a b).language ↔ w ∈ a.language ∨ w ∈ b.language := Iff.rfl

theorem mem_seq (a b : Pattern α) (w : List α) :
    w ∈ (Pattern.seq a b).language ↔ ∃ u ∈ a.language, ∃ v ∈ b.language, u ++ v = w :=
  Language.mem_mul

theorem nullable_iff (p : Pattern α) : p.nullable = true ↔ [] ∈ p.language := by
  induction p with
  | never => simp [nullable, language]
  | empty => simp [nullable, language]
  | one p => simp [nullable, mem_one]
  | either a b iha ihb => simp [nullable, mem_either, iha, ihb]
  | seq a b iha ihb => simp [nullable, mem_seq, iha, ihb]
  | many a ih => simp [nullable, language, Language.nil_mem_kstar]

/-- A word of `l∗` that is not empty starts with a word of `l` that is not. -/
theorem cons_mem_kstar (l : Language α) (x : α) (w : List α) :
    x :: w ∈ l∗ ↔ ∃ u v, x :: u ∈ l ∧ v ∈ l∗ ∧ u ++ v = w := by
  constructor
  · intro h
    obtain ⟨parts, hflat, hparts⟩ := Language.mem_kstar_iff_exists_nonempty.mp h
    cases parts with
    | nil => simp at hflat
    | cons part parts =>
      obtain ⟨hpart, hne⟩ := hparts part (List.mem_cons_self ..)
      cases part with
      | nil => exact absurd rfl hne
      | cons y u =>
        rw [List.flatten_cons, List.cons_append, List.cons.injEq] at hflat
        obtain ⟨hx, hw⟩ := hflat
        have hrest : parts.flatten ∈ l∗ :=
          Language.join_mem_kstar fun v hv => (hparts v (List.mem_cons_of_mem _ hv)).1
        exact ⟨u, parts.flatten, hx ▸ hpart, hrest, hw.symm⟩
  · rintro ⟨u, v, hu, hv, huv⟩
    obtain ⟨parts, hflat, hparts⟩ := Language.mem_kstar.mp hv
    have hall : ∀ part ∈ (x :: u) :: parts, part ∈ l := by
      intro part hpart
      rcases List.mem_cons.mp hpart with rfl | hpart
      · exact hu
      · exact hparts part hpart
    have hjoin := Language.join_mem_kstar hall
    rwa [List.flatten_cons, ← hflat, List.cons_append, huv] at hjoin

theorem derivative_iff (p : Pattern α) (x : α) (w : List α) :
    w ∈ (p.derivative x).language ↔ x :: w ∈ p.language := by
  induction p generalizing w with
  | never => simp [derivative, language]
  | empty => simp [derivative, language]
  | one p =>
    rw [mem_one]
    by_cases hx : p x = true
    · simp [derivative, hx, language]
    · simp [derivative, hx, language]
  | either a b iha ihb => simp [derivative, mem_either, iha, ihb]
  | seq a b iha ihb =>
    have hseq : x :: w ∈ (Pattern.seq a b).language ↔
        (∃ u ∈ (a.derivative x).language, ∃ v ∈ b.language, u ++ v = w) ∨
          [] ∈ a.language ∧ w ∈ (b.derivative x).language := by
      rw [mem_seq]
      constructor
      · rintro ⟨u, hu, v, hv, huv⟩
        cases u with
        | nil => exact Or.inr ⟨hu, (ihb w).mpr (huv ▸ hv)⟩
        | cons y u =>
          obtain ⟨hy, huv⟩ := List.cons.inj huv
          exact Or.inl ⟨u, (iha u).mpr (hy ▸ hu), v, hv, huv⟩
      · rintro (⟨u, hu, v, hv, huv⟩ | ⟨hnil, hw⟩)
        · exact ⟨x :: u, (iha u).mp hu, v, hv, by rw [List.cons_append, huv]⟩
        · exact ⟨[], hnil, x :: w, (ihb w).mp hw, rfl⟩
    rw [hseq]
    by_cases hnull : a.nullable = true
    · have hnil := (nullable_iff a).mp hnull
      simp only [derivative, if_pos hnull, hnil, true_and]
      exact or_congr (mem_seq _ _ _) Iff.rfl
    · have hnil : ¬ [] ∈ a.language := fun h => hnull ((nullable_iff a).mpr h)
      simp only [derivative, if_neg hnull, hnil, false_and, or_false, mem_seq]
  | many a ih =>
    have hstar := cons_mem_kstar a.language x w
    simp only [derivative, mem_seq, ih]
    constructor
    · rintro ⟨u, hu, v, hv, huv⟩
      exact hstar.mpr ⟨u, v, hu, hv, huv⟩
    · intro h
      obtain ⟨u, v, hu, hv, huv⟩ := hstar.mp h
      exact ⟨u, hu, v, hv, huv⟩

/-- Deriving letter by letter decides the language. -/
theorem spells_iff (p : Pattern α) (w : List α) : p.spells w = true ↔ w ∈ p.language := by
  induction w generalizing p with
  | nil => exact nullable_iff p
  | cons x w ih => exact (ih _).trans (derivative_iff p x w)

/-- The pattern has no class with a character outside `q`. -/
def Within (q : α → Prop) : Pattern α → Prop
  | .never => True
  | .empty => True
  | .one p => ∀ x, p x = true → q x
  | .either a b => a.Within q ∧ b.Within q
  | .seq a b => a.Within q ∧ b.Within q
  | .many a => a.Within q

theorem within_mem (q : α → Prop) (p : Pattern α) (hp : p.Within q) (w : List α)
    (hw : w ∈ p.language) : ∀ x ∈ w, q x := by
  induction p generalizing w with
  | never => exact absurd hw (Language.notMem_zero w)
  | empty =>
    have hnil : w = [] := hw
    simp [hnil]
  | one p =>
    obtain ⟨x, hx, rfl⟩ := hw
    simpa using hp x hx
  | either a b iha ihb =>
    rcases (mem_either a b w).mp hw with ha | hb
    · exact iha hp.1 w ha
    · exact ihb hp.2 w hb
  | seq a b iha ihb =>
    obtain ⟨u, hu, v, hv, rfl⟩ := (mem_seq _ _ _).mp hw
    intro x hx
    rcases List.mem_append.mp hx with hx | hx
    · exact iha hp.1 u hu x hx
    · exact ihb hp.2 v hv x hx
  | many a ih =>
    obtain ⟨parts, rfl, hparts⟩ := Language.mem_kstar.mp hw
    intro x hx
    obtain ⟨part, hpart, hx⟩ := List.mem_flatten.mp hx
    exact ih hp part (hparts part hpart) x hx

end Pattern

end Juju.Lib

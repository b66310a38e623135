import Juju.Schemas.Combinators

namespace Juju.Schemas
open Juju.Base Juju.Lib

/-- A call that gives a value back at once, or raises at once and leaves its path alone: it is
clear of exceptions other than `SchemaError`, and accepts its value, or is not and does not. -/
inductive AtOnce (Clear Accepts : Prop) : Coerce Value → Prop
  | returns (v : Value) : Clear → Accepts → AtOnce Clear Accepts (pure v)
  | fails (message : Message) : Clear → ¬ Accepts → AtOnce Clear Accepts (fail message)
  | raises (x : Exception) : ¬ Clear → AtOnce Clear Accepts (throw (.exception x))

section library

variable (lib : Library)

/-- The values that a schema without parts gives something back for. -/
def Checker.Accepts : Checker → Value → Prop
  | .constant c, value => value.equals c = true
  | .any, _ => True
  | .bool, value => ∃ b, value = .atom (.bool b)
  | .int, value => (∃ b, value = .atom (.bool b)) ∨ ∃ i, value = .atom (.int i)
  | .float, value =>
    (∃ b, value = .atom (.bool b)) ∨ (∃ i, value = .atom (.int i)) ∨
      (∃ q, value = .atom (.float q)) ∨ ∃ f, value = .atom (.special f)
  | .string, value => ∃ points, value = .text ⟨.bytes, points⟩
  | .unicode, value => ∃ points, value = .text ⟨.unicode, points⟩
  | .regex, value =>
    (∃ pattern, value = .atom (.regex pattern)) ∨ ∃ t, value = .text t ∧ lib.compile t = .ok ()
  | .unicodeOrString encoding, value =>
    (∃ points, value = .text ⟨.unicode, points⟩) ∨
      ∃ points t, value = .text ⟨.bytes, points⟩ ∧ lib.decode encoding ⟨.bytes, points⟩ = .ok t
  | .oauthString, value =>
    ∃ points, value = .text ⟨.bytes, points⟩ ∧ (oauthParts points).length = 3 ∧
      bytes [] ∉ oauthParts points

/-- What `re.compile` and `decode` can be asked, for which they raise the error that is caught. -/
def Checker.Clear : Checker → Value → Prop
  | .regex, value =>
    (∃ pattern, value = .atom (.regex pattern)) ∨
      ∃ t, value = .text t ∧ ∀ x, lib.compile t = .error x → x = .reError
  | .unicodeOrString encoding, value =>
    ∀ points, value = .text ⟨.bytes, points⟩ →
      ∀ x, lib.decode encoding ⟨.bytes, points⟩ = .error x → x = .unicodeDecodeError
  | _, _ => True

theorem constant_atOnce (c value : Value) :
    AtOnce True (value.equals c = true) (constant c value) := by
  unfold constant
  split
  · exact .returns value trivial ‹_›
  · exact .fails _ trivial ‹_›

theorem bool_atOnce (value : Value) : AtOnce True (∃ b, value = .atom (.bool b)) (bool value) := by
  unfold bool
  split
  · exact .returns _ trivial ⟨_, rfl⟩
  · exact .fails _ trivial (not_exists.mpr ‹_›)

theorem int_atOnce (value : Value) :
    AtOnce True (Checker.Accepts lib .int value) (int value) := by
  unfold int
  split
  · exact .returns _ trivial (Or.inl ⟨_, rfl⟩)
  · exact .returns _ trivial (Or.inr ⟨_, rfl⟩)
  · exact .fails _ trivial (not_or.mpr ⟨not_exists.mpr ‹_›, not_exists.mpr ‹_›⟩)

theorem float_atOnce (value : Value) :
    AtOnce True (Checker.Accepts lib .float value) (float value) := by
  unfold float
  split
  · exact .returns _ trivial (Or.inl ⟨_, rfl⟩)
  · exact .returns _ trivial (Or.inr (Or.inl ⟨_, rfl⟩))
  · exact .returns _ trivial (Or.inr (Or.inr (Or.inl ⟨_, rfl⟩)))
  · exact .returns _ trivial (Or.inr (Or.inr (Or.inr ⟨_, rfl⟩)))
  · rename_i hbool hint hfloat hspecial
    refine .fails _ trivial ?_
    simp only [Checker.Accepts, not_or, not_exists]
    exact ⟨hbool, hint, hfloat, hspecial⟩

theorem string_atOnce (value : Value) :
    AtOnce True (∃ points, value = .text ⟨.bytes, points⟩) (string value) := by
  unfold string
  split
  · exact .returns _ trivial ⟨_, rfl⟩
  · exact .fails _ trivial (not_exists.mpr ‹_›)

theorem unicode_atOnce (value : Value) :
    AtOnce True (∃ points, value = .text ⟨.unicode, points⟩) (unicode value) := by
  unfold unicode
  split
  · exact .returns _ trivial ⟨_, rfl⟩
  · exact .fails _ trivial (not_exists.mpr ‹_›)

theorem regex_atOnce (value : Value) :
    AtOnce (Checker.Clear lib .regex value) (Checker.Accepts lib .regex value) (regex lib value) := by
  unfold regex
  split
  · exact .returns _ (Or.inl ⟨_, rfl⟩) (Or.inl ⟨_, rfl⟩)
  · rename_i t
    cases hcompile : lib.compile t with
    | ok u =>
      refine .returns _ (Or.inr ⟨t, rfl, fun x hx => ?_⟩) (Or.inr ⟨t, rfl, hcompile⟩)
      exact absurd (hcompile.symm.trans hx) (by simp)
    | error x =>
      have hclear : Checker.Clear lib .regex (.text t) ↔ x = .reError := by
        simp [Checker.Clear, Value.text, hcompile]
      by_cases hx : x = .reError
      · subst hx
        exact .fails _ (hclear.mpr rfl) (by simp [Checker.Accepts, Value.text, hcompile])
      · have hraises : AtOnce (Checker.Clear lib .regex (.text t))
            (Checker.Accepts lib .regex (.text t)) (throw (.exception x)) :=
          .raises x fun h => hx (hclear.mp h)
        cases x <;> first | exact hraises | exact absurd rfl hx
  · rename_i hpattern htext
    refine .raises _ ?_
    rintro (⟨pattern, h⟩ | ⟨t, h, -⟩)
    · exact hpattern pattern h
    · exact htext t h

theorem unicodeOrString_atOnce (encoding : String) (value : Value) :
    AtOnce (Checker.Clear lib (.unicodeOrString encoding) value)
      (Checker.Accepts lib (.unicodeOrString encoding) value)
      (unicodeOrString lib encoding value) := by
  unfold unicodeOrString
  split
  · rename_i points
    cases hdecode : lib.decode encoding ⟨.bytes, points⟩ with
    | ok t =>
      refine .returns _ ?_ (Or.inr ⟨points, t, rfl, hdecode⟩)
      simp [Checker.Clear, Value.text, hdecode]
    | error x =>
      have hclear : Checker.Clear lib (.unicodeOrString encoding) (.text ⟨.bytes, points⟩) ↔
          x = .unicodeDecodeError := by
        simp [Checker.Clear, Value.text, hdecode]
      by_cases hx : x = .unicodeDecodeError
      · subst hx
        exact .fails _ (hclear.mpr rfl) (by simp [Checker.Accepts, Value.text, hdecode])
      · have hraises : AtOnce (Checker.Clear lib (.unicodeOrString encoding) (.text ⟨.bytes, points⟩))
            (Checker.Accepts lib (.unicodeOrString encoding) (.text ⟨.bytes, points⟩))
            (throw (.exception x)) :=
          .raises x fun h => hx (hclear.mp h)
        cases x <;> first | exact hraises | exact absurd rfl hx
  · rename_i points
    exact .returns _ (by simp [Checker.Clear, Value.text]) (Or.inl ⟨points, rfl⟩)
  · rename_i hbytes hunicode
    refine .fails _ (fun points h => (hbytes points h).elim) ?_
    rintro (⟨points, h⟩ | ⟨points, t, h, -⟩)
    · exact hunicode points h
    · exact hbytes points h

theorem oauthString_atOnce (value : Value) :
    AtOnce True (Checker.Accepts lib .oauthString value) (oauthString value) := by
  unfold oauthString
  split
  · rename_i points
    have haccepts : Checker.Accepts lib .oauthString (.text ⟨.bytes, points⟩) ↔
        (oauthParts points).length = 3 ∧ bytes [] ∉ oauthParts points := by
      simp [Checker.Accepts, Value.text]
    dsimp only
    split
    · exact .fails _ trivial fun h => absurd (haccepts.mp h).1 ‹_›
    · rename_i hlength
      split
      · exact .fails _ trivial fun h => absurd ‹_› (haccepts.mp h).2
      · exact .returns _ trivial (haccepts.mpr ⟨not_not.mp hlength, ‹_›⟩)
  · rename_i hbytes
    have hstring := string_atOnce value
    unfold string at hstring ⊢
    split
    · rename_i points
      exact (hbytes points rfl).elim
    · refine .fails _ trivial ?_
      rintro ⟨points, h, -⟩
      exact hbytes points h

theorem checker_atOnce (c : Checker) (value : Value) :
    AtOnce (c.Clear lib value) (c.Accepts lib value) (c.coerce lib value) := by
  cases c with
  | constant c => exact constant_atOnce c value
  | any => exact .returns value trivial trivial
  | bool => exact bool_atOnce value
  | int => exact int_atOnce lib value
  | float => exact float_atOnce lib value
  | string => exact string_atOnce value
  | unicode => exact unicode_atOnce value
  | regex => exact regex_atOnce lib value
  | unicodeOrString encoding => exact unicodeOrString_atOnce lib encoding value
  | oauthString => exact oauthString_atOnce lib value

end library

end Juju.Schemas

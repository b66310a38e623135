import Juju.Lib.Text

namespace Juju.Lib

/-- A `str`, by its bytes, or a `unicode`, by its code points. -/
structure PythonText where
  kind : TextKind
  points : List Nat
  deriving DecidableEq

namespace PythonText

def isAscii (t : PythonText) : Bool := t.points.all (· < 128)

/-- `t == t'`. A `str` and a `unicode` are equal where both are ASCII. -/
def equals (t t' : PythonText) : Bool :=
  t.points = t'.points && (t.kind = t'.kind || t.isAscii)

/-- A text of the source, which is a `str`. -/
def literal (s : String) : PythonText := ⟨.bytes, s.toList.map Char.toNat⟩

theorem equals_iff (t t' : PythonText) :
    t.equals t' = true ↔ t.points = t'.points ∧ (t.kind = t'.kind ∨ t.isAscii = true) := by
  simp [equals]

theorem equals_refl (t : PythonText) : t.equals t = true := by
  simp [equals_iff]

theorem equals_symm (t t' : PythonText) (h : t.equals t' = true) : t'.equals t = true := by
  obtain ⟨hpoints, hkind⟩ := (equals_iff t t').mp h
  refine (equals_iff t' t).mpr ⟨hpoints.symm, hkind.imp Eq.symm fun hascii => ?_⟩
  rwa [isAscii, ← hpoints]

theorem equals_trans (t t' t'' : PythonText) (h : t.equals t' = true)
    (h' : t'.equals t'' = true) : t.equals t'' = true := by
  obtain ⟨hpoints, hkind⟩ := (equals_iff t t').mp h
  obtain ⟨hpoints', hkind'⟩ := (equals_iff t' t'').mp h'
  refine (equals_iff t t'').mpr ⟨hpoints.trans hpoints', ?_⟩
  rcases hkind with hkind | hascii
  · refine hkind'.imp hkind.trans fun hascii => ?_
    rwa [isAscii, hpoints]
  · exact Or.inr hascii

/-- Two texts of one kind are equal only if they are the same. -/
theorem equals_same (t t' : PythonText) (hkind : t.kind = t'.kind) (h : t.equals t' = true) :
    t = t' := by
  obtain ⟨hpoints, -⟩ := (equals_iff t t').mp h
  cases t
  cases t'
  simp_all

end PythonText

/-- A byte that continues a sequence. -/
def isContinuation (b : Nat) : Bool := 0x80 ≤ b && b < 0xc0

/-- `bytes.decode("utf-8")`; `none` is a `UnicodeDecodeError`. Surrogates are decoded. -/
def decodeUtf8 : List Nat → Option (List Nat)
  | [] => some []
  | a :: rest =>
    if a < 0x80 then (decodeUtf8 rest).map fun points => a :: points
    else
      match rest with
      | [] => none
      | b :: rest =>
        if isContinuation b = false then none
        else if 0xc2 ≤ a ∧ a < 0xe0 then
          (decodeUtf8 rest).map fun points => ((a - 0xc0) * 64 + (b - 0x80)) :: points
        else
          match rest with
          | [] => none
          | c :: rest =>
            if isContinuation c = false then none
            else if (a = 0xe0 ∧ 0xa0 ≤ b) ∨ (0xe1 ≤ a ∧ a < 0xf0) then
              (decodeUtf8 rest).map fun points =>
                (((a - 0xe0) * 64 + (b - 0x80)) * 64 + (c - 0x80)) :: points
            else
              match rest with
              | [] => none
              | d :: rest =>
                if isContinuation d = false then none
                else if (a = 0xf0 ∧ 0x90 ≤ b) ∨ (0xf1 ≤ a ∧ a < 0xf4) ∨ (a = 0xf4 ∧ b < 0x90) then
                  (decodeUtf8 rest).map fun points =>
                    ((((a - 0xf0) * 64 + (b - 0x80)) * 64 + (c - 0x80)) * 64 + (d - 0x80)) ::
                      points
                else none

/-- ASCII is decoded to itself. -/
theorem decodeUtf8_ascii (points : List Nat) (h : points.all (· < 128) = true) :
    decodeUtf8 points = some points := by
  induction points with
  | nil => simp [decodeUtf8]
  | cons a rest ih =>
    simp only [List.all_cons, Bool.and_eq_true, decide_eq_true_eq] at h
    have hsmall : a < 0x80 := h.1
    unfold decodeUtf8
    rw [if_pos hsmall, ih h.2]
    rfl

end Juju.Lib

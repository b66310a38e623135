import Mathlib.Algebra.Group.Nat.Defs
import Mathlib.Data.List.Basic

namespace Juju.Lib

def base64Alphabet : List Char :=
  "ABCDEFGHIJKLMNOPQRSTUVWXYZabcdefghijklmnopqrstuvwxyz0123456789+/".toList

/-- The character of a value below 64. -/
def base64Char (value : Nat) : Char := base64Alphabet.getD value '='

def base64Value (c : Char) : Option Nat := base64Alphabet.idxOf? c

/-- `binascii.b2a_base64`, without the newline at its end. -/
def b2aBase64 : List UInt8 → List Char
  | [] => []
  | [a] => [base64Char (a.toNat / 4), base64Char (a.toNat % 4 * 16), '=', '=']
  | [a, b] => [base64Char (a.toNat / 4), base64Char (a.toNat % 4 * 16 + b.toNat / 16),
      base64Char (b.toNat % 16 * 4), '=']
  | a :: b :: c :: bytes => base64Char (a.toNat / 4) ::
      base64Char (a.toNat % 4 * 16 + b.toNat / 16) ::
      base64Char (b.toNat % 16 * 4 + c.toNat / 64) :: base64Char (c.toNat % 64) :: b2aBase64 bytes

/-- The first character that is in the alphabet, or the padding. -/
def nextValid (cs : List Char) : Option Char :=
  cs.find? fun c => c = '=' ∨ c ∈ base64Alphabet

/-- A padding that stands too early in its group of four. -/
def ignoredPad (quadPos : Nat) (rest : List Char) : Prop :=
  quadPos < 2 ∨ (quadPos = 2 ∧ nextValid rest ≠ some '=')

instance (quadPos : Nat) (rest : List Char) : Decidable (ignoredPad quadPos rest) :=
  inferInstanceAs (Decidable (_ ∨ _))

/-- `binascii.a2b_base64`, in the middle of its input; `none` is "Incorrect padding". Characters
outside the alphabet are skipped, and a padding ends the input. -/
def a2bBase64 : List Char → Nat → Nat → Nat → Option (List UInt8)
  | [], _, _, leftBits => if leftBits = 0 then some [] else none
  | c :: cs, quadPos, leftChar, leftBits =>
    if c = '=' then
      if ignoredPad quadPos cs then a2bBase64 cs quadPos leftChar leftBits else some []
    else
      match base64Value c with
      | none => a2bBase64 cs quadPos leftChar leftBits
      | some value =>
        let leftChar := leftChar * 64 + value
        let quadPos := (quadPos + 1) % 4
        if leftBits + 6 < 8 then a2bBase64 cs quadPos leftChar (leftBits + 6)
        else
          let leftBits := leftBits + 6 - 8
          (a2bBase64 cs quadPos (leftChar % 2 ^ leftBits) leftBits).map fun bytes =>
            UInt8.ofNat (leftChar / 2 ^ leftBits) :: bytes

section roundTrip

theorem base64Value_char (value : Nat) (h : value < 64) :
    base64Char value ≠ '=' ∧ base64Value (base64Char value) = some value := by
  have hall : ∀ v : Fin 64, base64Char v ≠ '=' ∧ base64Value (base64Char v) = some v.val := by
    decide +kernel
  exact hall ⟨value, h⟩

/-- A character of the alphabet that does not fill a byte. -/
theorem a2b_char_short (value : Nat) (h : value < 64) (cs : List Char) (quadPos leftChar : Nat) :
    a2bBase64 (base64Char value :: cs) quadPos leftChar 0 =
      a2bBase64 cs ((quadPos + 1) % 4) (leftChar * 64 + value) 6 := by
  obtain ⟨hpad, hvalue⟩ := base64Value_char value h
  simp [a2bBase64, hpad, hvalue]

/-- A character of the alphabet that fills a byte. -/
theorem a2b_char_byte (value : Nat) (h : value < 64) (cs : List Char)
    (quadPos leftChar leftBits : Nat) (hbits : 2 ≤ leftBits) :
    a2bBase64 (base64Char value :: cs) quadPos leftChar leftBits =
      (a2bBase64 cs ((quadPos + 1) % 4) ((leftChar * 64 + value) % 2 ^ (leftBits - 2))
        (leftBits - 2)).map fun bytes =>
          UInt8.ofNat ((leftChar * 64 + value) / 2 ^ (leftBits - 2)) :: bytes := by
  obtain ⟨hpad, hvalue⟩ := base64Value_char value h
  have hfull : ¬ leftBits + 6 < 8 := by omega
  have hleft : leftBits + 6 - 8 = leftBits - 2 := by omega
  simp only [a2bBase64, hpad, hvalue, if_false, if_neg hfull, hleft]

theorem byte_toNat (a : UInt8) (n : Nat) (h : n = a.toNat) : UInt8.ofNat n = a := by
  rw [h, UInt8.ofNat_toNat]

/-- What is encoded decodes to itself. -/
theorem a2b_b2a (bytes : List UInt8) : a2bBase64 (b2aBase64 bytes) 0 0 0 = some bytes := by
  induction bytes using b2aBase64.induct with
  | case1 => rfl
  | case2 a =>
    have ha := a.toNat_lt
    rw [b2aBase64, a2b_char_short _ (by omega), a2b_char_byte _ (by omega) _ _ _ _ (by omega)]
    have hlast : a2bBase64 ['=', '='] 2 ((a.toNat / 4 * 64 + a.toNat % 4 * 16) % 2 ^ 4) 4 =
        some [] := by
      simp [a2bBase64, ignoredPad, nextValid]
    have hbyte := byte_toNat a ((a.toNat / 4 * 64 + a.toNat % 4 * 16) / 2 ^ 4) (by omega)
    simp only [Nat.zero_mul, Nat.zero_add, Nat.reduceAdd, Nat.reduceMod, Nat.reduceSub, hlast, hbyte,
      Option.map_some]
  | case3 a b =>
    have ha := a.toNat_lt
    have hb := b.toNat_lt
    rw [b2aBase64, a2b_char_short _ (by omega), a2b_char_byte _ (by omega) _ _ _ _ (by omega),
      a2b_char_byte _ (by omega) _ _ _ _ (by omega)]
    have hlast (left : Nat) : a2bBase64 ['='] 3 left 2 = some [] := by
      simp [a2bBase64, ignoredPad]
    have hfirst := byte_toNat a
      ((a.toNat / 4 * 64 + (a.toNat % 4 * 16 + b.toNat / 16)) / 2 ^ 4) (by omega)
    have hsecond := byte_toNat b
      (((a.toNat / 4 * 64 + (a.toNat % 4 * 16 + b.toNat / 16)) % 2 ^ 4 * 64 + b.toNat % 16 * 4) /
        2 ^ 2) (by omega)
    simp only [Nat.zero_mul, Nat.zero_add, Nat.reduceAdd, Nat.reduceMod, Nat.reduceSub, hlast,
      hfirst, hsecond, Option.map_some]
  | case4 a b c bytes ih =>
    have ha := a.toNat_lt
    have hb := b.toNat_lt
    have hc := c.toNat_lt
    rw [b2aBase64, a2b_char_short _ (by omega), a2b_char_byte _ (by omega) _ _ _ _ (by omega),
      a2b_char_byte _ (by omega) _ _ _ _ (by omega), a2b_char_byte _ (by omega) _ _ _ _ (by omega)]
    have hfirst := byte_toNat a
      ((a.toNat / 4 * 64 + (a.toNat % 4 * 16 + b.toNat / 16)) / 2 ^ 4) (by omega)
    have hsecond := byte_toNat b
      (((a.toNat / 4 * 64 + (a.toNat % 4 * 16 + b.toNat / 16)) % 2 ^ 4 * 64 +
        (b.toNat % 16 * 4 + c.toNat / 64)) / 2 ^ 2) (by omega)
    have hthird := byte_toNat c
      ((((a.toNat / 4 * 64 + (a.toNat % 4 * 16 + b.toNat / 16)) % 2 ^ 4 * 64 +
        (b.toNat % 16 * 4 + c.toNat / 64)) % 2 ^ 2 * 64 + c.toNat % 64) / 1) (by omega)
    simp only [Nat.zero_mul, Nat.zero_add, Nat.reduceAdd, Nat.reduceMod, Nat.reduceSub, hfirst,
      hsecond, hthird, Nat.pow_zero, Nat.mod_one, ih, Option.map_some]

end roundTrip

/-- `base64.b64encode`, of the bytes of a text. -/
def b64encode (s : String) : String := String.ofList (b2aBase64 s.toByteArray.data.toList)

/-- `base64.b64decode`; `none` where it raises, or where the bytes are no text. -/
def b64decode (s : String) : Option String :=
  (a2bBase64 s.toList 0 0 0).bind fun bytes => String.fromUTF8? ⟨bytes.toArray⟩

theorem b64decode_encode (s : String) : b64decode (b64encode s) = some s := by
  have hvalid := s.isValidUTF8
  rw [b64decode, b64encode, String.toList_ofList, a2b_b2a, Option.bind_some, Array.toArray_toList,
    String.fromUTF8?, dif_pos hvalid]
  rfl

end Juju.Lib

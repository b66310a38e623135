import Mathlib.Data.List.DropRight

namespace Juju.Lib

section cut

variable {α : Type} [DecidableEq α] (c : α)

/-- What stands before and after the first `c`. -/
def cutFirst : List α → Option (List α × List α)
  | [] => none
  | x :: l => if x = c then some ([], l) else (cutFirst l).map fun e => (x :: e.1, e.2)

/-- What stands before and after the last `c`. -/
def cutLast (l : List α) : Option (List α × List α) :=
  (cutFirst c l.reverse).map fun e => (e.2.reverse, e.1.reverse)

theorem cutFirst_eq_some (l a b : List α) :
    cutFirst c l = some (a, b) ↔ l = a ++ c :: b ∧ c ∉ a := by
  induction l generalizing a with
  | nil => simp [cutFirst]
  | cons x l ih =>
    by_cases hx : x = c
    · cases a with
      | nil => simp [cutFirst, hx, eq_comm]
      | cons y a =>
        have hne : x = y → c = y := fun h => hx.symm.trans h
        simp only [cutFirst, if_pos hx, Option.some.injEq, Prod.mk.injEq, List.nil_eq,
          reduceCtorEq, false_and, List.cons_append, List.cons.injEq, List.mem_cons, not_or]
        simp only [false_iff, not_and]
        intro h hy
        exact absurd (hne h.1) hy
    · cases a with
      | nil => simp [cutFirst, hx]
      | cons y a =>
        have hc : x = y → c ≠ y := fun h hcy => hx (h.trans hcy.symm)
        simp only [cutFirst, if_neg hx, Option.map_eq_some_iff, Prod.mk.injEq, Prod.exists,
          List.cons.injEq, List.cons_append, List.mem_cons, not_or]
        constructor
        · rintro ⟨u, v, huv, ⟨hy, rfl⟩, rfl⟩
          obtain ⟨hl, hu⟩ := (ih u).mp huv
          exact ⟨⟨hy, hl⟩, hc hy, hu⟩
        · rintro ⟨⟨hy, hl⟩, -, ha⟩
          exact ⟨a, b, (ih a).mpr ⟨hl, ha⟩, ⟨hy, rfl⟩, rfl⟩

theorem cutFirst_eq_none (l : List α) : cutFirst c l = none ↔ c ∉ l := by
  induction l with
  | nil => simp [cutFirst]
  | cons x l ih =>
    by_cases hx : x = c
    · simp [cutFirst, hx]
    · have hne : c ≠ x := fun h => hx h.symm
      simp [cutFirst, hx, ih, hne]

theorem cutLast_eq_some (l a b : List α) :
    cutLast c l = some (a, b) ↔ l = a ++ c :: b ∧ c ∉ b := by
  have hreverse : l.reverse = b.reverse ++ c :: a.reverse ↔ l = a ++ c :: b := by
    rw [← List.reverse_inj]
    simp
  simp only [cutLast, Option.map_eq_some_iff, Prod.mk.injEq, Prod.exists]
  constructor
  · rintro ⟨u, v, huv, rfl, rfl⟩
    obtain ⟨hl, hu⟩ := (cutFirst_eq_some c _ u v).mp huv
    exact ⟨by rw [← List.reverse_reverse l, hl]; simp, by simpa using hu⟩
  · rintro ⟨hl, hb⟩
    refine ⟨b.reverse, a.reverse, ?_, by simp, by simp⟩
    exact (cutFirst_eq_some c _ _ _).mpr ⟨hreverse.mpr hl, by simpa using hb⟩

theorem cutLast_eq_none (l : List α) : cutLast c l = none ↔ c ∉ l := by
  simp [cutLast, cutFirst_eq_none]

/-- A part between two separators has none inside. -/
theorem not_mem_splitOn (l : List α) : ∀ part ∈ l.splitOn c, c ∉ part := by
  induction l with
  | nil => simp
  | cons x l ih =>
    intro part hpart
    rw [List.splitOn_cons_eq_if_modifyHead] at hpart
    split at hpart
    · rcases List.mem_cons.mp hpart with rfl | hpart
      · simp
      · exact ih part hpart
    · rename_i hx
      obtain ⟨first, parts, hparts⟩ := List.exists_cons_of_ne_nil (List.splitOn_ne_nil c l)
      rw [hparts, List.modifyHead_cons] at hpart
      rw [hparts] at ih
      rcases List.mem_cons.mp hpart with rfl | hpart
      · have hne : c ≠ x := fun h => hx (beq_iff_eq.mpr h.symm)
        simpa [hne] using ih first (List.mem_cons_self ..)
      · exact ih part (List.mem_cons_of_mem _ hpart)

/-- Splitting undoes joining, and nothing else splits into the same parts. -/
theorem splitOn_eq_iff (l : List α) (parts : List (List α)) (hne : parts ≠ []) :
    l.splitOn c = parts ↔ l = [c].intercalate parts ∧ ∀ part ∈ parts, c ∉ part := by
  constructor
  · intro h
    exact ⟨by rw [← h, List.intercalate_splitOn], h ▸ not_mem_splitOn c l⟩
  · rintro ⟨rfl, hparts⟩
    exact List.splitOn_intercalate c hparts hne

end cut

/-- A text is a `str`, whose characters are bytes, or a `unicode`. -/
inductive TextKind where
  | bytes
  | unicode
  deriving DecidableEq

/-- The zeros of the decimal digits, as they are in Unicode 5.2. -/
def decimalZeros : List Nat :=
  [0x30, 0x660, 0x6f0, 0x7c0, 0x966, 0x9e6, 0xa66, 0xae6, 0xb66, 0xbe6, 0xc66, 0xce6, 0xd66,
    0xe50, 0xed0, 0xf20, 0x1040, 0x1090, 0x17e0, 0x1810, 0x1946, 0x19d0, 0x1a80, 0x1a90, 0x1b50,
    0x1bb0, 0x1c40, 0x1c50, 0xa620, 0xa8d0, 0xa900, 0xa9d0, 0xaa50, 0xabf0, 0xff10, 0x104a0,
    0x1d7ce, 0x1d7d8, 0x1d7e2, 0x1d7ec, 0x1d7f6]

/-- The digits that are not decimal, such as superscripts, from the first to the last. -/
def otherDigits : List (Nat × Nat) :=
  [(0xb2, 0xb3), (0xb9, 0xb9), (0x1369, 0x1371), (0x19da, 0x19da), (0x2070, 0x2070),
    (0x2074, 0x2079), (0x2080, 0x2089), (0x2460, 0x2468), (0x2474, 0x247c), (0x2488, 0x2490),
    (0x24ea, 0x24ea), (0x24f5, 0x24fd), (0x24ff, 0x24ff), (0x2776, 0x277e), (0x2780, 0x2788),
    (0x278a, 0x2792), (0x10a40, 0x10a43), (0x10e60, 0x10e68), (0x1f100, 0x1f10a)]

def inRange (x : Char) (range : Nat × Nat) : Bool := range.1 ≤ x.toNat && x.toNat ≤ range.2

namespace TextKind

variable (k : TextKind)

def spaces : TextKind → List (Nat × Nat)
  | .bytes => [(0x9, 0xd), (0x20, 0x20)]
  | .unicode =>
    [(0x9, 0xd), (0x1c, 0x20), (0x85, 0x85), (0xa0, 0xa0), (0x1680, 0x1680), (0x180e, 0x180e),
      (0x2000, 0x200a), (0x2028, 0x2029), (0x202f, 0x202f), (0x205f, 0x205f), (0x3000, 0x3000)]

def zeros : TextKind → List Nat
  | .bytes => [0x30]
  | .unicode => decimalZeros

def digitRanges : TextKind → List (Nat × Nat)
  | .bytes => [(0x30, 0x39)]
  | .unicode => decimalZeros.map (fun z => (z, z + 9)) ++ otherDigits

/-- The value of a decimal digit. -/
def decimal (x : Char) : Option Nat :=
  (k.zeros.find? fun z => inRange x (z, z + 9)).map fun z => x.toNat - z

def isSpace (x : Char) : Bool := k.spaces.any (inRange x)

def isDigitChar (x : Char) : Bool := k.digitRanges.any (inRange x)

/-- `text.isdigit()`. -/
def isdigit (text : List Char) : Bool := text ≠ [] && text.all k.isDigitChar

/-- A run of decimal digits, read in base ten. -/
def natural (text : List Char) : Option Nat :=
  if text = [] then none
  else (text.mapM k.decimal).map fun digits => digits.foldl (fun n d => 10 * n + d) 0

def strip (text : List Char) : List Char := (text.dropWhile k.isSpace).rdropWhile k.isSpace

/-- `int(text)`, which raises `ValueError` where this is `none`. Spaces may follow the sign. -/
def int (text : List Char) : Option Int :=
  match k.strip text with
  | '-' :: digits => (k.natural (digits.dropWhile k.isSpace)).map fun n => -(n : Int)
  | '+' :: digits => (k.natural (digits.dropWhile k.isSpace)).map Int.ofNat
  | digits => (k.natural digits).map Int.ofNat

theorem decimal_isDigitChar (x : Char) (h : k.decimal x ≠ none) : k.isDigitChar x = true := by
  obtain ⟨d, hd⟩ := Option.ne_none_iff_exists'.mp h
  obtain ⟨z, hz, -⟩ := Option.map_eq_some_iff.mp hd
  have hin := List.find?_some hz
  have hmem := List.mem_of_find?_eq_some hz
  cases k with
  | bytes =>
    rw [List.mem_singleton.mp hmem] at hin
    simpa [isDigitChar, digitRanges] using hin
  | unicode =>
    refine List.any_eq_true.mpr ⟨(z, z + 9), ?_, hin⟩
    exact List.mem_append_left _ (List.mem_map.mpr ⟨z, hmem, rfl⟩)

/-- A character of a range without digits is none. -/
theorem isDigitChar_outside (x : Char) (range : Nat × Nat) (hin : inRange x range = true)
    (hapart : ∀ digits ∈ k.digitRanges, digits.2 < range.1 ∨ range.2 < digits.1) :
    k.isDigitChar x = false := by
  refine List.any_eq_false.mpr fun digits hdigits => ?_
  have hor := hapart digits hdigits
  simp only [inRange, Bool.and_eq_true, decide_eq_true_eq] at hin ⊢
  omega

/-- No digit is a space or a sign. -/
theorem isDigitChar_disjoint (x : Char) (h : k.isDigitChar x = true) :
    k.isSpace x = false ∧ x ≠ '-' ∧ x ≠ '+' := by
  have hapart : ∀ range ∈ k.spaces ++ [(0x2d, 0x2d), (0x2b, 0x2b)],
      ∀ digits ∈ k.digitRanges, digits.2 < range.1 ∨ range.2 < digits.1 := by
    cases k <;> decide
  have hout : ∀ range ∈ k.spaces ++ [(0x2d, 0x2d), (0x2b, 0x2b)], inRange x range = false := by
    intro range hrange
    by_contra hin
    have hno := k.isDigitChar_outside x range (by simpa using hin) (hapart range hrange)
    simp [hno] at h
  refine ⟨?_, ?_, ?_⟩
  · exact List.any_eq_false.mpr fun range hrange => by
      simp [hout range (List.mem_append_left _ hrange)]
  · rintro rfl
    exact absurd (hout (0x2d, 0x2d) (by simp)) (by decide)
  · rintro rfl
    exact absurd (hout (0x2b, 0x2b) (by simp)) (by decide)

theorem strip_eq_self (text : List Char) (h : ∀ x ∈ text, k.isSpace x = false) :
    k.strip text = text := by
  have hdrop (l : List Char) (hl : ∀ x ∈ l, k.isSpace x = false) :
      l.dropWhile k.isSpace = l := by
    cases l with
    | nil => rfl
    | cons x l => rw [List.dropWhile_cons_of_neg (by simp [hl x])]
  have hreverse : ∀ x ∈ text.reverse, k.isSpace x = false := by simpa using h
  rw [strip, hdrop text h, List.rdropWhile, hdrop _ hreverse, List.reverse_reverse]

/-- A run of digits is read as it stands. -/
theorem int_digits (text : List Char) (h : ∀ x ∈ text, k.isDigitChar x = true) :
    k.int text = (k.natural text).map Int.ofNat := by
  have hstrip := k.strip_eq_self text fun x hx => (k.isDigitChar_disjoint x (h x hx)).1
  rw [int, hstrip]
  cases text with
  | nil => rfl
  | cons x text =>
    obtain ⟨-, hminus, hplus⟩ := k.isDigitChar_disjoint x (h x (List.mem_cons_self ..))
    split
    · rename_i he
      exact absurd (List.cons.inj he).1 hminus
    · rename_i he
      exact absurd (List.cons.inj he).1 hplus
    · rfl

theorem natural_eq_none (text : List Char) :
    k.natural text = none ↔ text = [] ∨ ∃ x ∈ text, k.decimal x = none := by
  have hvalues (l : List Char) :
      l.mapM k.decimal = none ↔ ∃ x ∈ l, k.decimal x = none := by
    induction l with
    | nil => simp
    | cons x l ih =>
      cases hx : k.decimal x with
      | none => simp [List.mapM_cons, hx]
      | some d =>
        cases hl : l.mapM k.decimal with
        | none => simpa [List.mapM_cons, hx, hl] using ih
        | some ds => simpa [List.mapM_cons, hx, hl] using ih
  by_cases hne : text = []
  · simp [natural, hne]
  · simp [natural, hne, hvalues]

theorem decimal_ascii (x : Char) (h : x.isDigit = true) :
    k.decimal x = some (x.toNat - '0'.toNat) := by
  have hin : inRange x (0x30, 0x30 + 9) = true := by
    simpa [inRange, Char.isDigit, Char.le_def, UInt32.le_iff_toNat_le] using h
  cases k with
  | bytes => simp [decimal, zeros, hin]
  | unicode => simp [decimal, zeros, decimalZeros, hin]

theorem natural_ascii (text : List Char) (hne : text ≠ []) (h : ∀ x ∈ text, x.isDigit = true) :
    k.natural text = some (Nat.ofDigitChars 10 text 0) := by
  have hvalues (l : List Char) (hl : ∀ x ∈ l, x.isDigit = true) :
      l.mapM k.decimal = some (l.map fun x => x.toNat - '0'.toNat) := by
    induction l with
    | nil => simp
    | cons x l ih =>
      have hx := k.decimal_ascii x (hl x (List.mem_cons_self ..))
      have hrest := ih fun y hy => hl y (List.mem_cons_of_mem _ hy)
      simp [List.mapM_cons, hx, hrest]
  rw [natural, if_neg hne, hvalues text h, Option.map_some, List.foldl_map,
    Nat.ofDigitChars_eq_foldl]

theorem ascii_isDigitChar (text : List Char) (h : ∀ x ∈ text, x.isDigit = true) :
    ∀ x ∈ text, k.isDigitChar x = true :=
  fun x hx => k.decimal_isDigitChar x (by simp [k.decimal_ascii x (h x hx)])

theorem toDigits_isDigit (n : Nat) : ∀ x ∈ Nat.toDigits 10 n, x.isDigit = true :=
  fun _ hx => Nat.isDigit_of_mem_toDigits (by decide) (by decide) hx

/-- A number that is printed is read back. -/
theorem int_toDigits (n : Nat) : k.int (Nat.toDigits 10 n) = some (n : Int) := by
  have hascii := toDigits_isDigit n
  rw [k.int_digits _ (k.ascii_isDigitChar _ hascii),
    k.natural_ascii _ Nat.toDigits_ne_nil hascii, Nat.ofDigitChars_ten_toDigits]
  rfl

theorem isdigit_toDigits (n : Nat) : k.isdigit (Nat.toDigits 10 n) = true := by
  have hall := k.ascii_isDigitChar _ (toDigits_isDigit n)
  simpa [isdigit, Nat.toDigits_ne_nil] using hall

end TextKind

end Juju.Lib

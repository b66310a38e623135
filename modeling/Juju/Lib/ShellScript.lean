import Mathlib.Data.List.Basic

namespace Juju.Lib

/-- How the next character of a word is quoted. -/
inductive ShellQuoting where
  | bare
  | single
  | double

/-- Where a shell stands in a script of assignments. -/
inductive ShellPoint where
  | line
  | name (name : List Char)
  | value (name value : List Char) (quoting : ShellQuoting)

/-- A shell in a script, with the assignments that it has carried out. -/
abbrev ShellState := ShellPoint × List (List Char × List Char)

def isNameStart (c : Char) : Bool := c.isAlpha || c = '_'

def isNameChar (c : Char) : Bool := c.isAlphanum || c = '_'

/-- A character that stands for itself in a word that is not quoted. -/
def isPlainChar (c : Char) : Bool := c.isAlphanum || c ∈ "@%_-+=:,./".toList

def apostrophe : Char := '\x27'

def quotationMark : Char := '\x22'

/-- A shell reads a character. Nothing but assignments of literal words is read: no blank, no
operator, no expansion. -/
def shellStep : ShellState → Char → Option ShellState
  | (.line, done), c =>
    if c = '\n' then some (.line, done)
    else if isNameStart c then some (.name [c], done)
    else none
  | (.name name, done), c =>
    if c = '=' then some (.value name [] .bare, done)
    else if isNameChar c then some (.name (name ++ [c]), done)
    else none
  | (.value name value .bare, done), c =>
    if c = '\n' then some (.line, done ++ [(name, value)])
    else if c = apostrophe then some (.value name value .single, done)
    else if c = quotationMark then some (.value name value .double, done)
    else if isPlainChar c then some (.value name (value ++ [c]) .bare, done)
    else none
  | (.value name value .single, done), c =>
    if c = apostrophe then some (.value name value .bare, done)
    else some (.value name (value ++ [c]) .single, done)
  | (.value name value .double, done), c =>
    if c = quotationMark then some (.value name value .bare, done)
    else if c ∈ "$`\\".toList then none
    else some (.value name (value ++ [c]) .double, done)

/-- The assignments of a script, if it has nothing else. -/
def readShell (script : List Char) : Option (List (List Char × List Char)) :=
  match script.foldlM shellStep (.line, []) with
  | some (.line, done) => some done
  | _ => none

/-- A word that a shell reads as `s`: quoted with apostrophes if a character needs it, an apostrophe
among quotation marks. -/
def shellQuote (s : List Char) : List Char :=
  if s.all isPlainChar then
    if s = [] then [apostrophe, apostrophe] else s
  else
    apostrophe :: (s.flatMap fun c =>
      if c = apostrophe then [apostrophe, quotationMark, apostrophe, quotationMark, apostrophe]
      else [c]) ++ [apostrophe]

/-- The value that a variable has after the assignments, if there is one to it. -/
def lastAssigned (name : List Char) (assignments : List (List Char × List Char)) :
    Option (List Char) :=
  (assignments.reverse.find? fun a => a.1 = name).map Prod.snd

/-- A name that may be assigned to. -/
def IsShellName (name : List Char) : Prop :=
  ∃ c cs, name = c :: cs ∧ isNameStart c = true ∧ ∀ d ∈ cs, isNameChar d = true

section reading

theorem plain_ne (c : Char) (h : isPlainChar c = true) :
    c ≠ '\n' ∧ c ≠ apostrophe ∧ c ≠ quotationMark := by
  refine ⟨?_, ?_, ?_⟩ <;> rintro rfl <;> exact absurd h (by decide)

theorem nameStart_ne (c : Char) (h : isNameStart c = true) : c ≠ '\n' := by
  rintro rfl
  exact absurd h (by decide)

theorem nameChar_ne (c : Char) (h : isNameChar c = true) : c ≠ '=' := by
  rintro rfl
  exact absurd h (by decide)

variable (name value s : List Char) (done : List (List Char × List Char))

theorem read_plain (h : ∀ c ∈ s, isPlainChar c = true) :
    s.foldlM shellStep (.value name value .bare, done) =
      some (.value name (value ++ s) .bare, done) := by
  induction s generalizing value with
  | nil => simp
  | cons c s ih =>
    obtain ⟨hc, hs⟩ := List.forall_mem_cons.mp h
    obtain ⟨hnewline, happ, hquot⟩ := plain_ne c hc
    have hstep : shellStep (.value name value .bare, done) c =
        some (.value name (value ++ [c]) .bare, done) := by
      simp [shellStep, hnewline, happ, hquot, hc]
    rw [List.foldlM_cons, hstep]
    refine (ih _ hs).trans ?_
    rw [List.append_assoc]
    rfl

/-- Inside apostrophes everything is read as it is, and an escaped apostrophe as one. -/
theorem read_escaped :
    (s.flatMap fun c =>
      if c = apostrophe then [apostrophe, quotationMark, apostrophe, quotationMark, apostrophe]
      else [c]).foldlM shellStep (.value name value .single, done) =
      some (.value name (value ++ s) .single, done) := by
  induction s generalizing value with
  | nil => simp
  | cons c s ih =>
    rw [List.flatMap_cons, List.foldlM_append]
    have hstep : (if c = apostrophe then
          [apostrophe, quotationMark, apostrophe, quotationMark, apostrophe] else [c]).foldlM
        shellStep (.value name value .single, done) =
          some (.value name (value ++ [c]) .single, done) := by
      by_cases hc : c = apostrophe
      · rw [if_pos hc, hc]
        rfl
      · rw [if_neg hc]
        simp [shellStep, hc]
    rw [hstep]
    refine (ih _).trans ?_
    rw [List.append_assoc]
    rfl

theorem read_quoted :
    (shellQuote s).foldlM shellStep (.value name value .bare, done) =
      some (.value name (value ++ s) .bare, done) := by
  unfold shellQuote
  split
  · rename_i hplain
    split
    · rename_i hempty
      rw [hempty, List.append_nil]
      rfl
    · exact read_plain name value s done (List.all_eq_true.mp hplain)
  · have hopen : shellStep (.value name value .bare, done) apostrophe =
        some (.value name value .single, done) := rfl
    have hclose : shellStep (.value name (value ++ s) .single, done) apostrophe =
        some (.value name (value ++ s) .bare, done) := rfl
    rw [List.cons_append, List.foldlM_cons, hopen]
    simp only [Option.bind_eq_bind, Option.bind_some]
    rw [List.foldlM_append, read_escaped]
    simp [hclose]

theorem read_name (cs : List Char) (h : ∀ c ∈ cs, isNameChar c = true) :
    cs.foldlM shellStep (.name name, done) = some (.name (name ++ cs), done) := by
  induction cs generalizing name with
  | nil => simp
  | cons c cs ih =>
    obtain ⟨hc, hcs⟩ := List.forall_mem_cons.mp h
    have hstep : shellStep (.name name, done) c = some (.name (name ++ [c]), done) := by
      simp [shellStep, nameChar_ne c hc, hc]
    rw [List.foldlM_cons, hstep]
    refine (ih _ hcs).trans ?_
    rw [List.append_assoc]
    rfl

/-- A word that stands for a value, also at the end of another word. -/
def ReadsAs (word value : List Char) : Prop :=
  ∀ name before done, word.foldlM shellStep (.value name before .bare, done) =
    some (.value name (before ++ value) .bare, done)

theorem empty_readsAs : ReadsAs [] [] := by
  intro name before done
  simp

theorem quote_readsAs : ReadsAs (shellQuote s) s := fun name before done =>
  read_quoted name before s done

/-- The line that assigns a word. -/
def assignmentLine (word : List Char) : List Char := name ++ '=' :: word ++ ['\n']

theorem read_line (word : List Char) (hname : IsShellName name) (hword : ReadsAs word value) :
    (assignmentLine name word).foldlM shellStep (.line, done) =
      some (.line, done ++ [(name, value)]) := by
  obtain ⟨c, cs, rfl, hc, hcs⟩ := hname
  have hstart : shellStep (.line, done) c = some (.name [c], done) := by
    simp [shellStep, nameStart_ne c hc, hc]
  have hequals : shellStep (.name (c :: cs), done) '=' =
      some (.value (c :: cs) [] .bare, done) := rfl
  have hend : shellStep (.value (c :: cs) value .bare, done) '\n' =
      some (.line, done ++ [(c :: cs, value)]) := rfl
  have hread := hword (c :: cs) [] done
  rw [List.nil_append] at hread
  unfold assignmentLine
  rw [List.foldlM_append, List.foldlM_append, List.foldlM_cons, hstart]
  simp only [Option.bind_eq_bind, Option.bind_some]
  rw [read_name _ _ cs hcs]
  simp only [Option.bind_some, List.singleton_append, List.foldlM_cons, hequals]
  simp [hread, hend]

/-- A script of lines that assign words to names is read as the assignments of their values. -/
theorem readShell_lines (lines : List (List Char × List Char × List Char))
    (h : ∀ l ∈ lines, IsShellName l.1 ∧ ReadsAs l.2.1 l.2.2) :
    readShell (lines.flatMap fun l => assignmentLine l.1 l.2.1) =
      some (lines.map fun l => (l.1, l.2.2)) := by
  have hread (done : List (List Char × List Char)) :
      (lines.flatMap fun l => assignmentLine l.1 l.2.1).foldlM shellStep (.line, done) =
        some (.line, done ++ lines.map fun l => (l.1, l.2.2)) := by
    induction lines generalizing done with
    | nil => simp
    | cons l lines ih =>
      obtain ⟨hl, hrest⟩ := List.forall_mem_cons.mp h
      rw [List.flatMap_cons, List.foldlM_append, read_line l.1 l.2.2 done l.2.1 hl.1 hl.2]
      refine (ih hrest _).trans ?_
      rw [List.append_assoc]
      rfl
  unfold readShell
  rw [hread]
  rfl

end reading

section assigned

variable (name : List Char) (assignments : List (List Char × List Char))

theorem lastAssigned_none (h : ∀ a ∈ assignments, a.1 ≠ name) :
    lastAssigned name assignments = none := by
  unfold lastAssigned
  rw [List.find?_eq_none.mpr]
  · rfl
  · intro a ha
    simpa using h a (List.mem_reverse.mp ha)

theorem lastAssigned_append (after : List (List Char × List Char)) :
    lastAssigned name (assignments ++ after) =
      (lastAssigned name after).or (lastAssigned name assignments) := by
  unfold lastAssigned
  rw [List.reverse_append, List.find?_append, Option.map_or]

theorem lastAssigned_last (a : List Char × List Char) (after : List (List Char × List Char))
    (h : ∀ b ∈ after, b.1 ≠ a.1) :
    lastAssigned a.1 (assignments ++ a :: after) = some a.2 := by
  rw [lastAssigned_append, ← List.singleton_append, lastAssigned_append,
    lastAssigned_none a.1 after h]
  simp [lastAssigned]

theorem lastAssigned_cleared (names : List (List Char)) :
    lastAssigned name (names.map fun n => (n, [])) = if name ∈ names then some [] else none := by
  split
  · rename_i hmem
    obtain ⟨a, ha⟩ : ∃ a, (names.map fun n => (n, ([] : List Char))).reverse.find?
        (fun a => a.1 = name) = some a := by
      rw [← Option.isSome_iff_exists, List.find?_isSome]
      exact ⟨(name, []), List.mem_reverse.mpr (List.mem_map_of_mem hmem), decide_eq_true rfl⟩
    obtain ⟨n, -, rfl⟩ := List.mem_map.mp (List.mem_reverse.mp (List.mem_of_find?_eq_some ha))
    rw [lastAssigned, ha]
    rfl
  · rename_i hmem
    apply lastAssigned_none
    rintro a ha rfl
    obtain ⟨n, hn, rfl⟩ := List.mem_map.mp ha
    exact hmem hn

end assigned

end Juju.Lib

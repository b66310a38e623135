import Juju.Base.Dict
import Juju.Lib.ShellScript
import Mathlib.Data.List.Sort
import Mathlib.Data.List.TakeWhile
import Mathlib.Data.String.Basic

namespace Juju.Hooks
open Juju.Base Juju.Lib

/-- What the unit agent answers to `relation-get`. -/
inductive RelationGetResult where
  | value (value : String)
  | settings (settings : Dict String String)

/-- `BAD_CHARS` -/
def badChars : List Char := "-./:()<>|?*\\".toList

def upper (s : List Char) : List Char := s.map Char.toUpper

/-- `BAD_CHARS.sub("_", s)` -/
def subBadChars (s : List Char) : List Char := s.map fun c => if c ∈ badChars then '_' else c

/-- The variable that a setting is printed as. -/
def varName (key : String) : List Char :=
  "VAR_".toList ++ upper (subBadChars (upper key.toList))

/-- `UnitAgentServer.relation_get`, given the settings of the unit. -/
def serverRelationGet (settings : Dict String String) (settingName : String) :
    RelationGetResult :=
  if settingName ≠ "" then .value ((settings.lookup settingName).getD "") else .settings settings

namespace RelationGetCli

/-- `run` returns the result, and leaves the name of the setting. -/
def run (relationGet : String → RelationGetResult) (settingsName : String) :
    RelationGetResult × String :=
  let settingsName := if settingsName = "-" then "" else settingsName
  (relationGet settingsName, settingsName)

/-- The dictionary that `format_shell` prints; a result of the other kind is never returned. -/
def shown (settingsName : String) : RelationGetResult → Option (Dict String String)
  | .value value =>
    if settingsName ≠ "" ∧ settingsName ≠ "-" then
      some ((∅ : Dict String String).insert (String.ofList (upper settingsName.toList)) value)
    else none
  | .settings settings =>
    if settingsName ≠ "" ∧ settingsName ≠ "-" then none else some settings

def sortedItems (d : Dict String String) : List (Sigma fun _ : String => String) :=
  d.entries.insertionSort fun a b => a.1 ≤ b.1

/-- The variables of the environment that must not be there. -/
def errs (environ : Dict String String) : List String :=
  ((sortedItems environ).map Sigma.fst).filter fun k => "VAR_".toList.isPrefixOf k.toList

def warning : List Char :=
  ("The following were omitted from the environment.  " ++
    "VAR_ prefixed variables indicate a usage error.").toList

/-- What a run prints on the standard output and on the standard error. It is not `completed` if a
print raised. -/
structure Printed where
  out : List Char
  err : List Char
  completed : Bool

/-- A character that the codec of a stream without an encoding has. -/
def isAscii (c : Char) : Bool := c.toNat < 128

/-- `print` of one unicode text after another. With another character than ASCII it raises
`UnicodeEncodeError`, when what was printed before is on the stream. -/
def printLines : List (List Char) → List Char × Bool
  | [] => ([], true)
  | line :: lines =>
    if line.all isAscii then
      let (out, completed) := printLines lines
      (line ++ '\n' :: out, completed)
    else ([], false)

def warned (environ : Dict String String) : List Char :=
  if errs environ = [] then []
  else warning ++ '\n' :: (errs environ).flatMap String.toList ++ ['\n']

/-- What is printed to a pipe or a file. -/
def formatShell (environ : Dict String String) (settingsName : String)
    (result : RelationGetResult) : Option Printed :=
  match shown settingsName result with
  | none => none
  | some result =>
    if result.entries = [] then some ⟨[], [], true⟩
    else
      -- The names of the environment are byte strings, which no codec refuses.
      let cleared := (errs environ).flatMap fun k => upper k.toList ++ ['=', '\n']
      let (settings, completed) := printLines ((sortedItems result).map fun e =>
        varName e.1 ++ '=' :: shellQuote e.2.toList)
      some ⟨cleared ++ settings, if completed then warned environ else [], completed⟩

end RelationGetCli

/-- `relation-get --format=shell` for a unit with the settings. -/
def relationGetShell (environ settings : Dict String String) (settingsName : String) :
    Option RelationGetCli.Printed :=
  let (result, settingsName) := RelationGetCli.run (serverRelationGet settings) settingsName
  RelationGetCli.formatShell environ settingsName result

/-- The settings that are asked for. -/
def askedFor (settings : Dict String String) (settingsName : String) : Dict String String :=
  if settingsName = "" ∨ settingsName = "-" then settings
  else (∅ : Dict String String).insert (String.ofList (upper settingsName.toList))
    ((settings.lookup settingsName).getD "")

section names

/-- A key that becomes a name in a shell. -/
def Nameable (key : String) : Prop := ∀ c ∈ key.toList, isNameChar c = true ∨ c ∈ badChars

theorem nameable_of_all (key : String)
    (h : (key.toList.all fun c => isNameChar c || badChars.contains c) = true) : Nameable key := by
  intro c hc
  simpa using List.all_eq_true.mp h c hc

theorem nameChar_ascii (c : Char) (h : isNameChar c = true) : c.toNat < 128 := by
  have hsmall (last : UInt32) (hlast : last.toNat < 128) (hin : c.val ≤ last) : c.toNat < 128 :=
    Nat.lt_of_le_of_lt hin hlast
  rcases Bool.or_eq_true_iff.mp h with halnum | hunderscore
  · rcases Bool.or_eq_true_iff.mp halnum with halpha | hdigit
    · rcases Bool.or_eq_true_iff.mp halpha with hupper | hlower
      · exact hsmall 'Z'.val (by decide) (of_decide_eq_true hupper).2
      · exact hsmall 'z'.val (by decide) (of_decide_eq_true (Bool.and_eq_true_iff.mp hlower).2)
    · exact hsmall '9'.val (by decide) (of_decide_eq_true (Bool.and_eq_true_iff.mp hdigit).2)
  · rw [of_decide_eq_true hunderscore]
    decide

theorem upper_nameChar (c : Char) (h : isNameChar c = true) : isNameChar c.toUpper = true := by
  have hall : ∀ n : Fin 128, isNameChar (Char.ofNat n) = true →
      isNameChar (Char.ofNat n).toUpper = true := by decide
  have hascii := hall ⟨c.toNat, nameChar_ascii c h⟩
  rw [Char.ofNat_toNat] at hascii
  exact hascii h

theorem bad_upper (c : Char) (h : c ∈ badChars) : c.toUpper ∈ badChars := by
  have hall : (badChars.all fun c => badChars.contains c.toUpper) = true := by decide
  exact List.contains_iff_mem.mp (List.all_eq_true.mp hall c h)

theorem varName_isShellName (key : String) (h : Nameable key) : IsShellName (varName key) := by
  refine ⟨'V', "AR_".toList ++ upper (subBadChars (upper key.toList)), rfl, rfl, fun d hd => ?_⟩
  rcases List.mem_append.mp hd with hd | hd
  · exact List.all_eq_true.mp (by decide : ("AR_".toList.all isNameChar) = true) d hd
  · simp only [upper, subBadChars, List.map_map, List.mem_map, Function.comp_apply] at hd
    obtain ⟨c, hc, rfl⟩ := hd
    split
    · rfl
    · rename_i hgood
      rcases h c hc with hname | hbad
      · exact upper_nameChar _ (upper_nameChar c hname)
      · exact absurd (bad_upper c hbad) hgood

theorem errs_isShellName (environ : Dict String String) (k : String)
    (hk : k ∈ RelationGetCli.errs environ) (h : ∀ c ∈ k.toList, isNameChar c = true) :
    IsShellName (upper k.toList) := by
  have hprefix : "VAR_".toList <+: k.toList :=
    List.isPrefixOf_iff_prefix.mp (List.mem_filter.mp hk).2
  obtain ⟨rest, hrest⟩ := hprefix
  rw [← hrest] at h ⊢
  refine ⟨'V', upper ("AR_".toList ++ rest), rfl, rfl, fun d hd => ?_⟩
  obtain ⟨c, hc, rfl⟩ := List.mem_map.mp hd
  exact upper_nameChar c (h c (List.mem_cons_of_mem 'V' hc))

end names

section order

variable (d : Dict String String)

theorem mem_sortedItems (e : Sigma fun _ : String => String) :
    e ∈ RelationGetCli.sortedItems d ↔ d.lookup e.1 = some e.2 := by
  rw [RelationGetCli.sortedItems, List.mem_insertionSort]
  exact Dict.mem_entries_iff d e

/-- The items come in the order of their keys. -/
theorem sortedItems_after (e : Sigma fun _ : String => String)
    (before after : List (Sigma fun _ : String => String))
    (h : RelationGetCli.sortedItems d = before ++ e :: after) : ∀ e' ∈ after, e.1 < e'.1 := by
  have hsorted : (RelationGetCli.sortedItems d).Pairwise fun a b => a.1 ≤ b.1 :=
    List.pairwise_insertionSort (fun a b : Sigma fun _ : String => String => a.1 ≤ b.1) d.entries
  have hdistinct : (RelationGetCli.sortedItems d).Pairwise fun a b => a.1 ≠ b.1 := by
    have hnodup : ((RelationGetCli.sortedItems d).map Sigma.fst).Nodup :=
      ((List.perm_insertionSort _ d.entries).map Sigma.fst).nodup_iff.mpr d.nodupKeys
    exact List.pairwise_map.mp hnodup
  rw [h] at hsorted hdistinct
  intro e' he'
  have hle := (List.pairwise_cons.mp (List.pairwise_append.mp hsorted).2.1).1 e' he'
  have hne := (List.pairwise_cons.mp (List.pairwise_append.mp hdistinct).2.1).1 e' he'
  exact lt_of_le_of_ne hle hne

end order

section printed

variable (environ settings : Dict String String) (settingsName : String)

theorem printLines_map {α : Type*} (lines : List α) (text : α → List Char) :
    RelationGetCli.printLines (lines.map text) =
      ((lines.takeWhile fun l => (text l).all RelationGetCli.isAscii).flatMap fun l =>
          text l ++ ['\n'],
        lines.all fun l => (text l).all RelationGetCli.isAscii) := by
  induction lines with
  | nil => rfl
  | cons l lines ih =>
    rw [List.map_cons, RelationGetCli.printLines, ih, List.takeWhile_cons, List.all_cons]
    by_cases hascii : (text l).all RelationGetCli.isAscii = true
    · rw [if_pos hascii, if_pos hascii, List.flatMap_cons, List.append_assoc, hascii,
        Bool.true_and]
      rfl
    · rw [if_neg hascii, if_neg hascii, Bool.eq_false_of_not_eq_true hascii, Bool.false_and]
      rfl

/-- The line of a setting, without its end. -/
def settingText (e : Sigma fun _ : String => String) : List Char :=
  varName e.1 ++ '=' :: shellQuote e.2.toList

/-- The settings that are printed before a print raises. -/
def printedItems : List (Sigma fun _ : String => String) :=
  (RelationGetCli.sortedItems settings).takeWhile fun e =>
    (settingText e).all RelationGetCli.isAscii

/-- Whether each setting can be printed. -/
def allPrinted : Bool :=
  (RelationGetCli.sortedItems settings).all fun e => (settingText e).all RelationGetCli.isAscii

/-- What is printed for the settings that are asked for. -/
def printedFor (asked : Dict String String) : RelationGetCli.Printed :=
  if asked.entries = [] then ⟨[], [], true⟩
  else
    ⟨((RelationGetCli.errs environ).flatMap fun k => upper k.toList ++ ['=', '\n']) ++
        (printedItems asked).flatMap fun e => settingText e ++ ['\n'],
      if allPrinted asked then RelationGetCli.warned environ else [], allPrinted asked⟩

theorem formatShell_shown (result : RelationGetResult) (asked : Dict String String)
    (h : RelationGetCli.shown settingsName result = some asked) :
    RelationGetCli.formatShell environ settingsName result = some (printedFor environ asked) := by
  rw [RelationGetCli.formatShell, h, printedFor]
  simp only [printLines_map]
  split
  · rfl
  · rfl

theorem shown_run :
    relationGetShell environ settings settingsName =
      some (printedFor environ (askedFor settings settingsName)) := by
  unfold relationGetShell RelationGetCli.run
  by_cases hskipped : settingsName = "-"
  · subst hskipped
    exact formatShell_shown environ _ _ _
      (by simp [askedFor, serverRelationGet, RelationGetCli.shown])
  · by_cases hempty : settingsName = ""
    · subst hempty
      exact formatShell_shown environ _ _ _
        (by simp [askedFor, serverRelationGet, RelationGetCli.shown])
    · rw [if_neg hskipped]
      exact formatShell_shown environ _ _ _
        (by simp [askedFor, serverRelationGet, RelationGetCli.shown, hskipped, hempty])

/-- The lines that clear what must not be in the environment. -/
def clearingLines : List (List Char × List Char × List Char) :=
  (RelationGetCli.errs environ).map fun k => (upper k.toList, [], [])

/-- The lines of settings. -/
def settingLines (items : List (Sigma fun _ : String => String)) :
    List (List Char × List Char × List Char) :=
  items.map fun e => (varName e.1, shellQuote e.2.toList, e.2.toList)

def assignmentsOf (lines : List (List Char × List Char × List Char)) :
    List (List Char × List Char) :=
  lines.map fun l => (l.1, l.2.2)

theorem printed_lines (items : List (Sigma fun _ : String => String)) :
    (((RelationGetCli.errs environ).flatMap fun k => upper k.toList ++ ['=', '\n']) ++
      items.flatMap fun e => settingText e ++ ['\n']) =
      (clearingLines environ ++ settingLines items).flatMap fun l =>
        assignmentLine l.1 l.2.1 := by
  have hclearing (k : String) :
      upper k.toList ++ ['=', '\n'] = assignmentLine (upper k.toList) [] := by
    rw [assignmentLine, List.append_assoc]
    rfl
  simp only [hclearing]
  rw [List.flatMap_append, clearingLines, settingLines, List.flatMap_map, List.flatMap_map]
  rfl

theorem item_key (e : Sigma fun _ : String => String)
    (he : e ∈ RelationGetCli.sortedItems settings) : e.1 ∈ settings :=
  (Dict.mem_iff_lookup settings e.1).mpr ⟨e.2, (mem_sortedItems settings e).mp he⟩

theorem printed_read (items : List (Sigma fun _ : String => String))
    (hitems : ∀ e ∈ items, e ∈ RelationGetCli.sortedItems settings)
    (hkeys : ∀ key ∈ settings, Nameable key)
    (henviron : ∀ k ∈ RelationGetCli.errs environ, ∀ c ∈ k.toList, isNameChar c = true) :
    readShell ((clearingLines environ ++ settingLines items).flatMap fun l =>
      assignmentLine l.1 l.2.1) =
      some (assignmentsOf (clearingLines environ) ++ assignmentsOf (settingLines items)) := by
  rw [readShell_lines, List.map_append]
  · rfl
  · intro l hl
    rcases List.mem_append.mp hl with hl | hl
    · obtain ⟨k, hk, rfl⟩ := List.mem_map.mp hl
      exact ⟨errs_isShellName environ k hk (henviron k hk), empty_readsAs⟩
    · obtain ⟨e, he, rfl⟩ := List.mem_map.mp hl
      exact ⟨varName_isShellName e.1 (hkeys e.1 (item_key settings e (hitems e he))),
        quote_readsAs e.2.toList⟩

/-- Of settings with one variable, the one with the greatest key is assigned last. -/
theorem assigned_setting (cleared : List (List Char × List Char)) (key value : String)
    (hvalue : settings.lookup key = some value)
    (hlast : ∀ key' ∈ settings, varName key' = varName key → key' ≤ key) :
    lastAssigned (varName key) (cleared ++
        assignmentsOf (settingLines (RelationGetCli.sortedItems settings))) =
      some value.toList := by
  obtain ⟨before, after, hsplit⟩ :=
    List.append_of_mem ((mem_sortedItems settings ⟨key, value⟩).mpr hvalue)
  have hassigned : assignmentsOf (settingLines (RelationGetCli.sortedItems settings)) =
      (before.map fun e => (varName e.1, e.2.toList)) ++
        (varName key, value.toList) :: after.map fun e => (varName e.1, e.2.toList) := by
    rw [settingLines, hsplit, assignmentsOf, List.map_map, List.map_append, List.map_cons]
    rfl
  rw [hassigned, ← List.append_assoc]
  apply lastAssigned_last _ (varName key, value.toList)
  intro b hb
  obtain ⟨e, he, rfl⟩ := List.mem_map.mp hb
  intro hsame
  have hmem : e ∈ RelationGetCli.sortedItems settings := by
    rw [hsplit]
    exact List.mem_append_right _ (List.mem_cons_of_mem _ he)
  have hkey : e.1 ∈ settings :=
    (Dict.mem_iff_lookup settings e.1).mpr ⟨e.2, (mem_sortedItems settings e).mp hmem⟩
  exact absurd (hlast e.1 hkey hsame)
    (not_le_of_gt (sortedItems_after settings ⟨key, value⟩ before after hsplit e he))

/-- A variable of no setting is cleared if it must not be in the environment. -/
theorem assigned_other (items : List (Sigma fun _ : String => String)) (name : List Char)
    (hother : ∀ e ∈ items, varName e.1 ≠ name) :
    lastAssigned name (assignmentsOf (clearingLines environ) ++
        assignmentsOf (settingLines items)) =
      if name ∈ (RelationGetCli.errs environ).map fun k => upper k.toList then some []
      else none := by
  have hsettings : lastAssigned name (assignmentsOf (settingLines items)) = none := by
    apply lastAssigned_none
    intro a ha
    obtain ⟨l, hl, rfl⟩ := List.mem_map.mp ha
    obtain ⟨e, he, rfl⟩ := List.mem_map.mp hl
    exact hother e he
  have hcleared : assignmentsOf (clearingLines environ) =
      ((RelationGetCli.errs environ).map fun k => upper k.toList).map fun n => (n, []) := by
    rw [assignmentsOf, clearingLines, List.map_map, List.map_map]
    rfl
  rw [lastAssigned_append, hsettings, Option.none_or, hcleared, lastAssigned_cleared]

end printed

section encoded

theorem quote_ascii (s : List Char) :
    (shellQuote s).all RelationGetCli.isAscii = s.all RelationGetCli.isAscii := by
  unfold shellQuote
  split
  · split
    · rename_i hempty
      rw [hempty]
      rfl
    · rfl
  · have hchar (c : Char) :
        (if c = apostrophe then
          [apostrophe, quotationMark, apostrophe, quotationMark, apostrophe]
        else [c]).all RelationGetCli.isAscii = RelationGetCli.isAscii c := by
      by_cases hc : c = apostrophe
      · rw [if_pos hc, hc]
        rfl
      · rw [if_neg hc, List.all_cons, List.all_nil, Bool.and_true]
    have hends : RelationGetCli.isAscii apostrophe = true := rfl
    rw [List.all_append, List.all_cons, List.all_flatMap, hends, List.all_cons, List.all_nil,
      hends, Bool.true_and, Bool.and_true, Bool.and_true]
    exact congrArg s.all (funext hchar)

theorem varName_ascii (key : String) (h : Nameable key) :
    (varName key).all RelationGetCli.isAscii = true := by
  obtain ⟨c, cs, hname, hc, hcs⟩ := varName_isShellName key h
  have hstart : isNameChar c = true := by
    rcases Bool.or_eq_true_iff.mp hc with halpha | hunderscore
    · exact Bool.or_eq_true_iff.mpr (.inl (Bool.or_eq_true_iff.mpr (.inl halpha)))
    · exact Bool.or_eq_true_iff.mpr (.inr hunderscore)
  rw [hname]
  refine List.all_eq_true.mpr (List.forall_mem_cons.mpr ⟨?_, fun d hd => ?_⟩)
  · exact decide_eq_true (nameChar_ascii c hstart)
  · exact decide_eq_true (nameChar_ascii d (hcs d hd))

theorem settingText_ascii (e : Sigma fun _ : String => String) (h : Nameable e.1) :
    (settingText e).all RelationGetCli.isAscii = e.2.toList.all RelationGetCli.isAscii := by
  have hequals : RelationGetCli.isAscii '=' = true := rfl
  rw [settingText, List.all_append, varName_ascii e.1 h, List.all_cons, hequals, quote_ascii,
    Bool.true_and, Bool.true_and]

variable (settings : Dict String String)

theorem allPrinted_iff (hkeys : ∀ key ∈ settings, Nameable key) :
    allPrinted settings = true ↔
      ∀ key value, settings.lookup key = some value →
        ∀ c ∈ value.toList, c.toNat < 128 := by
  rw [allPrinted, List.all_eq_true]
  constructor
  · intro hall key value hvalue c hc
    have hitem := (mem_sortedItems settings ⟨key, value⟩).mpr hvalue
    have hascii := hall _ hitem
    rw [settingText_ascii _ (hkeys key (item_key settings _ hitem))] at hascii
    exact of_decide_eq_true (List.all_eq_true.mp hascii c hc)
  · intro hall e he
    rw [settingText_ascii e (hkeys e.1 (item_key settings e he))]
    exact List.all_eq_true.mpr fun c hc =>
      decide_eq_true (hall e.1 e.2 ((mem_sortedItems settings e).mp he) c hc)

theorem printedItems_all (h : allPrinted settings = true) :
    printedItems settings = RelationGetCli.sortedItems settings :=
  List.takeWhile_eq_self_iff.mpr (List.all_eq_true.mp h)

theorem printedItems_mem (e : Sigma fun _ : String => String) (he : e ∈ printedItems settings) :
    e ∈ RelationGetCli.sortedItems settings :=
  (List.takeWhile_sublist _).subset he

end encoded

end Juju.Hooks

import Juju.Charm.CharmURL

namespace Juju.Charm
open Juju.Lib

/-- The last part of a URL: a name, and a revision as it is written. -/
def nameText (name : Text) : Option Text → Text
  | none => name
  | some revision => name ++ '-' :: revision

/-- The number a revision is read as. -/
def revisionNumber (k : TextKind) (revision : Option Text) : Option Int :=
  revision.bind fun digits => (k.natural digits).map Int.ofNat

/-- `schema:[~user/]series/name[-revision]` -/
def Grammatical (string : Text) : Prop :=
  ∃ schema user series name revision,
    (schema = cs ∨ schema = localSchema) ∧
    (∀ u, user = some u → schema = cs ∧ u ∈ userRe.language) ∧
    series ∈ seriesRe.language ∧ name ∈ nameRe.language ∧
    (∀ digits, revision = some digits → digits ≠ [] ∧ ∀ x ∈ digits, x.isDigit = true) ∧
    string = headText schema user series ++ nameText name revision

/-- The text is parsed just when it is a URL, and is refused by `CharmURLError` otherwise. -/
def ParsedByGrammar (k : TextKind) (string : Text) : Prop :=
  ((∃ url, CharmURL.parse k string = .ok url) ↔ Grammatical string) ∧
    ∀ e, CharmURL.parse k string = .error e → ∃ message, e = .charmURLError string message

/-- A text of the form of a URL with a digit in its revision that is not an ASCII digit, or with a
newline that ends its user, its series or its name. A digit that is not decimal does whatever the
name is. -/
def Slips (k : TextKind) (string : Text) : Prop :=
  ∃ schema user series name revision,
    HeadSpelled schema user series ∧ '/' ∉ name ∧
    (∀ digits, revision = some digits → k.isdigit digits = true) ∧
    string = headText schema user series ++ nameText name revision ∧
    ((∃ digits x, revision = some digits ∧ x ∈ digits ∧ k.decimal x = none) ∨
      SpellsLine nameRe name ∧
        ('\n' ∈ userText user ∨ '\n' ∈ series ∨ '\n' ∈ name ∨
          ∃ digits x, revision = some digits ∧ x ∈ digits ∧ x.isDigit = false))

section parse

variable (k : TextKind) (schema : Text) (user : Option Text) (series name : Text)

theorem isdigit_no_slash (text : Text) (h : k.isdigit text = true) : '/' ∉ text := by
  intro hin
  have hdigit := (isdigit_mem k text h).2 '/' hin
  have hno : k.isDigitChar '/' = false := by cases k <;> decide
  simp [hno] at hdigit

theorem nameText_no_slash (revision : Option Text) (hname : '/' ∉ name)
    (hrevision : ∀ digits, revision = some digits → k.isdigit digits = true) :
    '/' ∉ nameText name revision := by
  cases revision with
  | none => exact hname
  | some digits => simp [nameText, hname, isdigit_no_slash k digits (hrevision digits rfl)]

theorem natural_isSome (digits : Text) (h : k.isdigit digits = true)
    (hdecimal : ∀ x ∈ digits, k.decimal x ≠ none) : ∃ n, k.natural digits = some n := by
  apply Option.ne_none_iff_exists'.mp
  intro hnone
  rcases (k.natural_eq_none digits).mp hnone with hnil | ⟨x, hx, hno⟩
  · exact (isdigit_mem k digits h).1 hnil
  · exact hdecimal x hx hno

/-- A digit that is not decimal is not read as a number. -/
theorem parse_valueError (revision : Text) (h : HeadSpelled schema user series)
    (hname : '/' ∉ name) (hdigit : k.isdigit revision = true) (x : Char) (hx : x ∈ revision)
    (hno : k.decimal x = none) :
    CharmURL.parse k (headText schema user series ++ nameText name (some revision)) =
      .error .valueError := by
  have hslash := nameText_no_slash k name (some revision) hname (by simpa using hdigit)
  have hnone := (k.natural_eq_none revision).mpr (Or.inr ⟨x, hx, hno⟩)
  rw [parse_text k schema user series h _ hslash, parseName, nameText,
    parseRevision_digits k name revision hdigit, hnone]

/-- A name and a revision that are spelled right are read apart. -/
theorem parse_accepts (revision : Option Text) (h : HeadSpelled schema user series)
    (hname : SpellsLine nameRe name)
    (hrevision : ∀ digits, revision = some digits →
      k.isdigit digits = true ∧ ∀ x ∈ digits, k.decimal x ≠ none) :
    CharmURL.parse k (headText schema user series ++ nameText name revision) =
      .ok ⟨⟨schema, user, series⟩, name, revisionNumber k revision⟩ := by
  have hslash := nameText_no_slash k name revision
    (spellsLine_no_slash nameRe nameRe_within name hname) fun digits hd => (hrevision digits hd).1
  have hmatch := (reMatch_iff nameRe name).mpr hname
  rw [parse_text k schema user series h _ hslash, parseName]
  cases revision with
  | none =>
    have hnone := parseRevision_none k name fun a b => name_last_not_digit k name a b hname
    simp [nameText, hnone, hmatch, revisionNumber]
  | some digits =>
    obtain ⟨hdigit, hdecimal⟩ := hrevision digits rfl
    obtain ⟨n, hn⟩ := natural_isSome k digits hdigit hdecimal
    have hcut := parseRevision_digits k name digits hdigit
    rw [hn] at hcut
    simp [nameText, hcut, hmatch, revisionNumber, hn]

/-- What comes of any text. -/
theorem parse_outcome (string : Text) :
    (∃ message, CharmURL.parse k string = .error (.charmURLError string message)) ∨
      ∃ schema user series name revision, HeadSpelled schema user series ∧ '/' ∉ name ∧
        (∀ digits, revision = some digits → k.isdigit digits = true) ∧
        string = headText schema user series ++ nameText name revision ∧
        ((CharmURL.parse k string = .error .valueError ∧
            ∃ digits x, revision = some digits ∧ x ∈ digits ∧ k.decimal x = none) ∨
          SpellsLine nameRe name ∧
            (∀ digits, revision = some digits → ∀ x ∈ digits, k.decimal x ≠ none) ∧
            CharmURL.parse k string =
              .ok ⟨⟨schema, user, series⟩, name, revisionNumber k revision⟩) := by
  rcases parse_cases k string with hfail | ⟨schema, user, series, text, h, hslash, rfl⟩
  · exact Or.inl hfail
  · by_cases hdigits : ∃ name digits, text = name ++ '-' :: digits ∧ k.isdigit digits = true
    · obtain ⟨name, digits, rfl, hdigit⟩ := hdigits
      have hname : '/' ∉ name := fun hin => hslash (List.mem_append_left _ hin)
      by_cases hall : ∀ x ∈ digits, k.decimal x ≠ none
      · by_cases hspelled : SpellsLine nameRe name
        · refine Or.inr ⟨schema, user, series, name, some digits, h, hname, by simpa using hdigit,
            rfl, Or.inr ⟨hspelled, by simpa using hall, ?_⟩⟩
          exact parse_accepts k schema user series name (some digits) h hspelled
            (by simpa using ⟨hdigit, hall⟩)
        · have hmatch : reMatch nameRe name ≠ true := fun hm => hspelled ((reMatch_iff _ _).mp hm)
          obtain ⟨n, hn⟩ := natural_isSome k digits hdigit hall
          have hcut := parseRevision_digits k name digits hdigit
          rw [hn] at hcut
          left
          refine ⟨"invalid name", ?_⟩
          rw [parse_text k schema user series h _ hslash, parseName, hcut]
          simp [hmatch, fail]
      · obtain ⟨x, hx, hno⟩ : ∃ x ∈ digits, k.decimal x = none := by simpa using hall
        refine Or.inr ⟨schema, user, series, name, some digits, h, hname, by simpa using hdigit,
          rfl, Or.inl ⟨?_, digits, x, rfl, hx, hno⟩⟩
        exact parse_valueError k schema user series name digits h hname hdigit x hx hno
    · have hcut := (parseRevision_cases k text).resolve_right hdigits
      by_cases hspelled : SpellsLine nameRe text
      · refine Or.inr ⟨schema, user, series, text, none, h, hslash, by simp, rfl,
          Or.inr ⟨hspelled, by simp, ?_⟩⟩
        exact parse_accepts k schema user series text none h hspelled (by simp)
      · have hmatch : reMatch nameRe text ≠ true := fun hm => hspelled ((reMatch_iff _ _).mp hm)
        left
        refine ⟨"invalid name", ?_⟩
        rw [parse_text k schema user series h _ hslash, parseName, hcut]
        simp [hmatch, fail]

theorem ascii_isdigit (digits : Text) (hne : digits ≠ [])
    (h : ∀ x ∈ digits, x.isDigit = true) :
    k.isdigit digits = true ∧ ∀ x ∈ digits, k.decimal x ≠ none := by
  constructor
  · have hall := k.ascii_isDigitChar digits h
    simpa [TextKind.isdigit, hne] using hall
  · intro x hx
    simp [k.decimal_ascii x (h x hx)]

/-- What is spelled by the grammar is parsed into its parts. -/
theorem grammar_accepts (revision : Option Text) (hschema : schema = cs ∨ schema = localSchema)
    (huser : ∀ u, user = some u → schema = cs ∧ u ∈ userRe.language)
    (hseries : series ∈ seriesRe.language) (hname : name ∈ nameRe.language)
    (hrevision : ∀ digits, revision = some digits →
      digits ≠ [] ∧ ∀ x ∈ digits, x.isDigit = true) :
    CharmURL.parse k (headText schema user series ++ nameText name revision) =
      .ok ⟨⟨schema, user, series⟩, name, revisionNumber k revision⟩ := by
  have h : HeadSpelled schema user series :=
    ⟨hschema, fun u hu => ⟨(huser u hu).1, Or.inl (huser u hu).2⟩, Or.inl hseries⟩
  apply parse_accepts k schema user series name revision h (Or.inl hname)
  intro digits hd
  exact ascii_isdigit k digits (hrevision digits hd).1 (hrevision digits hd).2

theorem userText_no_newline (huser : ∀ u, user = some u → schema = cs ∧ u ∈ userRe.language) :
    '\n' ∉ userText user := by
  cases user with
  | none => simp [userText]
  | some u =>
    have hu := spells_no_newline userRe userRe_within u (huser u rfl).2
    simp [userText, hu]

theorem nameText_injective (r₁ r₂ : Option Text) (h : nameText name r₁ = nameText name r₂) :
    r₁ = r₂ := by
  cases r₁ with
  | none =>
    cases r₂ with
    | none => rfl
    | some d₂ => exact absurd (congrArg List.length h) (by simp [nameText])
  | some d₁ =>
    cases r₂ with
    | none => exact absurd (congrArg List.length h) (by simp [nameText])
    | some d₂ => simpa [nameText] using h

/-- A text that slips is parsed though it is no URL, or raises another error. -/
theorem slips_fails (string : Text) (h : Slips k string) : ¬ ParsedByGrammar k string := by
  rintro ⟨haccept, herror⟩
  obtain ⟨schema, user, series, name, revision, hhead, hslash, hdigits, rfl, hslip⟩ := h
  by_cases hdecimal : ∃ digits x, revision = some digits ∧ x ∈ digits ∧ k.decimal x = none
  · obtain ⟨digits, x, rfl, hx, hno⟩ := hdecimal
    have hvalue := parse_valueError k schema user series name digits hhead hslash
      (hdigits digits rfl) x hx hno
    obtain ⟨message, hmessage⟩ := herror _ hvalue
    cases hmessage
  · obtain ⟨hname, hodd⟩ := hslip.resolve_left hdecimal
    have hparse := parse_accepts k schema user series name revision hhead hname fun digits hd =>
      ⟨hdigits digits hd, fun x hx hno => hdecimal ⟨digits, x, hd, hx, hno⟩⟩
    obtain ⟨schema', user', series', name', revision', hschema, huser, hseries, hname', hdigits',
      htext⟩ := haccept.mp ⟨_, hparse⟩
    have hsame := grammar_accepts k schema' user' series' name' revision' hschema huser hseries
      hname' hdigits'
    rw [← htext, hparse] at hsame
    injection hsame with hurl
    injection hurl with hcollection hnames hnumbers
    injection hcollection with hschemas husers hlists
    subst hschemas husers hlists hnames
    obtain rfl := nameText_injective name revision revision' (List.append_cancel_left htext)
    rcases hodd with hin | hin | hin | ⟨digits, x, hd, hx, hno⟩
    · exact userText_no_newline schema user huser hin
    · exact spells_no_newline seriesRe seriesRe_within series hseries hin
    · exact spells_no_newline nameRe nameRe_within name hname' hin
    · simp [(hdigits' digits hd).2 x hx] at hno

theorem userText_newline (u : Text) (h : '\n' ∉ userText (some u)) : '\n' ∉ u := by
  intro hin
  exact h (by simp [userText, hin])

/-- A text that is parsed and does not slip is spelled by the grammar. -/
theorem not_slips_grammatical (revision : Option Text) (h : HeadSpelled schema user series)
    (hname : SpellsLine nameRe name) (hslash : '/' ∉ name)
    (hdigits : ∀ digits, revision = some digits → k.isdigit digits = true)
    (hno : ¬ Slips k (headText schema user series ++ nameText name revision)) :
    Grammatical (headText schema user series ++ nameText name revision) := by
  have hplain : ¬ ('\n' ∈ userText user ∨ '\n' ∈ series ∨ '\n' ∈ name ∨
      ∃ digits x, revision = some digits ∧ x ∈ digits ∧ x.isDigit = false) := fun hodd =>
    hno ⟨schema, user, series, name, revision, h, hslash, hdigits, rfl, Or.inr ⟨hname, hodd⟩⟩
  simp only [not_or, not_exists, not_and, Bool.not_eq_false] at hplain
  obtain ⟨huser, hseries, hnamenl, hascii⟩ := hplain
  refine ⟨schema, user, series, name, revision, h.known, ?_, ?_, ?_, ?_, rfl⟩
  · intro u hu
    obtain ⟨hcs, hspelled⟩ := h.spelledUser u hu
    exact ⟨hcs, spellsLine_spells userRe u hspelled (userText_newline u (hu ▸ huser))⟩
  · exact spellsLine_spells seriesRe series h.spelledSeries hseries
  · exact spellsLine_spells nameRe name hname hnamenl
  · intro digits hd
    exact ⟨(isdigit_mem k digits (hdigits digits hd)).1, fun x hx => hascii digits x hd hx⟩

/-- `parse` follows the grammar on every text that does not slip, and on no other. -/
theorem CharmURL.parse_grammar (string : Text) : ParsedByGrammar k string ↔ ¬ Slips k string := by
  constructor
  · exact fun h hslip => slips_fails k string hslip h
  · intro hno
    constructor
    · constructor
      · rintro ⟨url, hurl⟩
        rcases parse_outcome k string with ⟨message, hfail⟩ |
          ⟨schema, user, series, name, revision, h, hslash, hdigits, rfl, hvalue | ⟨hname, -⟩⟩
        · rw [hfail] at hurl
          cases hurl
        · rw [hvalue.1] at hurl
          cases hurl
        · exact not_slips_grammatical k schema user series name revision h hname hslash hdigits hno
      · rintro ⟨schema, user, series, name, revision, hschema, huser, hseries, hname, hdigits, rfl⟩
        exact ⟨_, grammar_accepts k schema user series name revision hschema huser hseries hname
          hdigits⟩
    · intro e he
      rcases parse_outcome k string with ⟨message, hfail⟩ |
        ⟨schema, user, series, name, revision, h, hslash, hdigits, hstring,
          ⟨-, hdecimal⟩ | ⟨-, -, hok⟩⟩
      · rw [hfail] at he
        exact ⟨message, (Except.error.inj he).symm⟩
      · exact absurd ⟨schema, user, series, name, revision, h, hslash, hdigits, hstring,
          Or.inl hdecimal⟩ hno
      · rw [hok] at he
        cases he

end parse

/-- A newline at the end is let through, and a superscript raises `ValueError`. -/
theorem parse_grammar_slips :
    ¬ ParsedByGrammar .bytes "cs:precise/foo\n".toList ∧
      ¬ ParsedByGrammar .unicode "cs:precise/foo-²".toList := by
  have hname : ['f', 'o', 'o'] ∈ nameRe.language := (Pattern.spells_iff _ _).mp (by decide)
  have hseries : SpellsLine seriesRe "precise".toList := (reMatch_iff _ _).mp (by decide)
  have hhead : HeadSpelled cs none "precise".toList := ⟨Or.inl rfl, by simp, hseries⟩
  constructor
  · apply slips_fails
    exact ⟨cs, none, _, "foo\n".toList, none, hhead, by decide, by simp, by decide,
      Or.inr ⟨Or.inr ⟨_, hname, by decide⟩, by simp⟩⟩
  · apply slips_fails
    exact ⟨cs, none, _, "foo".toList, some ['²'], hhead, by decide, by simp; decide, by decide,
      Or.inl ⟨_, '²', rfl, by simp, by decide⟩⟩

end Juju.Charm

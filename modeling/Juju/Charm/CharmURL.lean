import Juju.Lib.Pattern
import Juju.Lib.Text

namespace Juju.Charm
open Juju.Lib

abbrev Text := List Char

def lower (x : Char) : Bool := 'a' ≤ x && x ≤ 'z'

def lowerDigit (x : Char) : Bool := lower x || x.isDigit

def lowerDash (x : Char) : Bool := lower x || x = '-'

def userChar (x : Char) : Bool :=
  lowerDigit x || ('A' ≤ x && x ≤ 'Z') || x = '+' || x = '.' || x = '-'

/-- `[a-z0-9][a-zA-Z0-9+.-]+` -/
def userRe : Pattern Char := .seq (.one lowerDigit) (Pattern.some (.one userChar))

/-- `[a-z]+([a-z-]+[a-z])?` -/
def seriesRe : Pattern Char :=
  .seq (Pattern.some (.one lower))
    (Pattern.optional (.seq (Pattern.some (.one lowerDash)) (.one lower)))

/-- `-[a-z0-9]*[a-z][a-z0-9]*` -/
def namePartRe : Pattern Char :=
  .seq (.one fun x => x = '-')
    (.seq (.many (.one lowerDigit)) (.seq (.one lower) (.many (.one lowerDigit))))

/-- `[a-z][a-z0-9]*(-[a-z0-9]*[a-z][a-z0-9]*)*` -/
def nameRe : Pattern Char :=
  .seq (.one lower) (.seq (.many (.one lowerDigit)) (.many namePartRe))

/-- `re.compile("^" + p + "$").match(text)`, where `$` also stands before a newline that ends the
text. -/
def reMatch (p : Pattern Char) (text : Text) : Bool :=
  p.spells text || (text.getLast? = some '\n' && p.spells text.dropLast)

structure CharmCollection where
  schema : Text
  user : Option Text
  series : Text
  deriving DecidableEq

structure CharmURL where
  collection : CharmCollection
  name : Text
  revision : Option Int
  deriving DecidableEq

inductive URLError where
  | charmURLError (url : Text) (message : String)
  | valueError
  deriving DecidableEq

def userText : Option Text → Text
  | none => []
  | some user => '~' :: user ++ ['/']

/-- `"%s" % number` -/
def intText : Int → Text
  | .ofNat n => Nat.toDigits 10 n
  | .negSucc n => '-' :: Nat.toDigits 10 (n + 1)

/-- `str(collection)` -/
def CharmCollection.toText (c : CharmCollection) : Text :=
  c.schema ++ ':' :: (userText c.user ++ c.series)

/-- `str(url)` -/
def CharmURL.toText (url : CharmURL) : Text :=
  match url.revision with
  | none => url.collection.toText ++ '/' :: url.name
  | some revision => url.collection.toText ++ '/' :: (url.name ++ '-' :: intText revision)

def fail {α : Type} (string : Text) (message : String) : Except URLError α :=
  .error (.charmURLError string message)

def cs : Text := ['c', 's']

def localSchema : Text := ['l', 'o', 'c', 'a', 'l']

/-- The user, and the parts without it. -/
def parseUser (string schema : Text) : List Text → Except URLError (Option Text × List Text)
  | ('~' :: user) :: parts =>
    if schema = localSchema then fail string "users not allowed in local URLs"
    else if ¬ reMatch userRe user then fail string "invalid user"
    else .ok (some user, parts)
  | parts => .ok (none, parts)

/-- The name and the revision cut off it. -/
def parseRevision (k : TextKind) (name : Text) : Except URLError (Text × Option Int) :=
  match cutLast '-' name with
  | none => .ok (name, none)
  | some (maybeName, maybeRevision) =>
    if k.isdigit maybeRevision then
      match k.int maybeRevision with
      | none => .error .valueError
      | some revision => .ok (maybeName, some revision)
    else .ok (name, none)

/-- The last steps of `parse`. -/
def parseName (k : TextKind) (string schema : Text) (user : Option Text) (series name : Text) :
    Except URLError CharmURL :=
  match parseRevision k name with
  | .error e => .error e
  | .ok (name, revision) =>
    if ¬ reMatch nameRe name then fail string "invalid name"
    else .ok ⟨⟨schema, user, series⟩, name, revision⟩

namespace CharmURL

def parse (k : TextKind) (string : Text) : Except URLError CharmURL :=
  match cutFirst ':' string with
  | none => fail string "no schema specified"
  | some (schema, rest) =>
    if schema ≠ cs ∧ schema ≠ localSchema then fail string "invalid schema"
    else
      let parts := rest.splitOn '/'
      if parts.length ≠ 2 ∧ parts.length ≠ 3 then fail string "invalid form"
      else
        match parseUser string schema parts with
        | .error e => .error e
        | .ok (user, [series, name]) =>
          if ¬ reMatch seriesRe series then fail string "invalid series"
          else parseName k string schema user series name
        | .ok _ => fail string "no series specified"

/-- The text that `infer` parses, and its kind; the default series is of kind `kSeries`. -/
def inferred (k : TextKind) (vagueName : Text) (kSeries : TextKind) (defaultSeries : Text) :
    TextKind × Text :=
  let (schema, rest) := (cutFirst ':' vagueName).getD (cs, vagueName)
  let both := if k = .bytes then kSeries else .unicode
  match rest.splitOn '/' with
  | [_] => (both, schema ++ ':' :: (defaultSeries ++ '/' :: rest))
  | ['~' :: user, name] =>
    (both, schema ++ ':' :: ('~' :: user ++ '/' :: (defaultSeries ++ '/' :: name)))
  | _ => (k, schema ++ ':' :: rest)

def infer (k : TextKind) (vagueName : Text) (kSeries : TextKind) (defaultSeries : Text) :
    Except URLError CharmURL :=
  match parse k vagueName with
  | .ok url => .ok url
  | .error .valueError => .error .valueError
  | .error (.charmURLError _ _) =>
    if vagueName.head? = some '~' then
      fail vagueName "a URL with a user must specify a schema"
    else
      let (kind, urlString) := inferred k vagueName kSeries defaultSeries
      match parse kind urlString with
      | .error (.charmURLError url message) =>
        .error (.charmURLError url
          (message ++ " (URL inferred from '" ++ String.ofList vagueName ++ "')"))
      | result => result

end CharmURL

example : CharmURL.parse .bytes "cs:~bob/precise/wordpress-017".toList =
    .ok ⟨⟨cs, some "bob".toList, "precise".toList⟩, "wordpress".toList, some 17⟩ := by decide

/-- The text is spelled by the pattern, or becomes so when a newline at its end is left out. -/
def SpellsLine (p : Pattern Char) (text : Text) : Prop :=
  text ∈ p.language ∨ ∃ w ∈ p.language, text = w ++ ['\n']

theorem reMatch_iff (p : Pattern Char) (text : Text) :
    reMatch p text = true ↔ SpellsLine p text := by
  simp only [reMatch, Bool.or_eq_true, Bool.and_eq_true, decide_eq_true_eq, Pattern.spells_iff]
  apply or_congr Iff.rfl
  constructor
  · rintro ⟨hlast, hw⟩
    exact ⟨text.dropLast, hw, (List.dropLast_append_getLast? '\n' hlast).symm⟩
  · rintro ⟨w, hw, rfl⟩
    simpa using hw

/-- What separates the parts of a URL, and the newline. -/
def separators : List Char := ['/', '~', '\n']

theorem lower_not_separator (x : Char) (h : lower x = true) : x ∉ separators := by
  intro hx
  simp only [separators, List.mem_cons, List.not_mem_nil, or_false] at hx
  rcases hx with rfl | rfl | rfl <;> exact absurd h (by decide)

theorem userChar_not_separator (x : Char) (h : userChar x = true) : x ∉ separators := by
  intro hx
  simp only [separators, List.mem_cons, List.not_mem_nil, or_false] at hx
  rcases hx with rfl | rfl | rfl <;> exact absurd h (by decide)

theorem lowerDigit_not_separator (x : Char) (h : lowerDigit x = true) : x ∉ separators :=
  userChar_not_separator x (by simp [userChar, h])

theorem lowerDash_not_separator (x : Char) (h : lowerDash x = true) : x ∉ separators := by
  apply userChar_not_separator
  rcases Bool.or_eq_true _ _ ▸ h with h | h
  · simp [userChar, lowerDigit, h]
  · simp [userChar, h]

theorem userRe_within : userRe.Within (· ∉ separators) :=
  ⟨lowerDigit_not_separator, userChar_not_separator, userChar_not_separator⟩

theorem seriesRe_within : seriesRe.Within (· ∉ separators) :=
  ⟨⟨lower_not_separator, lower_not_separator⟩,
    ⟨⟨lowerDash_not_separator, lowerDash_not_separator⟩, lower_not_separator⟩, trivial⟩

theorem nameRe_within : nameRe.Within (· ∉ separators) :=
  ⟨lower_not_separator, lowerDigit_not_separator,
    fun x hx => lowerDash_not_separator x (by simp [lowerDash, hx]),
    lowerDigit_not_separator, lower_not_separator, lowerDigit_not_separator⟩

/-- A separator in a text that a pattern matches can only be the newline at its end. -/
theorem spellsLine_mem (p : Pattern Char) (hp : p.Within (· ∉ separators)) (text : Text)
    (h : SpellsLine p text) (x : Char) (hx : x ∈ text) : x ∉ separators ∨ x = '\n' := by
  rcases h with hw | ⟨w, hw, rfl⟩
  · exact Or.inl (Pattern.within_mem _ p hp text hw x hx)
  · rcases List.mem_append.mp hx with hx | hx
    · exact Or.inl (Pattern.within_mem _ p hp w hw x hx)
    · exact Or.inr (List.mem_singleton.mp hx)

theorem spellsLine_no_slash (p : Pattern Char) (hp : p.Within (· ∉ separators)) (text : Text)
    (h : SpellsLine p text) : '/' ∉ text := by
  intro hx
  rcases spellsLine_mem p hp text h '/' hx with hout | hnl
  · exact hout (by decide)
  · exact absurd hnl (by decide)

/-- Without a newline the pattern spells the whole text. -/
theorem spellsLine_spells (p : Pattern Char) (text : Text) (h : SpellsLine p text)
    (hnl : '\n' ∉ text) : text ∈ p.language := by
  rcases h with hw | ⟨w, -, rfl⟩
  · exact hw
  · simp at hnl

theorem spells_no_newline (p : Pattern Char) (hp : p.Within (· ∉ separators)) (text : Text)
    (h : text ∈ p.language) : '\n' ∉ text :=
  fun hx => Pattern.within_mem _ p hp text h '\n' hx (by decide)

section revision

variable (k : TextKind)

theorem isDigitChar_lower (x : Char) (h : lower x = true) : k.isDigitChar x = false := by
  apply k.isDigitChar_outside x (0x61, 0x7a)
  · simpa [lower, inRange, Char.le_def, UInt32.le_iff_toNat_le] using h
  · cases k <;> decide

theorem isdigit_eq_false (text : Text) (x : Char) (hx : x ∈ text)
    (h : k.isDigitChar x = false) : k.isdigit text = false := by
  have hall : ¬ ∀ y ∈ text, k.isDigitChar y = true := fun hall => by simp [hall x hx] at h
  simpa [TextKind.isdigit] using fun _ => by simpa using hall

theorem namePart_mem (part : Text) (h : part ∈ namePartRe.language) :
    ∃ body, part = '-' :: body ∧ '-' ∉ body ∧ ∃ x ∈ body, lower x = true := by
  obtain ⟨dash, hdash, body, hbody, rfl⟩ := (Pattern.mem_seq _ _ _).mp h
  obtain ⟨y, hy, rfl⟩ := hdash
  obtain rfl : y = '-' := by simpa using hy
  have hwithin : Pattern.Within (· ≠ '-')
      (.seq (.many (.one lowerDigit)) (.seq (.one lower) (.many (.one lowerDigit)))) :=
    ⟨fun x hx he => absurd hx (by rw [he]; decide), fun x hx he => absurd hx (by rw [he]; decide),
      fun x hx he => absurd hx (by rw [he]; decide)⟩
  refine ⟨body, rfl, fun hin => Pattern.within_mem _ _ hwithin body hbody '-' hin rfl, ?_⟩
  obtain ⟨u, -, v, hv, rfl⟩ := (Pattern.mem_seq _ _ _).mp hbody
  obtain ⟨letter, ⟨x, hx, rfl⟩, w, -, rfl⟩ := (Pattern.mem_seq _ _ _).mp hv
  exact ⟨x, by simp, hx⟩

/-- What follows the last dash of a name has a letter in it. -/
theorem name_last_letter (name a b : Text) (h : name ∈ nameRe.language)
    (hname : name = a ++ '-' :: b) (hb : '-' ∉ b) : ∃ x ∈ b, lower x = true := by
  obtain ⟨first, ⟨c, hc, rfl⟩, rest, hrest, hfirst⟩ := (Pattern.mem_seq _ _ _).mp h
  obtain ⟨u, hu, v, hv, rfl⟩ := (Pattern.mem_seq _ _ _).mp hrest
  obtain ⟨parts, rfl, hparts⟩ := Language.mem_kstar.mp hv
  have hcut := (cutLast_eq_some '-' name a b).mpr ⟨hname, hb⟩
  rcases List.eq_nil_or_concat parts with rfl | ⟨init, part, rfl⟩
  · have hwithin : Pattern.Within (· ≠ '-') (.many (.one lowerDigit)) :=
      fun x hx he => absurd hx (by rw [he]; decide)
    have hnone : '-' ∉ name := by
      rw [← hfirst]
      simp only [List.flatten_nil, List.append_nil, List.cons_append, List.nil_append,
        List.mem_cons, not_or]
      refine ⟨fun he => absurd hc (by rw [← he]; decide), fun hin => ?_⟩
      exact Pattern.within_mem _ _ hwithin u hu '-' hin rfl
    rw [(cutLast_eq_none '-' name).mpr hnone] at hcut
    cases hcut
  · obtain ⟨body, hpart, hdash, hletter⟩ := namePart_mem part (hparts part (by simp))
    have hsame : name = ([c] ++ u ++ init.flatten) ++ '-' :: body := by
      rw [← hfirst, List.concat_eq_append, List.flatten_append, List.flatten_singleton, hpart]
      simp
    rw [(cutLast_eq_some '-' name _ body).mpr ⟨hsame, hdash⟩] at hcut
    obtain ⟨-, rfl⟩ := Prod.mk.inj (Option.some.inj hcut)
    exact hletter

/-- A name does not end in what could be a revision. -/
theorem name_last_not_digit (name a b : Text) (h : SpellsLine nameRe name)
    (hname : name = a ++ '-' :: b) (hb : '-' ∉ b) : k.isdigit b = false := by
  rcases h with hw | ⟨w, -, hw⟩
  · obtain ⟨x, hx, hlower⟩ := name_last_letter name a b hw hname hb
    exact isdigit_eq_false k b x hx (isDigitChar_lower k x hlower)
  · have hin : '\n' ∈ b := by
      rcases List.eq_nil_or_concat b with rfl | ⟨init, x, rfl⟩
      · have hlast := congrArg List.getLast? (hw.symm.trans hname)
        simp at hlast
      · have hlast := congrArg List.getLast? (hw.symm.trans hname)
        simp only [List.getLast?_append, List.getLast?_singleton, Option.some_or,
          List.concat_eq_append, ← List.cons_append, Option.some.injEq] at hlast
        rw [List.concat_eq_append, ← hlast]
        simp
    exact isdigit_eq_false k b '\n' hin (by cases k <;> decide)

theorem parseRevision_none (name : Text)
    (h : ∀ a b, name = a ++ '-' :: b → '-' ∉ b → k.isdigit b = false) :
    parseRevision k name = .ok (name, none) := by
  unfold parseRevision
  cases hcut : cutLast '-' name with
  | none => rfl
  | some e =>
    obtain ⟨hname, hb⟩ := (cutLast_eq_some '-' name e.1 e.2).mp hcut
    simp [h e.1 e.2 hname hb]

theorem isdigit_mem (text : Text) (h : k.isdigit text = true) :
    text ≠ [] ∧ ∀ x ∈ text, k.isDigitChar x = true := by
  simpa [TextKind.isdigit] using h

theorem isdigit_no_dash (text : Text) (h : k.isdigit text = true) : '-' ∉ text :=
  fun hin => (k.isDigitChar_disjoint '-' ((isdigit_mem k text h).2 '-' hin)).2.1 rfl

theorem parseRevision_digits (name revision : Text) (h : k.isdigit revision = true) :
    parseRevision k (name ++ '-' :: revision) =
      match k.natural revision with
      | none => .error .valueError
      | some n => .ok (name, some (n : Int)) := by
  have hcut := (cutLast_eq_some '-' _ name revision).mpr ⟨rfl, isdigit_no_dash k revision h⟩
  have hint := k.int_digits revision (isdigit_mem k revision h).2
  rw [parseRevision, hcut]
  simp only [h, if_true, hint]
  cases k.natural revision <;> rfl

/-- The last part of a path is a name as it stands, or a name and a run of digits. -/
theorem parseRevision_cases (text : Text) :
    parseRevision k text = .ok (text, none) ∨
      ∃ name revision, text = name ++ '-' :: revision ∧ k.isdigit revision = true := by
  cases hcut : cutLast '-' text with
  | none =>
    left
    simp [parseRevision, hcut]
  | some e =>
    obtain ⟨htext, -⟩ := (cutLast_eq_some '-' text e.1 e.2).mp hcut
    cases hdigit : k.isdigit e.2 with
    | true => exact Or.inr ⟨e.1, e.2, htext, hdigit⟩
    | false =>
      left
      simp [parseRevision, hcut, hdigit]

end revision

/-- What stands before the name. -/
def headText (schema : Text) (user : Option Text) (series : Text) : Text :=
  schema ++ ':' :: (userText user ++ (series ++ ['/']))

/-- What `parse` has checked when it comes to the name. -/
structure HeadSpelled (schema : Text) (user : Option Text) (series : Text) : Prop where
  known : schema = cs ∨ schema = localSchema
  spelledUser : ∀ name, user = some name → schema = cs ∧ SpellsLine userRe name
  spelledSeries : SpellsLine seriesRe series

section parse

variable (k : TextKind) (schema : Text) (user : Option Text) (series : Text)

theorem series_no_tilde (h : SpellsLine seriesRe series) (text : Text) :
    series ≠ '~' :: text := by
  rintro rfl
  rcases spellsLine_mem seriesRe seriesRe_within _ h '~' (List.mem_cons_self ..) with hout | hnl
  · exact hout (by decide)
  · exact absurd hnl (by decide)

theorem parse_text (h : HeadSpelled schema user series) (name : Text) (hname : '/' ∉ name) :
    CharmURL.parse k (headText schema user series ++ name) =
      parseName k (headText schema user series ++ name) schema user series name := by
  have hcolon : ':' ∉ schema := by
    rcases h.known with rfl | rfl <;> decide
  have hcut : cutFirst ':' (headText schema user series ++ name) =
      some (schema, userText user ++ (series ++ '/' :: name)) :=
    (cutFirst_eq_some _ _ _ _).mpr ⟨by simp [headText], hcolon⟩
  have hslash := spellsLine_no_slash seriesRe seriesRe_within series h.spelledSeries
  have hseries := (reMatch_iff seriesRe series).mpr h.spelledSeries
  have hknown : ¬ (schema ≠ cs ∧ schema ≠ localSchema) := by
    rcases h.known with rfl | rfl <;> simp
  unfold CharmURL.parse
  rw [hcut]
  simp only [if_neg hknown]
  cases user with
  | none =>
    have hsplit : (userText none ++ (series ++ '/' :: name)).splitOn '/' = [series, name] :=
      (splitOn_eq_iff _ _ _ (by simp)).mpr
        ⟨by simp [userText, List.intercalate], by simpa using ⟨hslash, hname⟩⟩
    have huser (string : Text) :
        parseUser string schema [series, name] = .ok (none, [series, name]) := by
      unfold parseUser
      split
      · rename_i text parts heq
        exact absurd (List.cons.inj heq).1 (series_no_tilde series h.spelledSeries text)
      · rfl
    simp [hsplit, huser, hseries]
  | some name' =>
    obtain ⟨rfl, hspelled⟩ := h.spelledUser name' rfl
    have huser := spellsLine_no_slash userRe userRe_within name' hspelled
    have hsplit : (userText (some name') ++ (series ++ '/' :: name)).splitOn '/' =
        ['~' :: name', series, name] :=
      (splitOn_eq_iff _ _ _ (by simp)).mpr
        ⟨by simp [userText, List.intercalate], by simpa using ⟨huser, hslash, hname⟩⟩
    have hmatch := (reMatch_iff userRe name').mpr hspelled
    simp [hsplit, parseUser, hmatch, hseries, cs, localSchema]

theorem parseUser_ok (string : Text) (parts rest : List Text)
    (h : parseUser string schema parts = .ok (user, rest)) :
    (user = none ∧ rest = parts) ∨
      ∃ name, user = some name ∧ parts = ('~' :: name) :: rest ∧ schema ≠ localSchema ∧
        SpellsLine userRe name := by
  unfold parseUser at h
  split at h
  · rename_i name parts
    split at h
    · cases h
    · rename_i hschema
      split at h
      · cases h
      · rename_i hmatch
        obtain ⟨rfl, rfl⟩ := Prod.mk.inj (Except.ok.inj h)
        exact Or.inr ⟨name, rfl, rfl, hschema, (reMatch_iff _ _).mp (by simpa using hmatch)⟩
  · obtain ⟨rfl, rfl⟩ := Prod.mk.inj (Except.ok.inj h)
    exact Or.inl ⟨rfl, rfl⟩

theorem parseUser_error (string : Text) (parts : List Text) (e : URLError)
    (h : parseUser string schema parts = .error e) :
    ∃ message, e = .charmURLError string message := by
  unfold parseUser at h
  split at h
  · split at h
    · exact ⟨_, (Except.error.inj h).symm⟩
    · split at h
      · exact ⟨_, (Except.error.inj h).symm⟩
      · cases h
  · cases h

/-- A text is refused before the name is looked at, or is put together as `parse_text` has it. -/
theorem parse_cases (string : Text) :
    (∃ message, CharmURL.parse k string = .error (.charmURLError string message)) ∨
      ∃ schema user series name, HeadSpelled schema user series ∧ '/' ∉ name ∧
        string = headText schema user series ++ name := by
  unfold CharmURL.parse
  split
  · exact Or.inl ⟨_, rfl⟩
  · rename_i schema rest hcut
    obtain ⟨rfl, -⟩ := (cutFirst_eq_some _ _ _ _).mp hcut
    split
    · exact Or.inl ⟨_, rfl⟩
    · rename_i hknown
      have hschema : schema = cs ∨ schema = localSchema := by
        by_contra hno
        exact hknown (not_or.mp hno)
      dsimp only
      split
      · exact Or.inl ⟨_, rfl⟩
      · have hparts := not_mem_splitOn '/' rest
        have hjoin : ['/'].intercalate (rest.splitOn '/') = rest := List.intercalate_splitOn '/'
        generalize rest.splitOn '/' = parts at hparts hjoin
        split
        · rename_i e he
          obtain ⟨message, rfl⟩ := parseUser_error schema _ parts e he
          exact Or.inl ⟨message, rfl⟩
        · rename_i user series name hok
          split
          · exact Or.inl ⟨_, rfl⟩
          · rename_i hmatch
            have hseries : SpellsLine seriesRe series :=
              (reMatch_iff _ _).mp (by simpa using hmatch)
            right
            rcases parseUser_ok schema user _ parts _ hok with
              ⟨rfl, rfl⟩ | ⟨u, rfl, rfl, hlocal, huser⟩
            · refine ⟨schema, none, series, name, ⟨hschema, by simp, hseries⟩,
                hparts name (by simp), ?_⟩
              rw [← hjoin]
              simp [headText, userText, List.intercalate]
            · have hcs : schema = cs := hschema.resolve_right hlocal
              refine ⟨schema, some u, series, name, ⟨hschema, ?_, hseries⟩,
                hparts name (by simp), ?_⟩
              · intro u' hu'
                obtain rfl := Option.some.inj hu'
                exact ⟨hcs, huser⟩
              · rw [← hjoin]
                simp [headText, userText, List.intercalate]
        · exact Or.inl ⟨_, rfl⟩

end parse

end Juju.Charm

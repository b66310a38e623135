import Juju.Charm.ConfigFailures

namespace Juju.Charm.ServiceOptions
open Juju.Base Juju.Config Juju.Lib

section parse

variable (load : YamlLoad)

/-- A value that `parse` is given, itself or as a text that is loaded to it. -/
inductive Given : Value → Value → Prop
  | str (s : String) (raw : Value) (h : load .bytes s = some raw) : Given (.str s) raw
  | unicode (s : String) (raw : Value) (h : load .unicode s = some raw) : Given (.unicode s) raw
  | value (raw : Value) (h : isText raw = false) : Given raw raw

theorem rawData_given (data raw : Value) (pathname : Option String) (h : Given load data raw) :
    rawData load data pathname = .ok raw ∨
      ((¬ ∃ options, Specification raw options) ∧ ∃ path message,
        rawData load data pathname = .error (.serviceConfigError path message)) := by
  cases h with
  | str s _ h => exact Or.inl (by simp [rawData, h])
  | unicode s _ h => exact Or.inl (by simp [rawData, h])
  | value _ h =>
    by_cases hdict : ∃ d, data = .dict d
    · obtain ⟨d, rfl⟩ := hdict
      exact Or.inl rfl
    · refine Or.inr ⟨?_, ?_⟩
      · rintro ⟨options, d, rfl, -⟩
        exact hdict ⟨d, rfl⟩
      · unfold rawData
        split
        · cases h
        · cases h
        · exact absurd ⟨_, rfl⟩ hdict
        · exact ⟨_, _, rfl⟩

namespace ConfigOptions

variable (o : ConfigOptions)

/-- `parse` installs options whose defaults have their types, or raises one of its errors and
leaves the options as they were. -/
def ParsesCleanly (data raw : Value) (pathname : Option String) : Prop :=
  let result := o.parse load data pathname
  (result.1 = .ok () ∧ Specification raw result.2.data ∧
      ∃ d, result.2.getDefaults = .ok d ∧
        d.map Prod.fst = (defaults result.2.data).map Prod.fst ∧ Typed result.2.data d) ∨
    ((∃ e, result.1 = .error e ∧ e.isServiceConfig = true) ∧ result.2.data = o.data)

/-- When `parse` goes cleanly: the data specifies no options, or each default fits, or the options
are the ones that were there and no default escapes. -/
def ParsesSafely (raw : Value) : Prop :=
  ∀ options, Specification raw options → (∀ item ∈ defaults options, Fits options item) ∨
    (o.data = options ∧ ¬ Reaches (Fits options) (Escapes options) (defaults options))

section cases

variable (data raw : Value) (pathname : Option String)

theorem parse_none (hgiven : Given load data raw) (h : ¬ ∃ options, Specification raw options) :
    (∃ e, (o.parse load data pathname).1 = .error e ∧ e.isServiceConfig = true) ∧
      (o.parse load data pathname).2 = o := by
  cases rawData_given load data raw pathname hgiven with
  | inl hraw =>
    obtain ⟨path, message, herror⟩ := parse_unspecified raw pathname h
    simp [parse, hraw, herror, ConfigRaised.isServiceConfig]
  | inr hraw =>
    obtain ⟨-, path, message, herror⟩ := hraw
    simp [parse, herror, ConfigRaised.isServiceConfig]

/-- The options are installed, and then the defaults are validated. -/
theorem parse_some (hgiven : Given load data raw) (options : Entries)
    (h : Specification raw options) :
    ∃ o' : ConfigOptions, o'.data = options ∧
      o.parse load data pathname = ((o'.validate (defaults options)).map fun _ => (), o') := by
  have hraw : rawData load data pathname = .ok raw := by
    cases rawData_given load data raw pathname hgiven with
    | inl hraw => exact hraw
    | inr hraw => exact absurd ⟨options, h⟩ hraw.1
  have hoptions := parse_specification raw options pathname h
  have hwell : WellFormed options := specification_options raw options h
  refine ⟨{ (o.warn options pathname) with data := options }, rfl, ?_⟩
  have hdefaults := getDefaults_eq { (o.warn options pathname) with data := options } hwell
  simp only [parse, hraw, hoptions, hdefaults]

/-- Data specifies its options and no others. -/
theorem specification_unique (options options' : Entries) (h : Specification raw options)
    (h' : Specification raw options') : options = options' := by
  obtain ⟨d, rfl, hlookup, -⟩ := h
  obtain ⟨d', hd, hlookup', -⟩ := h'
  obtain rfl := Value.dict.inj hd
  exact Value.dict.inj (Option.some.inj (hlookup.symm.trans hlookup'))

section defaults

variable (o' : ConfigOptions) (hspec : Specification raw o'.data)
    (hparse : o.parse load data pathname =
      ((o'.validate (defaults o'.data)).map fun _ => (), o'))
include hspec hparse

theorem parsesCleanly_fits (hfits : ∀ item ∈ defaults o'.data, Fits o'.data item) :
    o.ParsesCleanly load data raw pathname := by
  have hwell : WellFormed o'.data := specification_options raw o'.data hspec
  obtain ⟨d, hd, hnames, htyped, -⟩ := o'.validate_fits hwell _ hfits
  refine Or.inl ⟨?_, ?_, ?_⟩
  · rw [hparse, hd]
    rfl
  · rw [hparse]
    exact hspec
  · rw [hparse]
    exact ⟨d, (o'.getDefaults_eq hwell).trans hd, hnames, htyped⟩

theorem parsesCleanly_escapes
    (hreaches : Reaches (Fits o'.data) (Escapes o'.data) (defaults o'.data)) :
    ¬ o.ParsesCleanly load data raw pathname := by
  have hwell : WellFormed o'.data := specification_options raw o'.data hspec
  have herror := o'.validate_escapes hwell _ hreaches
  simp only [ParsesCleanly, hparse]
  cases herror with
  | inl htype => simp [htype, Except.map, ConfigRaised.isServiceConfig]
  | inr hoverflow => simp [hoverflow, Except.map, ConfigRaised.isServiceConfig]

theorem parsesCleanly_refuses
    (hno : ¬ Reaches (Fits o'.data) (Escapes o'.data) (defaults o'.data))
    (hfits : ¬ ∀ item ∈ defaults o'.data, Fits o'.data item) :
    o.ParsesCleanly load data raw pathname ↔ o'.data = o.data := by
  have hwell : WellFormed o'.data := specification_options raw o'.data hspec
  obtain ⟨message, herror⟩ := o'.validate_refuses hwell _ hno hfits
  simp [ParsesCleanly, hparse, herror, Except.map, ConfigRaised.isServiceConfig]

end defaults

theorem parsesCleanly_iff (hgiven : Given load data raw) :
    o.ParsesCleanly load data raw pathname ↔ o.ParsesSafely raw := by
  by_cases hspec : ∃ options, Specification raw options
  · obtain ⟨options, hspec⟩ := hspec
    obtain ⟨o', rfl, hparse⟩ := o.parse_some load data raw pathname hgiven options hspec
    have hsafe : o.ParsesSafely raw ↔ (∀ item ∈ defaults o'.data, Fits o'.data item) ∨
        (o.data = o'.data ∧
          ¬ Reaches (Fits o'.data) (Escapes o'.data) (defaults o'.data)) := by
      constructor
      · exact fun h => h o'.data hspec
      · intro h options hoptions
        rwa [specification_unique raw options o'.data hoptions hspec]
    rw [hsafe]
    by_cases hfits : ∀ item ∈ defaults o'.data, Fits o'.data item
    · have hclean := o.parsesCleanly_fits load data raw pathname o' hspec hparse hfits
      exact ⟨fun _ => Or.inl hfits, fun _ => hclean⟩
    · by_cases hreaches : Reaches (Fits o'.data) (Escapes o'.data) (defaults o'.data)
      · have hnot := o.parsesCleanly_escapes load data raw pathname o' hspec hparse hreaches
        exact ⟨fun hclean => absurd hclean hnot,
          fun h => absurd hreaches (h.resolve_left hfits).2⟩
      · rw [o.parsesCleanly_refuses load data raw pathname o' hspec hparse hreaches hfits]
        exact ⟨fun hsame => Or.inr ⟨hsame.symm, hreaches⟩,
          fun h => (h.resolve_left hfits).1.symm⟩
  · have hraised := o.parse_none load data raw pathname hgiven hspec
    constructor
    · exact fun _ options h => absurd ⟨options, h⟩ hspec
    · intro _
      refine Or.inr ⟨hraised.1, ?_⟩
      rw [hraised.2]

end cases

end ConfigOptions

/-- What was loaded is well formed, even where `parse` raised. -/
theorem loaded_wellFormed (o : ConfigOptions) (h : Loaded load o) : WellFormed o.data := by
  induction h with
  | init => simp [WellFormed]
  | parse o data pathname _ ih =>
    unfold ConfigOptions.parse
    split
    · exact ih
    · rename_i raw _
      split
      · exact ih
      · rename_i options hoptions
        by_cases hspec : ∃ options, Specification raw options
        · obtain ⟨options', hspec⟩ := hspec
          rw [parse_specification raw options' pathname hspec] at hoptions
          obtain rfl := Except.ok.inj hoptions
          exact specification_options raw options' hspec
        · obtain ⟨path, message, herror⟩ := parse_unspecified raw pathname hspec
          rw [herror] at hoptions
          cases hoptions

/-- When the options fail cleanly: `parse`, and `validate` of the options that are loaded. -/
theorem fails_cleanly_iff (o : ConfigOptions) (hloaded : Loaded load o) (data raw : Value)
    (hgiven : Given load data raw) (pathname : Option String) (options : Entries) :
    (o.ParsesCleanly load data raw pathname ↔ o.ParsesSafely raw) ∧
      (o.ValidatesCleanly options ↔ ¬ Reaches (Fits o.data) (Escapes o.data) options) :=
  ⟨o.parsesCleanly_iff load data raw pathname hgiven,
    o.validatesCleanly_iff (loaded_wellFormed load o hloaded) options⟩

end parse

section skill

/-- Options with one of type `int`. -/
def skillOptions : Value :=
  .dict [(.str "options", .dict [(.str "skill-level",
    .dict [(.str "description", .str "A number indicating skill."), (.str "type", .str "int")])])]

/-- A default that is not of its type. -/
def beyondWhat : Value :=
  .dict [(.str "options", .dict [(.str "foobar",
    .dict [(.str "description", .str "beyond what?"), (.str "type", .str "string"),
      (.str "default", .bool true)])])]

def emptyOptions : Value := .dict [(.str "options", .dict [])]

/-- `yaml.load`, of the text that stands for a file that is missing. -/
def loadEmpty : YamlLoad := fun _ s => if s = "options: {}\n" then some emptyOptions else none

def skill : ConfigOptions := (ConfigOptions.parse loadEmpty {} skillOptions none).2

theorem fails_cleanly_iff_skill :
    (skill.ParsesCleanly loadEmpty (.str "options: {}\n") emptyOptions none ↔
        skill.ParsesSafely emptyOptions) ∧
      (skill.ValidatesCleanly [(.str "skill-level", .str "9001")] ↔
        ¬ Reaches (Fits skill.data) (Escapes skill.data) [(.str "skill-level", .str "9001")]) :=
  fails_cleanly_iff loadEmpty skill (.parse _ _ _ .init) _ _ (.str _ _ rfl) none _

/-- A default is refused after the options were replaced, and `None` escapes from `validate`. -/
theorem skill_replaced : Loaded loadEmpty skill ∧ Given loadEmpty beyondWhat beyondWhat ∧
    ¬ skill.ParsesCleanly loadEmpty beyondWhat beyondWhat none ∧
      ¬ skill.ValidatesCleanly [(.str "skill-level", .none)] := by
  have hraised : (skill.parse loadEmpty beyondWhat none).1 =
      .error (.serviceConfigValueError (.invalidValue (.str "foobar") (.bool true))) := rfl
  have hreplaced : (skill.parse loadEmpty beyondWhat none).2.data.map Prod.fst =
      [.str "foobar"] := rfl
  have hskill : skill.data.map Prod.fst = [.str "skill-level"] := rfl
  have hescapes : skill.validate [(.str "skill-level", .none)] = .error .typeError := rfl
  refine ⟨.parse _ _ _ .init, .value _ rfl, ?_, ?_⟩
  · intro hclean
    cases hclean with
    | inl hok =>
      rw [hok.1] at hraised
      cases hraised
    | inr hkept =>
      rw [hkept.2, hskill] at hreplaced
      simp at hreplaced
  · intro hclean
    simp [ConfigOptions.ValidatesCleanly, hescapes] at hclean

end skill

end Juju.Charm.ServiceOptions

import Juju.Charm.ConfigOptions
import Juju.Config.SchemaAccepts

namespace Juju.Charm.ServiceOptions
open Juju.Base Juju.Config Juju.Lib

section numbers

def isIntValue : Value → Bool
  | .int _ => true
  | .bool _ => true
  | _ => false

def isFloatValue : Value → Bool
  | .float _ => true
  | .object repr => repr ∈ specialFloats
  | _ => false

theorem int_accepts : Accepts int (isIntValue · = true) := by
  constructor
  · intro value path h
    cases value <;> simp_all [int, isIntValue]
  · intro value path h
    cases value <;> simp_all [int, isIntValue]

theorem float_accepts : Accepts float fun value => isIntValue value || isFloatValue value := by
  constructor
  · intro value path h
    cases value <;> simp_all [float, isIntValue, isFloatValue]
  · intro value path h
    cases value <;> simp_all [float, isIntValue, isFloatValue]

end numbers

/-- The types that an option can have. -/
def kinds : List String := ["string", "str", "int", "boolean", "float"]

def IsKind (value : Value) : Prop := ∃ kind ∈ kinds, value = .str kind

/-- A value that can be a default. -/
def IsDefault (value : Value) : Prop :=
  (∃ s, value = .str s) ∨ isIntValue value = true ∨ isFloatValue value = true

/-- What is said of an option. -/
structure OptionInfo (info : Entries) : Prop where
  required : info.lookup (.str "type") ≠ none
  type : ∀ e ∈ info, e.1 = .str "type" → IsKind e.2
  default : ∀ e ∈ info, e.1 = .str "default" → IsDefault e.2
  description : ∀ e ∈ info, e.1 = .str "description" → ∃ s, e.2 = .str s

def IsOption (value : Value) : Prop := ∃ info, value = .dict info ∧ OptionInfo info

def IsOptions (value : Value) : Prop := ∃ options, value = .dict options ∧
  ∀ e ∈ options, Named IsOption e

/-- Loaded data that specifies these options. -/
def Specification (raw : Value) (options : Entries) : Prop :=
  ∃ d, raw = .dict d ∧ d.lookup (.str "options") = some (.dict options) ∧
    ∀ e ∈ d, e.1 = .str "options" → IsOptions e.2

section schemas

def optionField (name : String) (value : Value) : Prop :=
  (name = "type" → IsKind value) ∧ (name = "default" → IsDefault value) ∧
    (name = "description" → ∃ s, value = .str s)

theorem kind_accepts :
    Accepts (oneOf [constant (.str "string"), constant (.str "str"), constant (.str "int"),
      constant (.str "boolean"), constant (.str "float")]) IsKind := by
  have hall := oneOf_accepts _ _ (.cons (constant_accepts "string")
    (.cons (constant_accepts "str") (.cons (constant_accepts "int")
    (.cons (constant_accepts "boolean") (.cons (constant_accepts "float") .nil))))) (by simp)
  exact accepts_congr _ _ _ hall fun value => by simp [IsKind, kinds]

theorem default_accepts : Accepts (oneOf [string, int, float]) IsDefault := by
  have hall := oneOf_accepts _ _ (.cons string_accepts (.cons int_accepts
    (.cons float_accepts .nil))) (by simp)
  refine accepts_congr _ _ _ hall fun value => ?_
  simp only [IsDefault, List.mem_cons, List.not_mem_nil, or_false, exists_eq_or_imp,
    exists_eq_left, Bool.or_eq_true]
  tauto

theorem option_accepts : Accepts OPTION_SCHEMA IsOption := by
  have hfields (name : String) (s : Schema)
      (hs : [("type", oneOf [constant (.str "string"), constant (.str "str"),
        constant (.str "int"), constant (.str "boolean"), constant (.str "float")]),
        ("default", oneOf [string, int, float]), ("description", string)].lookup name = some s) :
      Accepts s (optionField name) := by
    simp only [Entries.lookup_cons, List.lookup_nil] at hs
    split at hs
    · rename_i hname
      obtain rfl := Option.some.inj hs
      exact accepts_congr _ _ _ kind_accepts fun value => by simp [optionField, hname]
    · split at hs
      · rename_i hname
        obtain rfl := Option.some.inj hs
        exact accepts_congr _ _ _ default_accepts fun value => by simp [optionField, hname]
      · split at hs
        · rename_i hname
          obtain rfl := Option.some.inj hs
          exact accepts_congr _ _ _ string_accepts fun value => by simp [optionField, hname]
        · cases hs
  refine accepts_congr _ _ _ (keyDict_accepts _ _ optionField hfields) fun value => ?_
  refine exists_congr fun info => and_congr_right fun _ => ?_
  constructor
  · rintro ⟨hlisted, hrequired⟩
    refine ⟨hrequired _ List.mem_cons_self (by simp), ?_, ?_, ?_⟩
    · exact fun e he hkey => (hlisted e he "type" hkey (by simp)).1 rfl
    · exact fun e he hkey => (hlisted e he "default" hkey (by simp [List.lookup_cons])).2.1 rfl
    · exact fun e he hkey => (hlisted e he "description" hkey (by simp [List.lookup_cons])).2.2 rfl
  · intro hinfo
    refine ⟨fun e he name hname _ => ⟨?_, ?_, ?_⟩, ?_⟩
    · exact fun h => hinfo.type e he (h ▸ hname)
    · exact fun h => hinfo.default e he (h ▸ hname)
    · exact fun h => hinfo.description e he (h ▸ hname)
    · intro e he hoptional
      simp only [List.mem_cons, List.not_mem_nil, or_false] at he
      rcases he with rfl | rfl | rfl
      · exact hinfo.required
      · simp at hoptional
      · simp at hoptional

theorem config_accepts :
    Accepts CONFIG_SCHEMA fun value => ∃ options, Specification value options := by
  have hfields (name : String) (s : Schema)
      (hs : [("options", stringDict OPTION_SCHEMA)].lookup name = some s) :
      Accepts s fun value => name = "options" → IsOptions value := by
    simp only [Entries.lookup_cons, List.lookup_nil] at hs
    split at hs
    · rename_i hname
      obtain rfl := Option.some.inj hs
      exact accepts_congr _ _ _ (stringDict_accepts _ _ option_accepts) fun value => by
        simp [IsOptions, hname]
    · cases hs
  refine accepts_congr _ _ _ (keyDict_accepts _ _ _ hfields) fun value => ?_
  constructor
  · rintro ⟨d, rfl, hlisted, hrequired⟩
    have hoptions : ∀ e ∈ d, e.1 = .str "options" → IsOptions e.2 :=
      fun e he hkey => hlisted e he "options" hkey (by simp) rfl
    obtain ⟨v, hv⟩ := Option.ne_none_iff_exists'.mp (hrequired _ List.mem_cons_self (by simp))
    obtain ⟨options, rfl, -⟩ := hoptions _ (Entries.mem_of_lookup _ _ _ hv) rfl
    exact ⟨options, d, rfl, hv, hoptions⟩
  · rintro ⟨options, d, rfl, hlookup, hoptions⟩
    refine ⟨d, rfl, fun e he name hname _ h => hoptions e he (h ▸ hname), fun e he _ => ?_⟩
    rw [List.mem_singleton.mp he, hlookup]
    exact Option.some_ne_none _

end schemas

section parse

variable (raw : Value) (options : Entries) (pathname : Option String)

theorem specification_options (h : Specification raw options) :
    ∀ e ∈ options, Named IsOption e := by
  obtain ⟨d, -, hlookup, hoptions⟩ := h
  obtain ⟨options', heq, hnamed⟩ := hoptions _ (Entries.mem_of_lookup _ _ _ hlookup) rfl
  rwa [Value.dict.inj heq]

theorem parse_specification (h : Specification raw options) :
    parseSerializationData raw pathname = .ok options := by
  have hok := config_accepts.accepts raw [] ⟨options, h⟩
  obtain ⟨d, rfl, hlookup, -⟩ := h
  cases d with
  | nil => cases hlookup
  | cons e d =>
    simp only [parseSerializationData, hok, asDict, getItem, bind, Except.bind, hlookup]

theorem parse_unspecified (h : ¬ ∃ options, Specification raw options) :
    ∃ path message, parseSerializationData raw pathname =
      .error (.serviceConfigError path message) := by
  obtain ⟨p, m, herror⟩ := config_accepts.refuses raw [] h
  unfold parseSerializationData
  split
  · rw [herror]
    exact ⟨_, _, rfl⟩
  · exact ⟨_, _, rfl⟩

end parse

end Juju.Charm.ServiceOptions

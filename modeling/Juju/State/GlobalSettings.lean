import Juju.Base.Dict
import Juju.Lib.SharedNode

namespace Juju.State
open Juju.Base Juju.Lib

inductive SettingValue where
  | flag (enabled : Bool)
  | text (s : String)
  deriving DecidableEq

def SettingValue.truthy : SettingValue → Bool
  | .flag enabled => enabled
  | .text s => s ≠ ""

/-- The settings node holds no dictionary: its content has no items. -/
inductive SettingsError where
  | notDictionary

/-- A YAML codec for the settings node. What is dumped is loaded, and an empty content is None. -/
structure SettingsYaml (T : Type) where
  empty : T → Bool
  load : T → Option (Dict String SettingValue)
  safeDump : Dict String SettingValue → T
  load_safeDump : ∀ data, load (safeDump data) = some data
  load_empty : ∀ content, empty content = true → load content = none

section calls

variable {T : Type} (yaml : SettingsYaml T)

/-- The change that `_set_value` makes. -/
def setValue (key : String) (value : SettingValue) (oldContent : Option T) :
    Except SettingsError T :=
  let data := match oldContent with
    | none => some ∅
    | some content => if yaml.empty content then some ∅ else yaml.load content
  match data with
  | none => .error .notDictionary
  | some data => .ok (yaml.safeDump (data.insert key value))

/-- `_get_value`, given the node. -/
def getValue (key : String) (default : Option SettingValue) (content : Option T) :
    Except SettingsError (Option SettingValue) :=
  match content with
  | none => .ok default
  | some content =>
    match yaml.load content with
    | none => .error .notDictionary
    | some data => .ok ((data.lookup key).or default)

/-- A call of `GlobalSettingsStateManager`. -/
inductive SettingsCall where
  | setProviderType (providerType : String)
  | getProviderType
  | setDebugLog (enabled : Bool)
  | isDebugLogEnabled

def SettingsCall.nodeCall : SettingsCall → NodeCall T SettingsError
  | .setProviderType providerType => .change (setValue yaml "provider-type" (.text providerType))
  | .getProviderType => .get
  | .setDebugLog enabled => .change (setValue yaml "debug-log" (.flag enabled))
  | .isDebugLogEnabled => .get

/-- Whether the debug log is enabled by the content of the node. -/
def debugLogEnabled (content : Option T) : Except SettingsError Bool := do
  let value ← getValue yaml "debug-log" (some (.flag false)) content
  pure (value.any SettingValue.truthy)

end calls

/-- What the last call about the debug log sets it to. -/
def SettingsCall.debugLog : SettingsCall → Option Bool
  | .setDebugLog enabled => some enabled
  | _ => none

def lastDebugLog (calls : List SettingsCall) : Option Bool :=
  calls.reverse.findSome? SettingsCall.debugLog

section loadable

variable {T : Type} (yaml : SettingsYaml T)

/-- The node is not there, or its content is a dictionary. -/
def Loadable (content : Option T) : Prop :=
  ∀ c, content = some c → ∃ data, yaml.load c = some data

theorem debugLogEnabled_load (content : T) (data : Dict String SettingValue)
    (h : yaml.load content = some data) :
    debugLogEnabled yaml (some content) =
      .ok (((data.lookup "debug-log").or (some (.flag false))).any SettingValue.truthy) := by
  simp only [debugLogEnabled, getValue, h]
  rfl

theorem loadable_enabled (content : Option T) (h : Loadable yaml content) :
    ∃ enabled, debugLogEnabled yaml content = .ok enabled := by
  cases content with
  | none => exact ⟨false, rfl⟩
  | some content =>
    obtain ⟨data, hdata⟩ := h content rfl
    exact ⟨_, debugLogEnabled_load yaml content data hdata⟩

theorem enabled_loadable (content : Option T) (enabled : Bool)
    (h : debugLogEnabled yaml content = .ok enabled) : Loadable yaml content := by
  rintro c rfl
  cases hload : yaml.load c with
  | some data => exact ⟨data, rfl⟩
  | none =>
    simp only [debugLogEnabled, getValue, hload] at h
    cases h

/-- In a loadable node a setting replaces the value of its key, and nothing else. -/
theorem setValue_loadable (key : String) (value : SettingValue) (content : Option T)
    (h : Loadable yaml content) : ∃ data,
      setValue yaml key value content = .ok (yaml.safeDump (data.insert key value)) ∧
        (content = none ∧ data = ∅ ∨ ∃ c, content = some c ∧ yaml.load c = some data) := by
  cases content with
  | none => exact ⟨∅, rfl, Or.inl ⟨rfl, rfl⟩⟩
  | some c =>
    obtain ⟨data, hdata⟩ := h c rfl
    refine ⟨data, ?_, Or.inr ⟨c, rfl, hdata⟩⟩
    cases hempty : yaml.empty c with
    | true =>
      have hnone := yaml.load_empty c hempty
      rw [hdata] at hnone
      cases hnone
    | false => simp [setValue, hempty, hdata]

theorem apply_loadable (call : SettingsCall) (content : Option T) (h : Loadable yaml content) :
    Loadable yaml ((call.nodeCall yaml).apply content).1 := by
  have hset (key : String) (value : SettingValue) :
      Loadable yaml (NodeCall.apply content (.change (setValue yaml key value))).1 := by
    obtain ⟨data, hok, -⟩ := setValue_loadable yaml key value content h
    simp only [NodeCall.apply, hok]
    rintro c ⟨⟩
    exact ⟨_, yaml.load_safeDump _⟩
  cases call with
  | setProviderType providerType => exact hset _ _
  | setDebugLog enabled => exact hset _ _
  | getProviderType => cases content <;> exact h
  | isDebugLogEnabled => cases content <;> exact h

/-- Only a call about the debug log changes whether it is enabled. -/
theorem apply_debugLog (call : SettingsCall) (content : Option T) (h : Loadable yaml content)
    (enabled : Bool) (henabled : debugLogEnabled yaml content = .ok enabled) :
    debugLogEnabled yaml ((call.nodeCall yaml).apply content).1 =
      .ok (call.debugLog.getD enabled) := by
  cases call with
  | setProviderType providerType =>
    obtain ⟨data, hok, hdata⟩ :=
      setValue_loadable yaml "provider-type" (.text providerType) content h
    simp only [SettingsCall.nodeCall, NodeCall.apply, hok]
    rw [debugLogEnabled_load yaml _ _ (yaml.load_safeDump _), Dict.lookup_insert,
      if_neg (by decide)]
    rcases hdata with ⟨rfl, rfl⟩ | ⟨c, rfl, hdata⟩
    · exact henabled
    · rw [debugLogEnabled_load yaml c data hdata] at henabled
      exact henabled
  | setDebugLog setting =>
    obtain ⟨data, hok, -⟩ := setValue_loadable yaml "debug-log" (.flag setting) content h
    simp only [SettingsCall.nodeCall, NodeCall.apply, hok]
    rw [debugLogEnabled_load yaml _ _ (yaml.load_safeDump _), Dict.lookup_insert, if_pos rfl]
    rfl
  | getProviderType =>
    cases content with
    | none => exact henabled
    | some c => exact henabled
  | isDebugLogEnabled =>
    cases content with
    | none => exact henabled
    | some c => exact henabled

/-- After any calls the debug log is enabled as the last call about it has it. -/
theorem calls_debugLog (base : Option T) (calls : List SettingsCall) (hbase : Loadable yaml base)
    (enabled : Bool) (henabled : debugLogEnabled yaml base = .ok enabled) :
    Loadable yaml (SharedNode.applyAll (SettingsCall.nodeCall yaml) base calls) ∧
      debugLogEnabled yaml (SharedNode.applyAll (SettingsCall.nodeCall yaml) base calls) =
        .ok ((lastDebugLog calls).getD enabled) := by
  induction calls using List.reverseRecOn with
  | nil => exact ⟨hbase, henabled⟩
  | append_singleton calls call ih =>
    obtain ⟨hloadable, hsame⟩ := ih
    rw [SharedNode.applyAll_append]
    refine ⟨apply_loadable yaml call _ hloadable, ?_⟩
    refine (apply_debugLog yaml call _ hloadable _ hsame).trans ?_
    rw [lastDebugLog, lastDebugLog, List.reverse_append, List.reverse_singleton,
      List.singleton_append, List.findSome?_cons]
    cases call.debugLog with
    | none => rfl
    | some setting => rfl

end loadable

end Juju.State

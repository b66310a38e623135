import Juju.Charm.ConfigSpecification

namespace Juju.Charm.ServiceOptions
open Juju.Base Juju.Config Juju.Lib

def isText : Value → Bool
  | .str _ => true
  | .unicode _ => true
  | _ => false

/-- A value that `int` reads. -/
def readable : Value → Bool
  | .bool _ => true
  | .int _ => true
  | .float _ => true
  | .str s => (TextKind.bytes.int s.toList).isSome
  | .unicode s => (TextKind.unicode.int s.toList).isSome
  | _ => false

/-- A value for which `int` raises something other than a `ValueError`: it is neither a number nor
a text, or it is infinite. -/
def unreadable : Value → Bool
  | .none => true
  | .list _ => true
  | .tuple _ => true
  | .set _ => true
  | .dict _ => true
  | .object repr => repr ≠ "nan"
  | _ => false

/-- A number that `isinstance(value, (int, float))` holds of. -/
def isNumber : Value → Bool
  | .bool _ => true
  | .int i => isInt i
  | value => isFloatValue value

def isBool : Value → Bool
  | .bool _ => true
  | _ => false

/-- A value that an option of the type takes. -/
def Takes (kind : String) (value : Value) : Prop :=
  ((kind = "string" ∨ kind = "str") ∧ isText value = true) ∨
    (kind = "int" ∧ readable value = true) ∨ (kind = "float" ∧ isNumber value = true) ∨
    (kind = "boolean" ∧ isBool value = true)

/-- A value of the type. -/
def HasType (kind : String) (value : Value) : Prop :=
  ((kind = "string" ∨ kind = "str") ∧ isText value = true) ∨
    (kind = "int" ∧ ∃ i, value = .int i) ∨ (kind = "float" ∧ isFloatValue value = true) ∨
    (kind = "boolean" ∧ isBool value = true)

/-- How a validator of the type goes. -/
structure Validates (kind : String) (validator : Validator) : Prop where
  takes : ∀ value, Takes kind value →
    ∃ v, validator value = .ok (v, true) ∧ HasType kind v ∧ validator v = .ok (v, true)
  refuses : ∀ value, ¬ Takes kind value → ¬ (kind = "int" ∧ unreadable value = true) →
    ∃ v, validator value = .ok (v, false)
  escapes : kind = "int" → ∀ value, unreadable value = true →
    validator value = .error .typeError ∨ validator value = .error .overflowError

section validators

theorem validateStr_validates (kind : String) (h : kind = "string" ∨ kind = "str") :
    Validates kind validateStr := by
  have hint : kind ≠ "int" := by rcases h with rfl | rfl <;> simp
  have htakes (value : Value) : Takes kind value ↔ isText value = true := by
    rcases h with rfl | rfl <;> simp [Takes]
  refine ⟨fun value hvalue => ?_, fun value hno _ => ?_, fun he => absurd he hint⟩
  · have htext := (htakes value).mp hvalue
    have hok : validateStr value = .ok (value, true) := by
      cases value <;> simp_all [validateStr, isText]
    exact ⟨value, hok, Or.inl ⟨h, htext⟩, hok⟩
  · rw [htakes] at hno
    cases value <;> simp_all [validateStr, isText]

theorem validateBoolean_validates : Validates "boolean" validateBoolean := by
  have htakes (value : Value) : Takes "boolean" value ↔ isBool value = true := by simp [Takes]
  refine ⟨fun value hvalue => ?_, fun value hno _ => ?_, fun he => absurd he (by simp)⟩
  · have hbool := (htakes value).mp hvalue
    have hok : validateBoolean value = .ok (value, true) := by
      cases value <;> simp_all [validateBoolean, isBool]
    exact ⟨value, hok, by simp [HasType, hbool], hok⟩
  · rw [htakes] at hno
    cases value <;> simp_all [validateBoolean, isBool]

theorem validateFloat_validates : Validates "float" validateFloat := by
  have htakes (value : Value) : Takes "float" value ↔ isNumber value = true := by simp [Takes]
  have hfloat (value : Value) (h : isFloatValue value = true) :
      validateFloat value = .ok (value, true) := by
    cases value <;> simp_all [validateFloat, isFloatValue]
  refine ⟨fun value hvalue => ?_, fun value hno _ => ?_, fun he => absurd he (by simp)⟩
  · rw [htakes] at hvalue
    have hconverted : ∃ v, validateFloat value = .ok (v, true) ∧ isFloatValue v = true := by
      cases value <;> simp_all [validateFloat, isNumber, isFloatValue]
    obtain ⟨v, hv, hv'⟩ := hconverted
    exact ⟨v, hv, by simp [HasType, hv'], hfloat v hv'⟩
  · rw [htakes] at hno
    cases value <;> simp_all [validateFloat, isNumber, isFloatValue]

theorem validateInt_validates : Validates "int" validateInt := by
  have htakes (value : Value) : Takes "int" value ↔ readable value = true := by simp [Takes]
  refine ⟨fun value hvalue => ?_, fun value hno hread => ?_, fun _ value hvalue => ?_⟩
  · rw [htakes] at hvalue
    have hconverted : ∃ i, validateInt value = .ok (.int i, true) := by
      cases value with
      | str s =>
        obtain ⟨i, hi⟩ := Option.isSome_iff_exists.mp hvalue
        exact ⟨i, by simp [validateInt, validateText, hi]⟩
      | unicode s =>
        obtain ⟨i, hi⟩ := Option.isSome_iff_exists.mp hvalue
        exact ⟨i, by simp [validateInt, validateText, hi]⟩
      | bool b => exact ⟨_, rfl⟩
      | int i => exact ⟨i, rfl⟩
      | float x => exact ⟨_, rfl⟩
      | none => cases hvalue
      | list values => cases hvalue
      | tuple values => cases hvalue
      | set values => cases hvalue
      | dict entries => cases hvalue
      | object repr => cases hvalue
    obtain ⟨i, hi⟩ := hconverted
    exact ⟨.int i, hi, by simp [HasType], rfl⟩
  · rw [htakes] at hno
    cases value <;> simp_all [validateInt, validateText, readable, unreadable]
  · cases value with
    | object repr =>
      have hnan : repr ≠ "nan" := by simpa [unreadable] using hvalue
      by_cases hspecial : repr ∈ specialFloats
      · exact Or.inr (by simp [validateInt, hnan, hspecial])
      · exact Or.inl (by simp [validateInt, hnan, hspecial])
    | none => exact Or.inl rfl
    | list values => exact Or.inl rfl
    | tuple values => exact Or.inl rfl
    | set values => exact Or.inl rfl
    | dict entries => exact Or.inl rfl
    | bool b => cases hvalue
    | int i => cases hvalue
    | float x => cases hvalue
    | str s => cases hvalue
    | unicode s => cases hvalue

theorem validationKinds_validates (kind : String) (h : kind ∈ kinds) :
    ∃ validator, validationKinds.lookup kind = some validator ∧ Validates kind validator := by
  simp only [kinds, List.mem_cons, List.not_mem_nil, or_false] at h
  rcases h with rfl | rfl | rfl | rfl | rfl
  · exact ⟨validateStr, rfl, validateStr_validates _ (Or.inl rfl)⟩
  · exact ⟨validateStr, rfl, validateStr_validates _ (Or.inr rfl)⟩
  · exact ⟨validateInt, rfl, validateInt_validates⟩
  · exact ⟨validateBoolean, rfl, validateBoolean_validates⟩
  · exact ⟨validateFloat, rfl, validateFloat_validates⟩

end validators

/-- The type that the option of a name has. -/
def Declared (data : Entries) (name : Key) (kind : String) : Prop :=
  ∃ info, data.lookup name = some (.dict info) ∧ info.lookup (.str "type") = some (.str kind)

/-- The name is an option, and the option takes the value. -/
def Fits (data : Entries) (item : Key × Value) : Prop :=
  ∃ kind, Declared data item.1 kind ∧ Takes kind item.2

/-- An option of type `int` is given a value that `int` does not expect. -/
def Escapes (data : Entries) (item : Key × Value) : Prop :=
  Declared data item.1 "int" ∧ unreadable item.2 = true

/-- Each option is well formed. -/
def WellFormed (data : Entries) : Prop := ∀ e ∈ data, Named IsOption e

namespace ConfigOptions

variable (o : ConfigOptions) (h : WellFormed o.data)

section one

theorem declared_unique (name : Key) (kind kind' : String) (hkind : Declared o.data name kind)
    (hkind' : Declared o.data name kind') : kind = kind' := by
  obtain ⟨info, hinfo, htype⟩ := hkind
  obtain ⟨info', hinfo', htype'⟩ := hkind'
  obtain rfl := Value.dict.inj (Option.some.inj (hinfo.symm.trans hinfo'))
  exact Value.str.inj (Option.some.inj (htype.symm.trans htype'))

include h

theorem declared_of_lookup (name : Key) (hname : o.data.lookup name ≠ none) :
    ∃ kind ∈ kinds, Declared o.data name kind := by
  obtain ⟨value, hvalue⟩ := Option.ne_none_iff_exists'.mp hname
  obtain ⟨-, info, hinfo, hoption⟩ := h _ (Entries.mem_of_lookup _ _ _ hvalue)
  obtain ⟨type, htype⟩ := Option.ne_none_iff_exists'.mp hoption.required
  obtain ⟨kind, hkind, heq⟩ := hoption.type _ (Entries.mem_of_lookup _ _ _ htype) rfl
  exact ⟨kind, hkind, info, hvalue.trans (congrArg some hinfo), htype.trans (congrArg some heq)⟩

/-- The option's validator decides. -/
theorem validateOne_eq (name : Key) (kind : String) (hkind : Declared o.data name kind) :
    ∃ validator, Validates kind validator ∧ ∀ value, o.validateOne name value =
      (validator value >>= fun result =>
        if result.2 then pure result.1
        else throw (.serviceConfigValueError (.invalidValue name result.1))) := by
  have hname : o.data.lookup name ≠ none := by
    obtain ⟨info, hinfo, -⟩ := hkind
    simp [hinfo]
  obtain ⟨kind', hin, hkind'⟩ := o.declared_of_lookup h name hname
  obtain rfl := o.declared_unique name kind' kind hkind' hkind
  obtain ⟨validator, hvalidator, hvalidates⟩ := validationKinds_validates kind' hin
  obtain ⟨info, hinfo, htype⟩ := hkind
  refine ⟨validator, hvalidates, fun value => ?_⟩
  simp only [validateOne, getItem, hinfo, asDict, htype, Option.getD_some, validatorOf, hvalidator,
    bind, Except.bind]

theorem validateOne_fits (item : Key × Value) (hfits : Fits o.data item) :
    ∃ v, o.validateOne item.1 item.2 = .ok v ∧ o.validateOne item.1 v = .ok v ∧
      ∃ kind, Declared o.data item.1 kind ∧ HasType kind v := by
  obtain ⟨kind, hkind, htakes⟩ := hfits
  obtain ⟨validator, hvalidates, heq⟩ := o.validateOne_eq h item.1 kind hkind
  obtain ⟨v, hv, htype, hagain⟩ := hvalidates.takes item.2 htakes
  refine ⟨v, ?_, ?_, kind, hkind, htype⟩
  · rw [heq, hv]
    rfl
  · rw [heq, hagain]
    rfl

theorem validateOne_escapes (item : Key × Value) (hescapes : Escapes o.data item) :
    o.validateOne item.1 item.2 = .error .typeError ∨
      o.validateOne item.1 item.2 = .error .overflowError := by
  obtain ⟨validator, hvalidates, heq⟩ := o.validateOne_eq h item.1 "int" hescapes.1
  refine (hvalidates.escapes rfl item.2 hescapes.2).imp ?_ ?_
  · intro herror
    rw [heq, herror]
    rfl
  · intro herror
    rw [heq, herror]
    rfl

theorem validateOne_refuses (item : Key × Value) (hname : o.data.lookup item.1 ≠ none)
    (hfits : ¬ Fits o.data item) (hescapes : ¬ Escapes o.data item) :
    ∃ message, o.validateOne item.1 item.2 = .error (.serviceConfigValueError message) := by
  obtain ⟨kind, -, hkind⟩ := o.declared_of_lookup h item.1 hname
  obtain ⟨validator, hvalidates, heq⟩ := o.validateOne_eq h item.1 kind hkind
  have htakes : ¬ Takes kind item.2 := fun htakes => hfits ⟨kind, hkind, htakes⟩
  have hread : ¬ (kind = "int" ∧ unreadable item.2 = true) :=
    fun hread => hescapes ⟨hread.1 ▸ hkind, hread.2⟩
  obtain ⟨v, hv⟩ := hvalidates.refuses item.2 htakes hread
  refine ⟨.invalidValue item.1 v, ?_⟩
  rw [heq, hv]
  rfl

end one

section item

theorem fits_lookup (item : Key × Value) (hfits : Fits o.data item) :
    o.data.lookup item.1 ≠ none := by
  obtain ⟨kind, ⟨info, hinfo, -⟩, -⟩ := hfits
  simp [hinfo]

theorem validateItem_eq (item : Key × Value) (hname : o.data.lookup item.1 ≠ none) :
    o.validateItem item = (o.validateOne item.1 item.2).map fun v => (item.1, v) := by
  have hnone : (o.data.lookup item.1).isNone = false := by simpa using hname
  simp only [validateItem, hnone, Bool.false_eq_true, if_false]
  cases o.validateOne item.1 item.2 <;> rfl

include h

theorem validateItem_fits (item : Key × Value) (hfits : Fits o.data item) :
    ∃ v, o.validateItem item = .ok (item.1, v) ∧ o.validateItem (item.1, v) = .ok (item.1, v) ∧
      ∃ kind, Declared o.data item.1 kind ∧ HasType kind v := by
  have hname := o.fits_lookup item hfits
  obtain ⟨v, hv, hagain, htype⟩ := o.validateOne_fits h item hfits
  refine ⟨v, ?_, ?_, htype⟩
  · rw [o.validateItem_eq item hname, hv]
    rfl
  · rw [o.validateItem_eq (item.1, v) hname, hagain]
    rfl

theorem validateItem_escapes (item : Key × Value) (hescapes : Escapes o.data item) :
    o.validateItem item = .error .typeError ∨ o.validateItem item = .error .overflowError := by
  have hname : o.data.lookup item.1 ≠ none := by
    obtain ⟨info, hinfo, -⟩ := hescapes.1
    simp [hinfo]
  rw [o.validateItem_eq item hname]
  refine (o.validateOne_escapes h item hescapes).imp ?_ ?_
  · intro herror
    rw [herror]
    rfl
  · intro herror
    rw [herror]
    rfl

theorem validateItem_refuses (item : Key × Value) (hfits : ¬ Fits o.data item)
    (hescapes : ¬ Escapes o.data item) :
    ∃ message, o.validateItem item = .error (.serviceConfigValueError message) := by
  by_cases hname : o.data.lookup item.1 = none
  · exact ⟨.notAnOption item.1, by simp [validateItem, hname, throw, throwThe, MonadExceptOf.throw]⟩
  · obtain ⟨message, herror⟩ := o.validateOne_refuses h item hname hfits hescapes
    refine ⟨message, ?_⟩
    rw [o.validateItem_eq item hname, herror]
    rfl

end item

end ConfigOptions

end Juju.Charm.ServiceOptions

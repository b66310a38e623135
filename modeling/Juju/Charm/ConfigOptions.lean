import Juju.Config.Schema
import Mathlib.Algebra.Group.Int.Defs
import Mathlib.Algebra.Group.Nat.Defs

namespace Juju.Charm.ServiceOptions
open Juju.Config Juju.Lib

/-- The floats that are no numbers, by their `repr`. -/
def specialFloats : List String := ["inf", "-inf", "nan"]

section schemas

/-- A `bool` is an `int`. -/
def int : Schema
  | .int i, _ => .ok (.int i)
  | .bool b, _ => .ok (.bool b)
  | value, path => .error (.schemaError path (.expected "int" value))

def float : Schema
  | .int i, _ => .ok (.int i)
  | .bool b, _ => .ok (.bool b)
  | .float x, _ => .ok (.float x)
  | .object repr, path =>
    if repr ∈ specialFloats then .ok (.object repr)
    else .error (.schemaError path (.expected "number" (.object repr)))
  | value, path => .error (.schemaError path (.expected "number" value))

def OPTION_SCHEMA : Schema :=
  keyDict [("type", oneOf [constant (.str "string"), constant (.str "str"), constant (.str "int"),
      constant (.str "boolean"), constant (.str "float")]),
    ("default", oneOf [string, int, float]), ("description", string)] ["default", "description"]

def CONFIG_SCHEMA : Schema := keyDict [("options", stringDict OPTION_SCHEMA)] []

end schemas

/-- What a `ServiceConfigError` says. -/
inductive ServiceConfigMessage where
  | unknownDataType (got : Value)
  | expectedDict
  | invalidSpecification (path : List String) (message : SchemaMessage)

/-- What a `ServiceConfigValueError` says. -/
inductive ServiceConfigValueMessage where
  | unknownType (kind : Value)
  | invalidValue (name : Key) (value : Value)
  | notAnOption (option : Key)

inductive ConfigRaised where
  | serviceConfigError (path : String) (message : ServiceConfigMessage)
  | serviceConfigValueError (message : ServiceConfigValueMessage)
  /-- What `yaml.load` raises. -/
  | yamlError
  | keyError
  | attributeError
  | typeError
  | overflowError

section validators

/-- What a validator makes of a value, and whether it is valid. -/
abbrev Validator := Value → Except ConfigRaised (Value × Bool)

def validateStr : Validator
  | .str s => .ok (.str s, true)
  | .unicode s => .ok (.unicode s, true)
  | value => .ok (value, false)

/-- `int(text)`, where a `ValueError` gives the value back. -/
def validateText (value : Value) : Option Int → Except ConfigRaised (Value × Bool)
  | some i => .ok (.int i, true)
  | none => .ok (value, false)

/-- A float is cut to an integer; what is neither a number nor a text is a `TypeError`, which is
not caught. -/
def validateInt : Validator
  | .bool b => .ok (.int (if b then 1 else 0), true)
  | .int i => .ok (.int i, true)
  | .float x => .ok (.int (x.num.tdiv x.den), true)
  | .str s => validateText (.str s) (TextKind.bytes.int s.toList)
  | .unicode s => validateText (.unicode s) (TextKind.unicode.int s.toList)
  | .object repr =>
    if repr = "nan" then .ok (.object repr, false)
    else if repr ∈ specialFloats then .error .overflowError
    else .error .typeError
  | _ => .error .typeError

/-- `float(i)`: the nearest of the numbers of 53 bits, and of two the even one. -/
def toFloat (i : Int) : Rat :=
  let exponent := i.natAbs.log2 - 52
  let quotient := i.natAbs / 2 ^ exponent
  let rest := i.natAbs % 2 ^ exponent
  let rounded :=
    if 2 * rest > 2 ^ exponent ∨ (2 * rest = 2 ^ exponent ∧ quotient % 2 = 1) then quotient + 1
    else quotient
  ((i.sign * (rounded * 2 ^ exponent : Nat) : Int) : Rat)

/-- An integer that YAML loads as an `int`; any other is a `long`. -/
def isInt (i : Int) : Bool := -(2 ^ 63) < i ∧ i < 2 ^ 63

def validateFloat : Validator
  | .bool b => .ok (.float (if b then 1 else 0), true)
  | .int i => if isInt i then .ok (.float (toFloat i), true) else .ok (.int i, false)
  | .float x => .ok (.float x, true)
  | .object repr => .ok (.object repr, repr ∈ specialFloats)
  | value => .ok (value, false)

def validateBoolean : Validator
  | .bool b => .ok (.bool b, true)
  | value => .ok (value, false)

def validationKinds : List (String × Validator) :=
  [("string", validateStr), ("str", validateStr), ("int", validateInt), ("float", validateFloat),
    ("boolean", validateBoolean)]

/-- `validation_kinds[kind]`, where the kind is in it. -/
def validatorOf : Value → Except ConfigRaised (Option Validator)
  | .str kind => .ok (validationKinds.lookup kind)
  | .list _ => .error .typeError
  | .set _ => .error .typeError
  | .dict _ => .error .typeError
  | _ => .ok none

end validators

/-- The `_data` of a `ConfigOptions`, with what its module keeps: whether it has warned of the
obsolete type, and the paths that it has warned of. -/
structure ConfigOptions where
  data : Entries := []
  warnedStrIsObsolete : Bool := false
  warnings : List String := []

/-- The dictionary that a value is. -/
def asDict : Value → Except ConfigRaised Entries
  | .dict entries => .ok entries
  | _ => .error .attributeError

/-- `d[key]` -/
def getItem (d : Entries) (key : Key) : Except ConfigRaised Value :=
  match d.lookup key with
  | some value => .ok value
  | none => .error .keyError

namespace ConfigOptions

def validateOne (o : ConfigOptions) (name : Key) (value : Value) : Except ConfigRaised Value := do
  let options ← asDict (← getItem o.data name)
  let kind := (options.lookup (.str "type")).getD (.str "string")
  match ← validatorOf kind with
  | none => throw (.serviceConfigValueError (.unknownType kind))
  | some validator =>
    let result ← validator value
    if result.2 then return result.1
    else throw (.serviceConfigValueError (.invalidValue name result.1))

/-- The loop of `get_defaults`. -/
def getDefaultsLoop (o : ConfigOptions) : Entries → Except ConfigRaised Entries
  | [] => return []
  | (name, options) :: items => do
    match (← asDict options).lookup (.str "default") with
    | none => getDefaultsLoop o items
    | some default =>
      let value ← o.validateOne name default
      return (name, value) :: (← getDefaultsLoop o items)

def getDefaults (o : ConfigOptions) : Except ConfigRaised Entries := o.getDefaultsLoop o.data

/-- An item of the loop of `validate`. -/
def validateItem (o : ConfigOptions) (item : Key × Value) : Except ConfigRaised (Key × Value) :=
  if (o.data.lookup item.1).isNone then throw (.serviceConfigValueError (.notAnOption item.1))
  else do return (item.1, ← o.validateOne item.1 item.2)

/-- The keys of `options` are texts, and each is there once. -/
def validate (o : ConfigOptions) (options : Entries) : Except ConfigRaised Entries :=
  options.mapM o.validateItem

/-- The warning for each option of the obsolete type. -/
def warn (o : ConfigOptions) (options : Entries) (pathname : Option String) : ConfigOptions :=
  let obsolete := options.filter fun e =>
    match e.2 with
    | .dict info => info.any fun field => field.1 = .str "type" && field.2.equals (.str "str")
    | _ => false
  if o.warnedStrIsObsolete then o
  else
    { o with
      warnedStrIsObsolete := !obsolete.isEmpty
      warnings := o.warnings ++ obsolete.map fun _ => pathname.getD "" }

end ConfigOptions

/-- The `options` of what was loaded from YAML. -/
def parseSerializationData (data : Value) (pathname : Option String) :
    Except ConfigRaised Entries := do
  match data with
  | .dict (e :: entries) =>
    match CONFIG_SCHEMA (.dict (e :: entries)) [] with
    | .ok data => asDict (← getItem (← asDict data) (.str "options"))
    | .error (.schemaError path message) =>
      throw (.serviceConfigError (pathname.getD "") (.invalidSpecification path message))
    | .error (.keyError _) => throw .keyError
    | .error .typeError => throw .typeError
  | _ => throw (.serviceConfigError (pathname.getD "") .expectedDict)

section parse

/-- `yaml.load`, of a text; `none` is an error. -/
abbrev YamlLoad := TextKind → String → Option Value

variable (load : YamlLoad)

/-- The `raw_data` of `parse`. -/
def rawData (data : Value) (pathname : Option String) : Except ConfigRaised Value :=
  let loaded (raw : Option Value) : Except ConfigRaised Value :=
    match raw with
    | some raw => .ok raw
    | none => .error .yamlError
  match data with
  | .str s => loaded (load .bytes s)
  | .unicode s => loaded (load .unicode s)
  | .dict entries => .ok (.dict entries)
  | data => .error (.serviceConfigError (pathname.getD "") (.unknownDataType data))

/-- What `parse` raises or returns, and the options that it leaves. The new ones are there before
their defaults are validated. -/
def ConfigOptions.parse (o : ConfigOptions) (data : Value) (pathname : Option String) :
    Except ConfigRaised Unit × ConfigOptions :=
  match rawData load data pathname with
  | .error e => (.error e, o)
  | .ok raw =>
    match parseSerializationData raw pathname with
    | .error e => (.error e, o)
    | .ok options =>
      let o := { o.warn options pathname with data := options }
      (o.getDefaults.map fun _ => (), o)

/-- Options that were loaded by any calls of `parse`. -/
inductive Loaded : ConfigOptions → Prop
  | init : Loaded {}
  | parse (o : ConfigOptions) (data : Value) (pathname : Option String) (h : Loaded o) :
    Loaded (o.parse load data pathname).2

end parse

end Juju.Charm.ServiceOptions

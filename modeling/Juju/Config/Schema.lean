import Juju.Lib.Entries
import Juju.Lib.Text
import Mathlib.Data.List.Infix

namespace Juju.Config
open Juju.Lib

/-- A key of a dictionary. -/
inductive Key where
  | str (s : String)
  /-- Any other key, by its `repr`. -/
  | object (repr : String)
  deriving DecidableEq

/-- What a document of the standard YAML tags is loaded as. -/
inductive Value where
  | none
  | bool (b : Bool)
  | int (i : Int)
  | float (x : Rat)
  | str (s : String)
  /-- A text with a character that is not ASCII. -/
  | unicode (s : String)
  | list (values : List Value)
  | tuple (values : List Value)
  | set (values : List Value)
  | dict (entries : List (Key × Value))
  /-- Any other value, by its `repr`. -/
  | object (repr : String)

abbrev Entries := List (Key × Value)

namespace Value

/-- Whether the value counts as true. -/
def truthy : Value → Bool
  | none => false
  | bool b => b
  | int i => i ≠ 0
  | float x => x ≠ 0
  | str s => s ≠ ""
  | unicode s => s ≠ ""
  | list values => !values.isEmpty
  | tuple values => !values.isEmpty
  | set values => !values.isEmpty
  | dict entries => !entries.isEmpty
  | object _ => true

/-- `value == constant`, for the constants that are texts or booleans. -/
def equals : Value → Value → Bool
  | str s, str c => s = c
  | bool b, bool c => b = c
  | int i, bool c => i = if c then 1 else 0
  | float x, bool c => x = if c then 1 else 0
  | _, _ => false

end Value

/-- The text that stands for a key in a path. -/
def Key.text : Key → String
  | str s => s
  | object repr => repr

/-- What a `SchemaError` says. -/
inductive SchemaMessage where
  | expectedConstant (expected got : Value)
  | expected (expected : String) (got : Value)
  | text (message : String)

/-- What `coerce` raises. -/
inductive Raised where
  | schemaError (path : List String) (message : SchemaMessage)
  | keyError (key : Value)
  | typeError

/-- The `coerce` of a schema. -/
abbrev Schema := Value → List String → Except Raised Value

def constant (c : Value) : Schema := fun value path =>
  if value.equals c then .ok value else .error (.schemaError path (.expectedConstant c value))

/-- The loop of `OneOf.coerce`, with the best error so far. -/
def oneOfLoop (value : Value) (path : List String) :
    Option (List String × SchemaMessage) → List Schema → Except Raised Value
  | none, [] => .error .typeError
  | some best, [] => .error (.schemaError best.1 best.2)
  | best, schema :: schemas =>
    match schema value path with
    | .error (.schemaError errorPath message) =>
      let best := match best with
        | none => (errorPath, message)
        | some best => if errorPath.length > best.1.length then (errorPath, message) else best
      oneOfLoop value path (some best) schemas
    | result => result

def oneOf (schemas : List Schema) : Schema := fun value path => oneOfLoop value path none schemas

def string : Schema
  | .str s, _ => .ok (.str s)
  | value, path => .error (.schemaError path (.expected "string" value))

/-- The parts of a text between colons, stripped. -/
def oauthParts (s : String) : List String :=
  (s.toList.splitOn ':').map fun part => String.ofList (TextKind.bytes.strip part)

def oauthString : Schema
  | .str s, path =>
    let parts := oauthParts s
    if parts.length ≠ 3 then
      .error (.schemaError path (.text "does not contain three colon-separated parts"))
    else if "" ∈ parts then .error (.schemaError path (.text "one or more parts are empty"))
    else .ok (.tuple (parts.map .str))
  | value, path => string value path

/-- `String.coerce` of a key. -/
def stringKey (key : Key) (path : List String) : Except Raised Unit :=
  match key with
  | .str _ => .ok ()
  | .object repr => .error (.schemaError path (.expected "string" (.object repr)))

/-- The path of an entry of a dictionary. -/
def entryPath (path : List String) (key : String) : List String :=
  (if path = [] then [] else path ++ ["."]) ++ [key]

/-- An entry of the `Dict` whose keys are strings. -/
def stringDictEntry (valueSchema : Schema) (path : List String) (e : Key × Value) :
    Except Raised (Key × Value) := do
  stringKey e.1 path
  pure (e.1, ← valueSchema e.2 (entryPath path e.1.text))

def stringDict (valueSchema : Schema) : Schema
  | .dict entries, path => do
    pure (.dict (← entries.mapM (stringDictEntry valueSchema path)))
  | value, path => .error (.schemaError path (.expected "dict" value))

/-- An entry of a `KeyDict`; what is not in the schema is preserved. -/
def keyDictEntry (schema : List (String × Schema)) (path : List String) (e : Key × Value) :
    Except Raised (Key × Value) :=
  match e.1 with
  | .str key =>
    match schema.lookup key with
    | some valueSchema => do pure (e.1, ← valueSchema e.2 (entryPath path key))
    | none => pure e
  | .object _ => pure e

def keyDict (schema : List (String × Schema)) (optional : List String) : Schema
  | .dict entries, path => do
    let newDict ← entries.mapM (keyDictEntry schema path)
    match schema.find? fun e => (entries.lookup (.str e.1)).isNone && e.1 ∉ optional with
    | some missing =>
      throw (.schemaError (entryPath path missing.1) (.text "required value not found"))
    | none => pure (.dict newDict)
  | value, path => .error (.schemaError path (.expected "dict" value))

/-- `schemas[selected].coerce(value, path)`. -/
def selected (schemas : List (String × Schema)) (value : Value) (path : List String) :
    Value → Except Raised Value
  | .str s =>
    match schemas.lookup s with
    | some schema => schema value path
    | none => .error (.keyError (.str s))
  | .list _ => .error .typeError
  | .set _ => .error .typeError
  | .dict _ => .error .typeError
  | other => .error (.keyError other)

def selectDict (key : String) (schemas : List (String × Schema)) : Schema
  | .dict entries, path =>
    match entries.lookup (.str key) with
    | some value => selected schemas (.dict entries) path value
    | none => missing path
  -- a text or a list can hold the key, but it has nothing at it
  | .str s, path => if key.toList <:+: s.toList then .error .typeError else missing path
  | .unicode s, path => if key.toList <:+: s.toList then .error .typeError else missing path
  | .list values, path => if values.any (·.equals (.str key)) then .error .typeError else missing path
  | .tuple values, path =>
    if values.any (·.equals (.str key)) then .error .typeError else missing path
  | .set values, path => if values.any (·.equals (.str key)) then .error .typeError else missing path
  | _, _ => .error .typeError
where
  missing (path : List String) : Except Raised Value :=
    .error (.schemaError (path ++ [".", key]) (.text "required value not found"))

end Juju.Config

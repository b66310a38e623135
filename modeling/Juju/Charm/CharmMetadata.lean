import Juju.Lib.PythonText

namespace Juju.Charm.Metadata
open Juju.Lib

/-- A key of a dictionary: a text, or anything else by its `repr`. -/
inductive Key where
  | text (t : PythonText)
  | other (repr : String)
  deriving DecidableEq

/-- A value that a charm's metadata is made of. -/
inductive Data where
  | none
  | bool (b : Bool)
  | int (i : Int)
  | text (t : PythonText)
  | dict (entries : List (Key × Data))
  /-- Any other value, by its `repr`. -/
  | other (repr : String)

/-- `key == key'`. -/
def Key.equals : Key → Key → Bool
  | text t, text t' => t.equals t'
  | other repr, other repr' => repr = repr'
  | _, _ => false

def key (name : String) : Key := .text (.literal name)

def text (s : String) : Data := .text (.literal s)

/-- The entries of a dictionary. -/
abbrev Entries := List (Key × Data)

/-- `d.get(key)` -/
def get (d : Entries) (k : Key) : Option Data := (d.find? fun e => e.1.equals k).map Prod.snd

/-- `key in d` -/
def has (d : Entries) (k : Key) : Bool := d.any fun e => e.1.equals k

/-- `d[key] = value`, where a key that is there stays. -/
def setItem (k : Key) (v : Data) : Entries → Entries
  | [] => [(k, v)]
  | e :: d => if e.1.equals k then (e.1, v) :: d else e :: setItem k v d

/-- A part of the path of an error: a dot, or the text of a key. -/
inductive PathPart where
  | dot
  | key (k : Key)

abbrev Path := List PathPart

inductive SchemaMessage where
  | expected (expected : String) (got : Data)
  | expectedKey (expected : String) (got : Key)
  | text (message : String)

structure SchemaError where
  path : Path
  message : SchemaMessage

/-- The `coerce` of a schema. -/
abbrev Schema := Data → Path → Except SchemaError Data

section schemas

/-- `Constant(None)` -/
def constantNone : Schema
  | .none, _ => .ok .none
  | value, path => .error ⟨path, .expected "None" value⟩

/-- `Constant(c)`, of a text. -/
def constant (c : String) : Schema
  | .text t, path =>
    if t.equals (.literal c) then .ok (.text t) else .error ⟨path, .expected c (.text t)⟩
  | value, path => .error ⟨path, .expected c value⟩

/-- The loop of `OneOf.coerce` after its first schema, with the best error so far. -/
def oneOfLoop (value : Data) (path : Path) : SchemaError → List Schema → Except SchemaError Data
  | best, [] => .error best
  | best, schema :: schemas =>
    match schema value path with
    | .ok value => .ok value
    | .error e => oneOfLoop value path (if e.path.length > best.path.length then e else best) schemas

def oneOf (first : Schema) (schemas : List Schema) : Schema := fun value path =>
  match first value path with
  | .ok value => .ok value
  | .error e => oneOfLoop value path e schemas

def bool : Schema
  | .bool b, _ => .ok (.bool b)
  | value, path => .error ⟨path, .expected "bool" value⟩

/-- A `bool` is an `int`. -/
def int : Schema
  | .int i, _ => .ok (.int i)
  | .bool b, _ => .ok (.bool b)
  | value, path => .error ⟨path, .expected "int" value⟩

/-- `UTF8_SCHEMA`, on a text. -/
def decodeText (t : PythonText) : Option PythonText :=
  match t.kind with
  | .bytes => (decodeUtf8 t.points).map fun points => ⟨.unicode, points⟩
  | .unicode => some t

def utf8 : Schema
  | .text t, path =>
    match decodeText t with
    | some t => .ok (.text t)
    | none => .error ⟨path, .expected "unicode or utf-8 string" (.text t)⟩
  | value, path => .error ⟨path, .expected "unicode or utf-8 string" value⟩

def utf8Key : Key → Path → Except SchemaError Key
  | .text t, path =>
    match decodeText t with
    | some t => .ok (.text t)
    | none => .error ⟨path, .expectedKey "unicode or utf-8 string" (.text t)⟩
  | .other repr, path => .error ⟨path, .expectedKey "unicode or utf-8 string" (.other repr)⟩

def entryPath (path : Path) (k : Key) : Path :=
  (if path.isEmpty then [] else path ++ [.dot]) ++ [.key k]

/-- One turn of the loop of `Dict.coerce`, whose keys are texts. -/
def dictEntry (valueSchema : Schema) (path : Path) (newDict : Entries) (e : Key × Data) :
    Except SchemaError Entries := do
  let newKey ← utf8Key e.1 path
  let newValue ← valueSchema e.2 (entryPath path e.1)
  return setItem newKey newValue newDict

def dict (valueSchema : Schema) : Schema
  | .dict entries, path => do
    return .dict (← entries.foldlM (dictEntry valueSchema path) [])
  | value, path => .error ⟨path, .expected "dict" value⟩

/-- `self.schema[k]`, where the key is in the schema. -/
def schemaAt (schema : List (String × Schema)) (k : Key) : Option Schema :=
  (schema.find? fun e => k.equals (key e.1)).map Prod.snd

/-- An entry of a `KeyDict`; what is not in the schema is preserved. -/
def keyDictEntry (schema : List (String × Schema)) (path : Path) (e : Key × Data) :
    Except SchemaError (Key × Data) :=
  match schemaAt schema e.1 with
  | some valueSchema => do return (e.1, ← valueSchema e.2 (entryPath path e.1))
  | none => .ok e

def keyDict (schema : List (String × Schema)) (optional : List String) : Schema
  | .dict entries, path => do
    let newDict ← entries.mapM (keyDictEntry schema path)
    match schema.find? fun e => !has entries (key e.1) && e.1 ∉ optional with
    | some missing => .error ⟨entryPath path (key missing.1), .text "required value not found"⟩
    | none => return .dict newDict
  | value, path => .error ⟨path, .expected "dict" value⟩

end schemas

def INTERFACE_SCHEMA : Schema :=
  keyDict [("interface", utf8), ("limit", oneOf constantNone [int]),
    ("scope", oneOf (constant "global") [constant "container"]), ("optional", bool)] ["scope"]

/-- A default that is put where there is no value. -/
def setDefault (k : Key) (v : Data) (d : Entries) : Entries := if has d k then d else d ++ [(k, v)]

/-- What `InterfaceExpander.coerce` completes an interface to, where it stands. -/
def expand (limit : Data) (d : Entries) : Entries :=
  let d := setDefault (key "limit") limit d
  let d := setDefault (key "optional") (.bool false) d
  setItem (key "scope") ((get d (key "scope")).getD (text "global")) d

def interfaceExpander (limit : Data) : Schema
  | .dict entries, path => INTERFACE_SCHEMA (.dict (expand limit entries)) path
  | value, path => do
    return .dict [(key "interface", ← utf8 value path), (key "limit", limit),
      (key "scope", text "global"), (key "optional", .bool false)]

def SCHEMA : Schema :=
  keyDict [("name", utf8), ("revision", int), ("summary", utf8), ("description", utf8),
    ("peers", dict (interfaceExpander (.int 1))), ("provides", dict (interfaceExpander .none)),
    ("requires", dict (interfaceExpander (.int 1))), ("subordinate", bool)]
    ["provides", "requires", "peers", "revision", "subordinate"]

/-- A `MetaData` by its `_data`. -/
structure MetaData where
  data : Data

inductive MetaDataError where
  | badData (path : Option String) (error : SchemaError)

def MetaData.getSerializationData (m : MetaData) : Data := m.data

def parseSerializationData (serializationData : Data) (path : Option String) :
    Except MetaDataError MetaData :=
  match SCHEMA serializationData [] with
  | .ok data => .ok ⟨data⟩
  | .error e => .error (.badData path e)

end Juju.Charm.Metadata

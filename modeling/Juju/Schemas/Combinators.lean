import Juju.Base.StateExcept
import Juju.Schemas.PythonValues
import Mathlib.Data.List.Infix

namespace Juju.Schemas
open Juju.Base Juju.Lib

/-- A path list. Its parts are texts, or whatever else the caller has put there. -/
abbrev Path := List Value

inductive Message where
  | constant (expected got : Value)
  | expected (expected : String) (got : Value)
  | text (message : String)

structure SchemaError where
  /-- The list that the error holds; `none` is the list its `coerce` was called with. -/
  path : Option Path
  /-- What was in the list when the error was made, which its text shows. -/
  reported : Path
  message : Message

/-- An exception that is no `SchemaError`. -/
inductive Exception where
  | typeError
  | keyError
  | indexError
  | unicodeDecodeError
  | reError
  | other (name : String)
  deriving DecidableEq

inductive Raised where
  | schemaError (e : SchemaError)
  | exception (x : Exception)

/-- What the standard library makes of texts and keys. -/
structure Library where
  /-- `re.compile(t)`, of a text. -/
  compile : PythonText → Except Exception Unit
  /-- `t.decode(encoding)`, of a `str`. -/
  decode : String → PythonText → Except Exception PythonText
  /-- `str(k)`, of a key that is no text. -/
  str : Key → List Nat
  /-- `repr(t)` -/
  repr : PythonText → List Nat

abbrev Coerce := EStateM Raised Path

/-- The `coerce` method of a schema; the state is the path list of its caller. -/
abbrev Coercer := Value → Coerce Value

section paths

/-- `"".join(path)` once a `unicode` has been met; `none` where it returns. -/
def joinUnicode : Path → Option Exception
  | [] => none
  | .atom (.text t) :: path =>
    if t.kind = .bytes ∧ ¬ t.isAscii then some .unicodeDecodeError else joinUnicode path
  | _ :: _ => some .typeError

/-- The exception of `"".join(path)`, whose parts are looked at from the first. -/
def joinLoop (whole : Path) : Path → Option Exception
  | [] => none
  | .atom (.text t) :: path => if t.kind = .bytes then joinLoop whole path else joinUnicode whole
  | _ :: _ => some .typeError

def join (path : Path) : Option Exception := joinLoop path path

/-- `SchemaError(path, message)`, whose text joins the path. -/
def schemaError (own : Option Path) (path : Path) (message : Message) : Raised :=
  match join path with
  | none => .schemaError ⟨own, path, message⟩
  | some x => .exception x

variable {α : Type}

/-- An error on the path that `coerce` was called with. -/
def fail (message : Message) : Coerce α := do throw (schemaError none (← get) message)

def part (s : String) : Value := .text (.literal s)

def bytes (points : List Nat) : PythonText := ⟨.bytes, points⟩

/-- `str(k)`, or `repr(k)` where that is a `ValueError`. -/
def keyText (lib : Library) : Key → PythonText
  | .atom (.text t) =>
    if t.kind = .bytes ∨ t.isAscii then bytes t.points else bytes (lib.repr t)
  | k => bytes (lib.str k)

/-- `path[-1] = last` -/
def setLast (last : Value) (path : Path) : Path := path.set (path.length - 1) last

/-- An error that leaves the call whose path list it holds. -/
def Raised.settle (path : Path) : Raised → Raised
  | .schemaError e => .schemaError { e with path := some (e.path.getD path) }
  | .exception x => .exception x

/-- A call with another path list, and what is in that list afterwards. -/
def onList (list : Path) (m : Coerce α) : Coerce (α × Path) := fun path =>
  match m list with
  | .ok a list => .ok (a, list) path
  | .error e list => .error (e.settle list) path

/-- `path.extend(["[", "?", "]"])`, and `del path[-3:]` at the end of the call. -/
def bracketed (m : Coerce α) : Coerce α := do
  modify fun path => path ++ [part "[", part "?", part "]"]
  finallyDo m fun path => path.take (path.length - 3)

end paths

section leaves

def constant (c : Value) : Coercer := fun value =>
  if value.equals c then pure value else fail (.constant c value)

def any : Coercer := pure

def bool : Coercer
  | .atom (.bool b) => pure (.atom (.bool b))
  | value => fail (.expected "bool" value)

/-- A `bool` is an `int`. -/
def int : Coercer
  | .atom (.bool b) => pure (.atom (.bool b))
  | .atom (.int i) => pure (.atom (.int i))
  | value => fail (.expected "int" value)

def float : Coercer
  | .atom (.bool b) => pure (.atom (.bool b))
  | .atom (.int i) => pure (.atom (.int i))
  | .atom (.float q) => pure (.atom (.float q))
  | .atom (.special f) => pure (.atom (.special f))
  | value => fail (.expected "number" value)

def string : Coercer
  | .atom (.text ⟨.bytes, points⟩) => pure (.text ⟨.bytes, points⟩)
  | value => fail (.expected "string" value)

def unicode : Coercer
  | .atom (.text ⟨.unicode, points⟩) => pure (.text ⟨.unicode, points⟩)
  | value => fail (.expected "unicode" value)

/-- `re.compile` takes a text, or what it has compiled before. -/
def regex (lib : Library) : Coercer
  | .atom (.regex pattern) => pure (.atom (.regex pattern))
  | .atom (.text t) =>
    match lib.compile t with
    | .ok _ => pure (.atom (.regex t))
    | .error .reError => fail (.expected "regex" (.text t))
    | .error x => throw (.exception x)
  | _ => throw (.exception .typeError)

def unicodeOrString (lib : Library) (encoding : String) : Coercer
  | .atom (.text ⟨.bytes, points⟩) =>
    match lib.decode encoding ⟨.bytes, points⟩ with
    | .ok t => pure (.text t)
    | .error .unicodeDecodeError =>
      fail (.expected ("unicode or " ++ encoding ++ " string") (.text ⟨.bytes, points⟩))
    | .error x => throw (.exception x)
  | .atom (.text ⟨.unicode, points⟩) => pure (.text ⟨.unicode, points⟩)
  | value => fail (.expected ("unicode or " ++ encoding ++ " string") value)

/-- `tuple(part.strip() for part in value.split(":"))` -/
def oauthParts (points : List Nat) : List PythonText :=
  ((points.map Char.ofNat).splitOn ':').map fun part =>
    bytes ((TextKind.bytes.strip part).map Char.toNat)

def oauthString : Coercer
  | .atom (.text ⟨.bytes, points⟩) =>
    let parts := oauthParts points
    if parts.length ≠ 3 then fail (.text "does not contain three colon-separated parts")
    else if bytes [] ∈ parts then fail (.text "one or more parts are empty")
    else pure (.tuple (parts.map .text))
  | value => string value

end leaves

section nested

/-- The error whose path is longer, by what its list holds now. -/
def bestError (path : Path) (e : SchemaError) : Option SchemaError → SchemaError
  | none => e
  | some best => if (e.path.getD path).length > (best.path.getD path).length then e else best

/-- The loop of `OneOf.coerce`, with the best error so far. -/
def oneOfLoop (value : Value) : Option SchemaError → List Coercer → Coerce Value
  | none, [] => throw (.exception .typeError)
  | some best, [] => throw (.schemaError best)
  | best, schema :: schemas => fun path =>
    match schema value path with
    | .error (.schemaError e) path =>
      oneOfLoop value (some (bestError path e best)) schemas path
    | result => result

theorem oneOfLoop_cons (value : Value) (best : Option SchemaError) (schema : Coercer)
    (schemas : List Coercer) (path : Path) :
    oneOfLoop value best (schema :: schemas) path =
      match schema value path with
      | .error (.schemaError e) path =>
        oneOfLoop value (some (bestError path e best)) schemas path
      | result => result := by
  cases best <;> rfl

def oneOf (schemas : List Coercer) : Coercer := fun value => oneOfLoop value none schemas

/-- The loop of `List.coerce` and of `Tuple.coerce`, from the `i`-th value on. -/
def coerceItems : Nat → List (Coercer × Value) → Coerce (List Value)
  | _, [] => pure []
  | i, (schema, value) :: items => do
    modify fun path => path.set (path.length - 2) (part (toString i))
    let newValue ← schema value
    return newValue :: (← coerceItems (i + 1) items)

def list (schema : Coercer) : Coercer
  | .list items => do return .list (← bracketed (coerceItems 0 (items.map fun v => (schema, v))))
  | value => fail (.expected "list" value)

def tuple (schemas : List Coercer) : Coercer
  | .tuple items =>
    if items.length ≠ schemas.length then
      fail (.expected ("tuple with " ++ toString schemas.length ++ " elements") (.tuple items))
    else do return .tuple (← bracketed (coerceItems 0 (schemas.zip items)))
  | value => fail (.expected "tuple" value)

/-- `d[k] = v`, where a key that is there stays. -/
def setItem (k : Key) (v : Value) : List (Key × Value) → List (Key × Value)
  | [] => [(k, v)]
  | e :: d => if e.1.equals k then (e.1, v) :: d else e :: setItem k v d

/-- The hash of a key, for which it must be hashable. -/
def hashed (value : Value) : Coerce Key :=
  match value.toKey? with
  | some k => pure k
  | none => throw (.exception .typeError)

/-- The path list of the values of a dictionary. -/
def valuePath (path : Path) : Path := if path.isEmpty then [part "?"] else path ++ [part ".", part "?"]

/-- The loop of `Dict.coerce`, with its `value_path` and what it has built. -/
def dictLoop (lib : Library) (keySchema valueSchema : Coercer) :
    Path → List (Key × Value) → List (Key × Value) → Coerce (List (Key × Value))
  | _, newDict, [] => pure newDict
  | list, newDict, (key, subvalue) :: entries => do
    let newKey ← keySchema key.toValue
    let (newSubvalue, list) ← onList (setLast (.text (keyText lib key)) list) (valueSchema subvalue)
    let newKey ← hashed newKey
    dictLoop lib keySchema valueSchema list (setItem newKey newSubvalue newDict) entries

def dict (lib : Library) (keySchema valueSchema : Coercer) : Coercer
  | .dict entries => do
    return .dict (← dictLoop lib keySchema valueSchema (valuePath (← get)) [] entries)
  | value => fail (.expected "dict" value)

/-- `self.schema[k]` -/
def fieldAt {α : Type} (schema : List (PythonText × α)) (k : Key) : Option α :=
  (schema.find? fun f => k.equals (.text f.1)).map Prod.snd

/-- The loop of `KeyDict.coerce` over the entries, on its copy of the path. -/
def keyDictLoop (lib : Library) (schema : List (PythonText × Coercer)) :
    List (Key × Value) → Coerce (List (Key × Value))
  | [] => pure []
  | (k, v) :: entries => do
    let newValue ←
      match fieldAt schema k with
      | some field => do
        modify (setLast (.text (keyText lib k)))
        field v
      -- Entries that are not in the schema are preserved.
      | none => pure v
    return (k, newValue) :: (← keyDictLoop lib schema entries)

/-- The first key that is required and is not there. -/
def missingKey {α : Type} (schema : List (PythonText × α)) (optional : List PythonText)
    (entries : List (Key × Value)) : Option PythonText :=
  (schema.find? fun f => (lookup entries (.text f.1)).isNone && !optional.any f.1.equals).map
    Prod.fst

def keyDict (lib : Library) (schema : List (PythonText × Coercer)) (optional : List PythonText) :
    Coercer
  | .dict entries => do
    let (newDict, _) ← onList (valuePath (← get)) do
      let newDict ← keyDictLoop lib schema entries
      match missingKey schema optional entries with
      | some k =>
        modify (setLast (.text k))
        fail (.text "required value not found")
      | none => pure newDict
    return .dict newDict
  | value => fail (.expected "dict" value)

/-- `t in t'`, of texts: what is no `unicode` is decoded as ASCII where the other one is. -/
def isWithin (t t' : PythonText) : Except Exception Bool :=
  if t.kind = t'.kind ∨ (if t.kind = .bytes then t else t').isAscii then
    .ok (decide (t.points <:+: t'.points))
  else .error .unicodeDecodeError

/-- `key in value` -/
def contains (value : Value) (key : Key) : Except Exception Bool :=
  match value with
  | .dict entries => .ok (lookup entries key).isSome
  | .list items => .ok (items.any fun v => v.equals key.toValue)
  | .tuple items => .ok (items.any fun v => v.equals key.toValue)
  | .set items => .ok (items.any fun k => k.equals key)
  | .atom (.text t) =>
    match key with
    | .atom (.text t') => isWithin t' t
    | _ => .error .typeError
  | .atom _ => .error .typeError

/-- `items[i]` -/
def itemAt (items : List Value) (i : Int) : Except Exception Value :=
  match items[(if i < 0 then i + items.length else i).toNat]? with
  | some v => if -items.length ≤ i then .ok v else .error .indexError
  | none => .error .indexError

/-- `value[key]` -/
def getItem (value : Value) (key : Key) : Except Exception Value :=
  match value, key with
  | .dict entries, key => (lookup entries key).elim (.error .keyError) .ok
  | .list items, .atom (.int i) => itemAt items i
  | .list items, .atom (.bool b) => itemAt items (if b then 1 else 0)
  | .tuple items, .atom (.int i) => itemAt items i
  | .tuple items, .atom (.bool b) => itemAt items (if b then 1 else 0)
  | _, _ => .error .typeError

/-- `self.schemas[selected]` -/
def caseAt {α : Type} (schemas : List (Key × α)) (selected : Value) : Except Exception α :=
  match selected.toKey? with
  | none => .error .typeError
  | some k => ((schemas.find? fun e => e.1.equals k).map Prod.snd).elim (.error .keyError) .ok

def selectDict (key : Key) (schemas : List (Key × Coercer)) : Coercer := fun value => do
  match contains value key with
  | .error x => throw (.exception x)
  | .ok false =>
    let missing := (← get) ++ [part ".", key.toValue]
    throw (schemaError (some missing) missing (.text "required value not found"))
  | .ok true =>
    match getItem value key >>= caseAt schemas with
    | .error x => throw (.exception x)
    | .ok schema => schema value

end nested

/-- A schema without parts. -/
inductive Checker where
  | constant (value : Value)
  | any
  | bool
  | int
  | float
  | string
  | unicode
  | regex
  | unicodeOrString (encoding : String)
  | oauthString

/-- A schema that is built from the combinators. -/
inductive Schema where
  | checker (c : Checker)
  | oneOf (schemas : List Schema)
  | list (schema : Schema)
  | tuple (schemas : List Schema)
  | dict (keySchema valueSchema : Schema)
  | keyDict (schema : List (PythonText × Schema)) (optional : List PythonText)
  | selectDict (key : Key) (schemas : List (Key × Schema))

section schemas

variable (lib : Library)

def Checker.coerce : Checker → Coercer
  | .constant value => Juju.Schemas.constant value
  | .any => Juju.Schemas.any
  | .bool => Juju.Schemas.bool
  | .int => Juju.Schemas.int
  | .float => Juju.Schemas.float
  | .string => Juju.Schemas.string
  | .unicode => Juju.Schemas.unicode
  | .regex => Juju.Schemas.regex lib
  | .unicodeOrString encoding => Juju.Schemas.unicodeOrString lib encoding
  | .oauthString => Juju.Schemas.oauthString

mutual

/-- `schema.coerce` -/
def Schema.coerce : Schema → Coercer
  | .checker c => c.coerce lib
  | .oneOf schemas => Juju.Schemas.oneOf (Schema.coerceAll schemas)
  | .list schema => Juju.Schemas.list (Schema.coerce schema)
  | .tuple schemas => Juju.Schemas.tuple (Schema.coerceAll schemas)
  | .dict keySchema valueSchema =>
    Juju.Schemas.dict lib (Schema.coerce keySchema) (Schema.coerce valueSchema)
  | .keyDict schema optional => Juju.Schemas.keyDict lib (Schema.coerceFields schema) optional
  | .selectDict key schemas => Juju.Schemas.selectDict key (Schema.coerceCases schemas)

def Schema.coerceAll : List Schema → List Coercer
  | [] => []
  | schema :: schemas => Schema.coerce schema :: Schema.coerceAll schemas

def Schema.coerceFields : List (PythonText × Schema) → List (PythonText × Coercer)
  | [] => []
  | (k, schema) :: fields => (k, Schema.coerce schema) :: Schema.coerceFields fields

def Schema.coerceCases : List (Key × Schema) → List (Key × Coercer)
  | [] => []
  | (k, schema) :: cases => (k, Schema.coerce schema) :: Schema.coerceCases cases

end

end schemas

/-- The schemas that a schema is built from. -/
def Schema.children : Schema → List Schema
  | .checker _ => []
  | .oneOf schemas => schemas
  | .list schema => [schema]
  | .tuple schemas => schemas
  | .dict keySchema valueSchema => [keySchema, valueSchema]
  | .keyDict schema _ => schema.map Prod.snd
  | .selectDict _ schemas => schemas.map Prod.snd

theorem sizeOf_second {α β : Type} [SizeOf α] [SizeOf β] (l : List (α × β)) (b : β)
    (h : b ∈ l.map Prod.snd) : sizeOf b < sizeOf l := by
  obtain ⟨e, he, rfl⟩ := List.mem_map.mp h
  have hlist := List.sizeOf_lt_of_mem he
  have hpair : sizeOf e = 1 + sizeOf e.1 + sizeOf e.2 := rfl
  omega

theorem Schema.child_smaller (schema child : Schema) (h : child ∈ schema.children) :
    sizeOf child < sizeOf schema := by
  cases schema with
  | checker c => cases h
  | oneOf schemas =>
    have hlist : sizeOf child < sizeOf schemas := List.sizeOf_lt_of_mem h
    simp only [oneOf.sizeOf_spec]
    omega
  | list s =>
    rw [List.mem_singleton.mp h, list.sizeOf_spec]
    omega
  | tuple schemas =>
    have hlist : sizeOf child < sizeOf schemas := List.sizeOf_lt_of_mem h
    simp only [tuple.sizeOf_spec]
    omega
  | dict k v =>
    simp only [children, List.mem_cons, List.not_mem_nil, or_false] at h
    simp only [dict.sizeOf_spec]
    rcases h with rfl | rfl <;> omega
  | keyDict fields optional =>
    have hlist := sizeOf_second fields child h
    simp only [keyDict.sizeOf_spec]
    omega
  | selectDict key cases =>
    have hlist := sizeOf_second cases child h
    simp only [selectDict.sizeOf_spec]
    omega

/-- What holds of a schema when it holds of its parts holds of every schema. -/
theorem Schema.nested_induction (P : Schema → Prop)
    (h : ∀ schema, (∀ child ∈ schema.children, P child) → P schema) (schema : Schema) :
    P schema :=
  h schema fun child hchild =>
    have := child_smaller schema child hchild
    nested_induction P h child
  termination_by sizeOf schema

section lists

variable (lib : Library)

theorem coerceAll_eq (schemas : List Schema) :
    Schema.coerceAll lib schemas = schemas.map (Schema.coerce lib) := by
  induction schemas with
  | nil => rfl
  | cons schema schemas ih => rw [Schema.coerceAll, ih, List.map_cons]

theorem coerceFields_eq (fields : List (PythonText × Schema)) :
    Schema.coerceFields lib fields = fields.map (Prod.map id (Schema.coerce lib)) := by
  induction fields with
  | nil => rfl
  | cons f fields ih => rw [Schema.coerceFields, ih, List.map_cons]; rfl

theorem coerceCases_eq (cases : List (Key × Schema)) :
    Schema.coerceCases lib cases = cases.map (Prod.map id (Schema.coerce lib)) := by
  induction cases with
  | nil => rfl
  | cons f cases ih => rw [Schema.coerceCases, ih, List.map_cons]; rfl

end lists

end Juju.Schemas

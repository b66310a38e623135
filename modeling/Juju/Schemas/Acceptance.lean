import Juju.Schemas.Checkers

namespace Juju.Schemas
open Juju.Base Juju.Lib

/-- `a` is the `i`-th of a list, and the pass over the list gets there. -/
def Reached {α : Type} (Pass : α → Prop) (l : List α) (i : Nat) (a : α) : Prop :=
  l[i]? = some a ∧ ∀ j b, j < i → l[j]? = some b → Pass b

theorem forall_reached_cons {α : Type} (Pass : α → Prop) (a : α) (l : List α)
    (Q : Nat → α → Prop) :
    (∀ i b, Reached Pass (a :: l) i b → Q i b) ↔
      Q 0 a ∧ (Pass a → ∀ i b, Reached Pass l i b → Q (i + 1) b) := by
  constructor
  · intro h
    refine ⟨h 0 a ⟨rfl, fun j b hj => by simp at hj⟩, fun hpass i b hreached => ?_⟩
    refine h (i + 1) b ⟨hreached.1, fun j b' hj hb' => ?_⟩
    cases j with
    | zero => exact Option.some.inj hb' ▸ hpass
    | succ j => exact hreached.2 j b' (Nat.lt_of_succ_lt_succ hj) hb'
  · rintro ⟨hfirst, hrest⟩ i b ⟨hb, hbefore⟩
    cases i with
    | zero => exact Option.some.inj hb ▸ hfirst
    | succ i =>
      have hpass : Pass a := hbefore 0 a (Nat.succ_pos i) rfl
      exact hrest hpass i b ⟨hb, fun j b' hj hb' => hbefore (j + 1) b' (Nat.succ_lt_succ hj) hb'⟩

theorem forall_reached_map {α β : Type} (f : β → α) (Pass : α → Prop) (l : List β)
    (Q : Nat → α → Prop) :
    (∀ i a, Reached Pass (l.map f) i a → Q i a) ↔
      ∀ i b, Reached (fun b => Pass (f b)) l i b → Q i (f b) := by
  constructor
  · rintro h i b ⟨hb, hbefore⟩
    refine h i (f b) ⟨by simp [hb], fun j a hj ha => ?_⟩
    obtain ⟨b', hb', rfl⟩ := by simpa using ha
    exact hbefore j b' hj hb'
  · rintro h i a ⟨ha, hbefore⟩
    obtain ⟨b, hb, rfl⟩ := by simpa using ha
    exact h i b ⟨hb, fun j b' hj hb' => hbefore j (f b') hj (by simp [hb'])⟩

/-- The path of a value of a dictionary, whose last part is the text of its key. -/
def entryPath (path : Path) (last : Value) : Path :=
  (if path.isEmpty then [] else path ++ [part "."]) ++ [last]

def itemPath (path : Path) (i : Nat) : Path := path ++ [part "[", part (toString i), part "]"]

/-- What a schema accepts, and where its `coerce` is clear of exceptions that are no
`SchemaError`. -/
structure Spec where
  Accepts : Value → Prop
  Clear : Value → Path → Prop

namespace Spec

/-- The alternatives are tried until one accepts, and there is at least one. -/
def oneOf (specs : List Spec) : Spec where
  Accepts value := ∃ s ∈ specs, s.Accepts value
  Clear value path :=
    specs ≠ [] ∧ ∀ i s, Reached (fun s : Spec => ¬ s.Accepts value) specs i s → s.Clear value path

/-- The items are looked at until one is not accepted. -/
def ItemsClear (items : List (Spec × Value)) (path : Path) : Prop :=
  ∀ i item, Reached (fun item : Spec × Value => item.1.Accepts item.2) items i item →
    item.1.Clear item.2 (itemPath path i)

def list (spec : Spec) : Spec where
  Accepts value := ∃ items, value = .list items ∧ ∀ v ∈ items, spec.Accepts v
  Clear value path := ∀ items, value = .list items → ItemsClear (items.map fun v => (spec, v)) path

def tuple (specs : List Spec) : Spec where
  Accepts value := ∃ items, value = .tuple items ∧ items.length = specs.length ∧
    ∀ item ∈ specs.zip items, item.1.Accepts item.2
  Clear value path := ∀ items, value = .tuple items → items.length = specs.length →
    ItemsClear (specs.zip items) path

/-- A key is looked at with the path of the dictionary, and then its value. -/
def dict (lib : Library) (key value : Spec) : Spec where
  Accepts v := ∃ entries, v = .dict entries ∧
    ∀ e ∈ entries, key.Accepts e.1.toValue ∧ value.Accepts e.2
  Clear v path := ∀ entries, v = .dict entries →
    ∀ i e, Reached (fun e : Key × Value => key.Accepts e.1.toValue ∧ value.Accepts e.2) entries i e →
      key.Clear e.1.toValue path ∧
        (key.Accepts e.1.toValue → value.Clear e.2 (entryPath path (.text (keyText lib e.1))))

/-- An entry whose key is in the schema is accepted by the schema of its key. -/
def EntryAccepted (fields : List (PythonText × Spec)) (e : Key × Value) : Prop :=
  ∀ field, fieldAt fields e.1 = some field → field.Accepts e.2

/-- A key that is missing is reported in a path that can be joined. -/
def keyDict (lib : Library) (fields : List (PythonText × Spec)) (optional : List PythonText) :
    Spec where
  Accepts value := ∃ entries, value = .dict entries ∧ (∀ e ∈ entries, EntryAccepted fields e) ∧
    missingKey fields optional entries = none
  Clear value path := ∀ entries, value = .dict entries →
    (∀ i e, Reached (EntryAccepted fields) entries i e →
      ∀ field, fieldAt fields e.1 = some field →
        field.Clear e.2 (entryPath path (.text (keyText lib e.1)))) ∧
    ((∀ e ∈ entries, EntryAccepted fields e) →
      ∀ k, missingKey fields optional entries = some k → join (entryPath path (.text k)) = none)

/-- The value is asked for the key, whatever it is, and what it has there for its schema. -/
def selectDict (key : Key) (cases : List (Key × Spec)) : Spec where
  Accepts value := contains value key = .ok true ∧
    ∃ spec, getItem value key >>= caseAt cases = .ok spec ∧ spec.Accepts value
  Clear value path :=
    (contains value key = .ok false ∧ join (path ++ [part ".", key.toValue]) = none) ∨
      (contains value key = .ok true ∧
        ∃ spec, getItem value key >>= caseAt cases = .ok spec ∧ spec.Clear value path)

end Spec

section schemas

variable (lib : Library)

mutual

def Schema.spec : Schema → Spec
  | .checker c => ⟨c.Accepts lib, fun value _ => c.Clear lib value⟩
  | .oneOf schemas => .oneOf (Schema.specAll schemas)
  | .list schema => .list (Schema.spec schema)
  | .tuple schemas => .tuple (Schema.specAll schemas)
  | .dict keySchema valueSchema => .dict lib (Schema.spec keySchema) (Schema.spec valueSchema)
  | .keyDict schema optional => .keyDict lib (Schema.specFields schema) optional
  | .selectDict key schemas => .selectDict key (Schema.specCases schemas)

def Schema.specAll : List Schema → List Spec
  | [] => []
  | schema :: schemas => Schema.spec schema :: Schema.specAll schemas

def Schema.specFields : List (PythonText × Schema) → List (PythonText × Spec)
  | [] => []
  | (k, schema) :: fields => (k, Schema.spec schema) :: Schema.specFields fields

def Schema.specCases : List (Key × Schema) → List (Key × Spec)
  | [] => []
  | (k, schema) :: cases => (k, Schema.spec schema) :: Schema.specCases cases

end

theorem specAll_eq (schemas : List Schema) :
    Schema.specAll lib schemas = schemas.map (Schema.spec lib) := by
  induction schemas with
  | nil => rfl
  | cons schema schemas ih => rw [Schema.specAll, ih, List.map_cons]

theorem specFields_eq (fields : List (PythonText × Schema)) :
    Schema.specFields lib fields = fields.map (Prod.map id (Schema.spec lib)) := by
  induction fields with
  | nil => rfl
  | cons f fields ih => rw [Schema.specFields, ih, List.map_cons]; rfl

theorem specCases_eq (cases : List (Key × Schema)) :
    Schema.specCases lib cases = cases.map (Prod.map id (Schema.spec lib)) := by
  induction cases with
  | nil => rfl
  | cons f cases ih => rw [Schema.specCases, ih, List.map_cons]; rfl

end schemas

end Juju.Schemas

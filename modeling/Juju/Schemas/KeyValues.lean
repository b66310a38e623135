import Juju.Schemas.PathsRestored

namespace Juju.Schemas
open Juju.Base Juju.Lib

/-- A call returns only values of `P`. -/
def ReturnsAt (P : Value → Prop) (m : Coerce Value) (path : Path) : Prop :=
  ∀ v list, m path = .ok v list → P v

section hashing

def Hashable (v : Value) : Prop := v.toKey? ≠ none

theorem hashable_atom (a : Atom) : Hashable (.atom a) := by
  simp [Hashable, Value.toKey?]

theorem toKeys?_ne_none (vs : List Value) (h : ∀ v ∈ vs, Hashable v) : Value.toKeys? vs ≠ none := by
  induction vs with
  | nil => simp [Value.toKeys?]
  | cons v vs ih =>
    obtain ⟨k, hk⟩ := Option.ne_none_iff_exists'.mp (h v List.mem_cons_self)
    obtain ⟨ks, hks⟩ := Option.ne_none_iff_exists'.mp
      (ih fun v hv => h v (List.mem_cons_of_mem _ hv))
    simp [Value.toKeys?, hk, hks]

theorem hashable_tuple (vs : List Value) (h : ∀ v ∈ vs, Hashable v) : Hashable (.tuple vs) := by
  simpa [Hashable, Value.toKey?] using toKeys?_ne_none vs h

mutual

theorem toValue_hashable : (k : Key) → Hashable k.toValue
  | .atom a => hashable_atom a
  | .tuple ks => hashable_tuple _ (toValues_hashable ks)

theorem toValues_hashable : (ks : List Key) → ∀ v ∈ Key.toValues ks, Hashable v
  | [] => fun v hv => by cases hv
  | k :: ks => by
    rw [Key.toValues, List.forall_mem_cons]
    exact ⟨toValue_hashable k, toValues_hashable ks⟩

end

/-- What a schema gives back for what is hashable is hashable, so that it can be a key again. -/
def Hashing (schema : Coercer) : Prop :=
  ∀ value, Hashable value → ∀ path, ReturnsAt Hashable (schema value) path

theorem hashable_items (items : List Value) (h : Hashable (.tuple items)) :
    ∀ v ∈ items, Hashable v := by
  have hkeys : Value.toKeys? items ≠ none := by simpa [Hashable, Value.toKey?] using h
  clear h
  induction items with
  | nil => simp
  | cons v items ih =>
    have hparts : v.toKey? ≠ none ∧ Value.toKeys? items ≠ none := by
      constructor
      · intro hv
        exact hkeys (by simp [Value.toKeys?, hv])
      · intro hitems
        exact hkeys (by simp [Value.toKeys?, hitems])
    exact List.forall_mem_cons.mpr ⟨hparts.1, ih hparts.2⟩

variable {P : Value → Prop}

theorem returns_pure (v : Value) (path : Path) (h : P v) : ReturnsAt P (pure v) path := by
  intro v' list hrun
  cases hrun
  exact h

theorem returns_fail (message : Message) (path : Path) : ReturnsAt P (fail message) path := by
  intro v list hrun
  cases hrun

theorem returns_throw (e : Raised) (path : Path) : ReturnsAt P (throw e) path := by
  intro v list hrun
  cases hrun

/-- A call returns what its last part does. -/
theorem returns_bind {α : Type} (m : Coerce α) (f : α → Coerce Value) (path : Path)
    (h : ∀ a list, m path = .ok a list → ReturnsAt P (f a) list) : ReturnsAt P (m >>= f) path := by
  intro v list hrun
  obtain ⟨a, list', hfirst, hlast⟩ := bind_ok m f path list v hrun
  exact h a list' hfirst v list hlast

theorem checker_hashing (lib : Library) (c : Checker) : Hashing (c.coerce lib) := by
  intro value hvalue path
  have hatom (a : Atom) : ReturnsAt Hashable (pure (.atom a)) path :=
    returns_pure _ path (hashable_atom a)
  have hfail (message : Message) : ReturnsAt Hashable (fail message) path := returns_fail _ path
  cases c with
  | constant c =>
    simp only [Checker.coerce, constant]
    split
    · exact returns_pure value path hvalue
    · exact hfail _
  | any => exact returns_pure value path hvalue
  | bool =>
    simp only [Checker.coerce]
    unfold bool
    split
    · exact hatom _
    · exact hfail _
  | int =>
    simp only [Checker.coerce]
    unfold int
    split
    · exact hatom _
    · exact hatom _
    · exact hfail _
  | float =>
    simp only [Checker.coerce]
    unfold float
    split
    · exact hatom _
    · exact hatom _
    · exact hatom _
    · exact hatom _
    · exact hfail _
  | string =>
    simp only [Checker.coerce]
    unfold string
    split
    · exact hatom _
    · exact hfail _
  | unicode =>
    simp only [Checker.coerce]
    unfold unicode
    split
    · exact hatom _
    · exact hfail _
  | regex =>
    simp only [Checker.coerce]
    unfold regex
    split
    · exact hatom _
    · split
      · exact hatom _
      · exact hfail _
      · exact returns_throw _ path
    · exact returns_throw _ path
  | unicodeOrString encoding =>
    simp only [Checker.coerce]
    unfold unicodeOrString
    split
    · split
      · exact hatom _
      · exact hfail _
      · exact returns_throw _ path
    · exact hatom _
    · exact hfail _
  | oauthString =>
    simp only [Checker.coerce]
    unfold oauthString string
    split
    · dsimp only
      split
      · exact hfail _
      · split
        · exact hfail _
        · refine returns_pure _ path (hashable_tuple _ ?_)
          exact List.forall_mem_map.mpr fun t _ => hashable_atom (.text t)
    · split
      · exact hatom _
      · exact hfail _

theorem oneOfLoop_hashing (value : Value) (hvalue : Hashable value) (schemas : List Coercer)
    (h : ∀ schema ∈ schemas, Hashing schema) (best : Option SchemaError) (path : Path) :
    ReturnsAt Hashable (oneOfLoop value best schemas) path := by
  induction schemas generalizing best path with
  | nil => cases best <;> exact returns_throw _ path
  | cons schema schemas ih =>
    intro v list hrun
    rw [oneOfLoop_cons] at hrun
    cases hfirst : schema value path with
    | ok v' list' =>
      rw [hfirst] at hrun
      cases hrun
      exact h schema List.mem_cons_self value hvalue path v list hfirst
    | error e list' =>
      rw [hfirst] at hrun
      cases e with
      | exception x => cases hrun
      | schemaError e =>
        exact ih (fun s hs => h s (List.mem_cons_of_mem _ hs)) _ list' v list hrun

theorem coerceItems_hashing (items : List (Coercer × Value))
    (h : ∀ item ∈ items, Hashing item.1 ∧ Hashable item.2) (i : Nat) (path list : Path)
    (vs : List Value) (hrun : coerceItems i items path = .ok vs list) : ∀ v ∈ vs, Hashable v := by
  induction items generalizing i path list vs with
  | nil =>
    cases hrun
    simp
  | cons item items ih =>
    obtain ⟨hhash, hitem⟩ := h item List.mem_cons_self
    rw [coerceItems, modify_bind] at hrun
    obtain ⟨v, list₁, hfirst, hrun⟩ := bind_ok _ _ _ _ _ hrun
    obtain ⟨vs', list₂, hrest, hrun⟩ := bind_ok _ _ _ _ _ hrun
    cases hrun
    exact List.forall_mem_cons.mpr ⟨hhash item.2 hitem _ v list₁ hfirst,
      ih (fun item hitem => h item (List.mem_cons_of_mem _ hitem)) _ _ _ vs' hrest⟩

theorem tuple_hashing (schemas : List Coercer) (h : ∀ schema ∈ schemas, Hashing schema) :
    Hashing (tuple schemas) := by
  intro value hvalue path
  unfold tuple
  split
  · rename_i items
    split
    · exact returns_fail _ path
    · refine returns_bind _ _ path fun vs list hrun => returns_pure _ list (hashable_tuple vs ?_)
      rw [bracketed, modify_bind] at hrun
      unfold finallyDo at hrun
      split at hrun
      · rename_i vs' list' hitems
        cases hrun
        refine coerceItems_hashing _ (fun item hitem => ?_) 0 _ list' vs hitems
        obtain ⟨hschema, hv⟩ := List.of_mem_zip hitem
        exact ⟨h _ hschema, hashable_items items hvalue _ hv⟩
      · cases hrun
  · exact returns_fail _ path

theorem selectDict_hashing (key : Key) (schemas : List (Key × Coercer))
    (h : ∀ e ∈ schemas, Hashing e.2) : Hashing (selectDict key schemas) := by
  intro value hvalue path
  unfold selectDict
  split
  · exact returns_throw _ path
  · exact returns_bind _ _ path fun _ list _ => returns_throw _ list
  · split
    · exact returns_throw _ path
    · rename_i schema hselect
      obtain ⟨selected, -, hcase⟩ := except_bind_ok _ _ _ hselect
      obtain ⟨k, hmem⟩ := caseAt_mem schemas selected schema hcase
      exact h _ hmem value hvalue path

theorem coerce_hashing (lib : Library) (schema : Schema) : Hashing (schema.coerce lib) := by
  induction schema using Schema.nested_induction with
  | h schema ih =>
    cases schema with
    | checker c => exact checker_hashing lib c
    | oneOf schemas =>
      refine fun value hvalue path => oneOfLoop_hashing value hvalue _ ?_ none path
      rwa [coerceAll_eq, List.forall_mem_map]
    | list schema =>
      intro value hvalue path
      cases value <;> first | exact returns_fail _ path | exact absurd rfl hvalue
    | tuple schemas =>
      refine tuple_hashing _ ?_
      rwa [coerceAll_eq, List.forall_mem_map]
    | dict keySchema valueSchema =>
      intro value hvalue path
      cases value <;> first | exact returns_fail _ path | exact absurd rfl hvalue
    | keyDict schema optional =>
      intro value hvalue path
      cases value <;> first | exact returns_fail _ path | exact absurd rfl hvalue
    | selectDict key schemas =>
      refine selectDict_hashing key _ ?_
      rw [coerceCases_eq, List.forall_mem_map]
      exact fun e he => ih e.2 (List.mem_map_of_mem he)

end hashing

end Juju.Schemas

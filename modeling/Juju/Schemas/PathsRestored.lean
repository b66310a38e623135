import Juju.Schemas.Checkers

namespace Juju.Schemas
open Juju.Base Juju.Lib

/-- A call leaves the path list of its caller as it was. -/
def Restores {α : Type} (m : Coerce α) : Prop := ∀ path, leaves (m path) = path

def Restoring (schema : Coercer) : Prop := ∀ value, Restores (schema value)

section calls

variable {α β : Type}

/-- What restores the path keeps whatever holds of it. -/
theorem restores_keeps (m : Coerce α) (h : Restores m) (P : Path → Prop) : Keeps P m := by
  intro path hP
  rwa [h path]

theorem keeps_restores (m : Coerce α) (h : ∀ path, Keeps (· = path) m) : Restores m :=
  fun path => h path path rfl

theorem restores_pure (a : α) : Restores (pure a : Coerce α) := fun _ => rfl

theorem restores_throw (e : Raised) : Restores (throw e : Coerce α) := fun _ => rfl

theorem restores_fail (message : Message) : Restores (fail message : Coerce α) := fun _ => rfl

theorem restores_bind (m : Coerce α) (f : α → Coerce β) (hm : Restores m)
    (hf : ∀ a, Restores (f a)) : Restores (m >>= f) :=
  keeps_restores _ fun _ =>
    keeps_bind _ m f (restores_keeps m hm _) fun a => restores_keeps (f a) (hf a) _

theorem restores_get_bind (f : Path → Coerce β) (h : ∀ path, Restores (f path)) :
    Restores (get >>= f) := fun path => h path path

theorem restores_onList (list : Path) (m : Coerce α) : Restores (onList list m) := by
  intro path
  unfold onList
  cases m list <;> rfl

/-- A path list with the brackets of an item. -/
def Bracketed (path list : Path) : Prop := ∃ x, list = path ++ [part "[", x, part "]"]

theorem set_bracketed (path : Path) (a x b y : Value) :
    (path ++ [a, x, b]).set ((path ++ [a, x, b]).length - 2) y = path ++ [a, y, b] := by
  have hindex : (path ++ [a, x, b]).length - 2 = path.length + 1 := by
    simp only [List.length_append, List.length_cons, List.length_nil]
    omega
  rw [hindex, List.set_append_right _ _ (by omega)]
  simp

theorem restores_bracketed (m : Coerce α) (h : ∀ path, Keeps (Bracketed path) m) :
    Restores (bracketed m) := by
  intro path
  obtain ⟨x, hx⟩ := h path (path ++ [part "[", part "?", part "]"]) ⟨_, rfl⟩
  have hdel : (leaves (m (path ++ [part "[", part "?", part "]"]))).take
      ((leaves (m (path ++ [part "[", part "?", part "]"]))).length - 3) = path := by
    rw [hx]
    simp
  rw [bracketed, modify_bind]
  unfold finallyDo
  cases hm : m (path ++ [part "[", part "?", part "]"]) with
  | ok a list => simpa [hm] using hdel
  | error e list => simpa [hm] using hdel

end calls

theorem atOnce_restores (Clear Accepts : Prop) (m : Coerce Value) (h : AtOnce Clear Accepts m) :
    Restores m := by
  cases h with
  | returns v => exact restores_pure v
  | fails message => exact restores_fail message
  | raises x => exact restores_throw _

section nested

theorem oneOfLoop_restores (value : Value) (schemas : List Coercer)
    (h : ∀ schema ∈ schemas, Restoring schema) (best : Option SchemaError) :
    Restores (oneOfLoop value best schemas) := by
  induction schemas generalizing best with
  | nil => cases best <;> exact restores_throw _
  | cons schema schemas ih =>
    intro path
    have hfirst := h schema List.mem_cons_self value path
    have hrest (best : Option SchemaError) := ih (fun s hs => h s (List.mem_cons_of_mem _ hs)) best
    rw [oneOfLoop_cons]
    cases hrun : schema value path with
    | ok v list => rwa [hrun] at hfirst
    | error e list =>
      rw [hrun, leaves_error] at hfirst
      cases e with
      | exception x => exact hfirst
      | schemaError e =>
        rw [hfirst]
        exact hrest _ path

theorem oneOf_restoring (schemas : List Coercer) (h : ∀ schema ∈ schemas, Restoring schema) :
    Restoring (oneOf schemas) := fun value => oneOfLoop_restores value schemas h none

/-- The loop only changes what stands between the brackets. -/
theorem coerceItems_keeps (items : List (Coercer × Value)) (h : ∀ item ∈ items, Restoring item.1)
    (path : Path) (i : Nat) : Keeps (Bracketed path) (coerceItems i items) := by
  induction items generalizing i with
  | nil => exact keeps_pure _ _
  | cons item items ih =>
    have hrest := ih (fun item hitem => h item (List.mem_cons_of_mem _ hitem)) (i + 1)
    refine keeps_bind _ _ _ ?_ fun _ => keeps_bind _ _ _ ?_ fun v => keeps_bind _ _ _ hrest fun _ => ?_
    · refine keeps_modify _ _ ?_
      rintro list ⟨x, rfl⟩
      exact ⟨part (toString i), set_bracketed path _ _ _ _⟩
    · exact restores_keeps _ (h item List.mem_cons_self item.2) _
    · exact keeps_pure _ _

theorem list_restoring (schema : Coercer) (h : Restoring schema) : Restoring (list schema) := by
  intro value
  unfold list
  split
  · refine restores_bind _ _ (restores_bracketed _ fun path => ?_) fun _ => restores_pure _
    exact coerceItems_keeps _ (by simpa using fun _ _ => h) path 0
  · exact restores_fail _

theorem tuple_restoring (schemas : List Coercer) (h : ∀ schema ∈ schemas, Restoring schema) :
    Restoring (tuple schemas) := by
  intro value
  unfold tuple
  split
  · split
    · exact restores_fail _
    · refine restores_bind _ _ (restores_bracketed _ fun path => ?_) fun _ => restores_pure _
      exact coerceItems_keeps _ (fun item hitem => h _ (List.of_mem_zip hitem).1) path 0
  · exact restores_fail _

theorem hashed_restores (value : Value) : Restores (hashed value) := by
  unfold hashed
  split
  · exact restores_pure _
  · exact restores_throw _

theorem dictLoop_restores (lib : Library) (keySchema valueSchema : Coercer)
    (hkey : Restoring keySchema) (entries : List (Key × Value)) (list : Path)
    (newDict : List (Key × Value)) :
    Restores (dictLoop lib keySchema valueSchema list newDict entries) := by
  induction entries generalizing list newDict with
  | nil => exact restores_pure _
  | cons e entries ih =>
    refine restores_bind _ _ (hkey _) fun newKey => ?_
    refine restores_bind _ _ (restores_onList _ _) fun r => ?_
    exact restores_bind _ _ (hashed_restores newKey) fun _ => ih _ _

theorem dict_restoring (lib : Library) (keySchema valueSchema : Coercer)
    (hkey : Restoring keySchema) : Restoring (dict lib keySchema valueSchema) := by
  intro value
  unfold dict
  split
  · refine restores_get_bind _ fun path => ?_
    exact restores_bind _ _ (dictLoop_restores lib _ _ hkey _ _ _) fun _ => restores_pure _
  · exact restores_fail _

/-- The path of a `KeyDict` is a copy, which nobody restores. -/
theorem keyDict_restoring (lib : Library) (schema : List (PythonText × Coercer))
    (optional : List PythonText) : Restoring (keyDict lib schema optional) := by
  intro value
  unfold keyDict
  split
  · refine restores_get_bind _ fun path => ?_
    exact restores_bind _ _ (restores_onList _ _) fun _ => restores_pure _
  · exact restores_fail _

theorem caseAt_mem {α : Type} (schemas : List (Key × α)) (selected : Value) (schema : α)
    (h : caseAt schemas selected = .ok schema) : ∃ k, (k, schema) ∈ schemas := by
  unfold caseAt at h
  split at h
  · cases h
  · rename_i k _
    cases hfind : schemas.find? fun e => e.1.equals k with
    | none => simp [hfind] at h
    | some e =>
      simp only [hfind, Option.map_some, Option.elim_some, Except.ok.injEq] at h
      exact ⟨e.1, h ▸ List.mem_of_find?_eq_some hfind⟩

theorem selectDict_restoring (key : Key) (schemas : List (Key × Coercer))
    (h : ∀ e ∈ schemas, Restoring e.2) : Restoring (selectDict key schemas) := by
  intro value
  unfold selectDict
  split
  · exact restores_throw _
  · exact restores_get_bind _ fun _ => restores_throw _
  · split
    · exact restores_throw _
    · rename_i schema hselect
      obtain ⟨selected, -, hcase⟩ := except_bind_ok _ _ _ hselect
      obtain ⟨k, hmem⟩ := caseAt_mem schemas selected schema hcase
      exact h _ hmem value

end nested

theorem coerce_restoring (lib : Library) (schema : Schema) : Restoring (schema.coerce lib) := by
  induction schema using Schema.nested_induction with
  | h schema ih =>
    cases schema with
    | checker c => exact fun value => atOnce_restores _ _ _ (checker_atOnce lib c value)
    | oneOf schemas =>
      refine oneOf_restoring _ ?_
      rwa [coerceAll_eq, List.forall_mem_map]
    | list schema => exact list_restoring _ (ih schema List.mem_cons_self)
    | tuple schemas =>
      refine tuple_restoring _ ?_
      rwa [coerceAll_eq, List.forall_mem_map]
    | dict keySchema valueSchema => exact dict_restoring lib _ _ (ih keySchema List.mem_cons_self)
    | keyDict schema optional => exact keyDict_restoring lib _ optional
    | selectDict key schemas =>
      refine selectDict_restoring key _ ?_
      rw [coerceCases_eq, List.forall_mem_map]
      exact fun e he => ih e.2 (List.mem_map_of_mem he)

end Juju.Schemas

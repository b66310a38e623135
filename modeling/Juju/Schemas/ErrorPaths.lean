import Juju.Schemas.Acceptance
import Juju.Schemas.PathsRestored

namespace Juju.Schemas
open Juju.Base Juju.Lib

/-- The path leads from a value, which is at the first path, to a place in it. -/
inductive Leads (lib : Library) : Path → Value → Path → Prop
  | here (path : Path) (value : Value) : Leads lib path value path
  | listItem (path place : Path) (items : List Value) (i : Nat) (v : Value) : items[i]? = some v →
      Leads lib (path ++ [part "[", part (toString i), part "]"]) v place →
      Leads lib path (.list items) place
  | tupleItem (path place : Path) (items : List Value) (i : Nat) (v : Value) : items[i]? = some v →
      Leads lib (path ++ [part "[", part (toString i), part "]"]) v place →
      Leads lib path (.tuple items) place
  | key (path place : Path) (entries : List (Key × Value)) (e : Key × Value) : e ∈ entries →
      Leads lib path e.1.toValue place → Leads lib path (.dict entries) place
  | entry (path place : Path) (entries : List (Key × Value)) (e : Key × Value) : e ∈ entries →
      Leads lib (entryPath path (.text (keyText lib e.1))) e.2 place →
      Leads lib path (.dict entries) place
  /-- A key that is required, and is not there. -/
  | missing (path : Path) (entries : List (Key × Value)) (k : PythonText) :
      lookup entries (.text k) = none → Leads lib path (.dict entries) (entryPath path (.text k))
  /-- A key that selects the schema, and is not there. -/
  | absent (path : Path) (value : Value) (k : Key) : contains value k = .ok false →
      Leads lib path value (path ++ [part ".", k.toValue])

section places

variable (lib : Library)

theorem entryPath_extends (path : Path) (last : Value) : path <+: entryPath path last := by
  unfold entryPath
  split
  · rename_i h
    rw [List.isEmpty_iff.mp h]
    exact List.nil_prefix
  · exact ⟨[part ".", last], by simp⟩

theorem leads_extends (path place : Path) (value : Value) (h : Leads lib path value place) :
    path <+: place := by
  induction h with
  | here path value => exact List.prefix_rfl
  | listItem path place items i v _ _ ih => exact (List.prefix_append path _).trans ih
  | tupleItem path place items i v _ _ ih => exact (List.prefix_append path _).trans ih
  | key path place entries e _ _ ih => exact ih
  | entry path place entries e _ _ ih => exact (entryPath_extends path _).trans ih
  | missing path entries k _ => exact entryPath_extends path _
  | absent path value k _ => exact List.prefix_append path _

theorem setLast_entryPath (path : Path) (last last' : Value) :
    setLast last' (entryPath path last) = entryPath path last' := by
  unfold setLast entryPath
  rw [List.length_append, List.length_singleton, Nat.add_sub_cancel,
    List.set_append_right _ _ (le_refl _), Nat.sub_self]
  rfl

/-- A path list for the entries of a dictionary, whose last part is still to be set. -/
def EntryList (path list : Path) : Prop := ∀ last, setLast last list = entryPath path last

theorem valuePath_entryList (path : Path) : EntryList path (valuePath path) := by
  intro last
  unfold setLast valuePath entryPath
  split
  · simp
  · simp

theorem entryList_setLast (path list : Path) (h : EntryList path list) (last : Value) :
    EntryList path (setLast last list) := by
  intro last'
  rw [h last, setLast_entryPath]

/-- The errors of a call on a path list were made with paths of `P`. -/
def ReportsAt {α : Type} (P : Path → Prop) (m : Coerce α) (path : Path) : Prop :=
  ∀ e list, m path = .error (.schemaError e) list → P e.reported

/-- The errors of a schema lead to a place in the value that is coerced. -/
def Locating (schema : Coercer) : Prop :=
  ∀ value path, ReportsAt (Leads lib path value) (schema value) path

variable {α β : Type} (P : Path → Prop)

theorem reports_schemaError (own : Option Path) (path : Path) (message : Message) (e : SchemaError)
    (h : schemaError own path message = .schemaError e) : e.reported = path := by
  unfold schemaError at h
  split at h
  · cases h
    rfl
  · cases h

theorem reports_pure (a : α) (path : Path) : ReportsAt P (pure a : Coerce α) path := by
  intro e list h
  cases h

theorem reports_exception (x : Exception) (path : Path) :
    ReportsAt P (throw (.exception x) : Coerce α) path := by
  intro e list h
  cases h

theorem reports_fail (message : Message) (path : Path) (h : P path) :
    ReportsAt P (fail message : Coerce α) path := by
  intro e list hraised
  have hreported := reports_schemaError none path message e (EStateM.Result.error.inj hraised).1
  rwa [hreported]

theorem reports_bind (m : Coerce α) (f : α → Coerce β) (path : Path) (hm : ReportsAt P m path)
    (hf : ∀ a list, m path = .ok a list → ReportsAt P (f a) list) : ReportsAt P (m >>= f) path := by
  intro e list h
  rw [bind_run] at h
  cases hrun : m path with
  | ok a list' =>
    rw [hrun] at h
    exact hf a list' hrun e list h
  | error e' list' =>
    rw [hrun] at h
    cases h
    exact hm e list hrun

/-- What follows a call that restores the path starts with it. -/
theorem reports_bind_restores (m : Coerce α) (f : α → Coerce β) (path : Path)
    (hm : ReportsAt P m path) (hrestores : Restores m)
    (hf : ∀ a, m path = .ok a path → ReportsAt P (f a) path) : ReportsAt P (m >>= f) path := by
  refine reports_bind P m f path hm fun a list hrun => ?_
  have hpath := hrestores path
  rw [hrun, leaves_ok] at hpath
  rw [hpath] at hrun ⊢
  exact hf a hrun

theorem reports_onList (list : Path) (m : Coerce α) (path : Path) (h : ReportsAt P m list) :
    ReportsAt P (onList list m) path := by
  intro e list' hraised
  unfold onList at hraised
  cases hrun : m list with
  | ok a list'' => simp [hrun] at hraised
  | error e' list'' =>
    cases e' with
    | exception x => simp [hrun, Raised.settle] at hraised
    | schemaError e' =>
      simp only [hrun, Raised.settle, EStateM.Result.error.injEq, Raised.schemaError.injEq] at hraised
      rw [← hraised.1]
      exact h e' list'' hrun

theorem onList_list (list : Path) (m : Coerce α) (path path' : Path) (r : α × Path)
    (hrestores : Restores m) (h : onList list m path = .ok r path') : r.2 = list := by
  have hlist := hrestores list
  unfold onList at h
  cases hrun : m list with
  | ok a list' =>
    rw [hrun] at h hlist
    cases h
    exact hlist
  | error e list' => simp [hrun] at h

theorem reports_finallyDo (m : Coerce α) (f : Path → Path) (path : Path) (h : ReportsAt P m path) :
    ReportsAt P (finallyDo m f) path := by
  intro e list hraised
  unfold finallyDo at hraised
  cases hrun : m path with
  | ok a list' => simp [hrun] at hraised
  | error e' list' =>
    simp only [hrun, EStateM.Result.error.injEq] at hraised
    rw [hraised.1] at hrun
    exact h e list' hrun

theorem reports_modify_bind (g : Path → Path) (f : Unit → Coerce β) (path : Path)
    (h : ReportsAt P (f ()) (g path)) : ReportsAt P (modify g >>= f) path := h

theorem reports_get_bind (f : Path → Coerce β) (path : Path) (h : ReportsAt P (f path) path) :
    ReportsAt P (get >>= f) path := h

theorem reports_mono (Q : Path → Prop) (m : Coerce α) (path : Path) (h : ReportsAt P m path)
    (hPQ : ∀ place, P place → Q place) : ReportsAt Q m path :=
  fun e list hraised => hPQ _ (h e list hraised)

end places

section nested

variable (lib : Library)

theorem atOnce_locating (Clear Accepts : Prop) (m : Coerce Value) (h : AtOnce Clear Accepts m)
    (P : Path → Prop) (path : Path) (hP : P path) : ReportsAt P m path := by
  cases h with
  | returns v => exact reports_pure P v path
  | fails message => exact reports_fail P message path hP
  | raises x => exact reports_exception P x path

theorem oneOfLoop_reports (value : Value) (path : Path) (P : Path → Prop) (schemas : List Coercer)
    (hrestores : ∀ schema ∈ schemas, Restoring schema)
    (h : ∀ schema ∈ schemas, ReportsAt P (schema value) path) (best : Option SchemaError)
    (hbest : ∀ e, best = some e → P e.reported) :
    ReportsAt P (oneOfLoop value best schemas) path := by
  induction schemas generalizing best with
  | nil =>
    cases best with
    | none => exact reports_exception P _ path
    | some best =>
      intro e list hraised
      cases hraised
      exact hbest best rfl
  | cons schema schemas ih =>
    have hfirst := h schema List.mem_cons_self
    have hpath := hrestores schema List.mem_cons_self value path
    intro e list hraised
    rw [oneOfLoop_cons] at hraised
    cases hrun : schema value path with
    | ok v list' => simp [hrun] at hraised
    | error e' list' =>
      rw [hrun] at hraised hpath
      cases e' with
      | exception x => cases hraised
      | schemaError e' =>
        rw [leaves_error] at hpath
        subst hpath
        refine ih (fun s hs => hrestores s (List.mem_cons_of_mem _ hs))
          (fun s hs => h s (List.mem_cons_of_mem _ hs)) _ ?_ e list hraised
        intro e₁ he₁
        rw [← Option.some.inj he₁]
        have hreported := hfirst e' list' hrun
        unfold bestError
        split
        · exact hreported
        · split
          · exact hreported
          · exact hbest _ rfl

/-- The loop reports what each item reports, between the brackets that say which it is. -/
theorem coerceItems_reports (P : Path → Prop) (path : Path) (items : List (Coercer × Value))
    (hrestores : ∀ item ∈ items, Restoring item.1) (i : Nat) (x : Value)
    (h : ∀ j item, items[j]? = some item →
      ReportsAt P (item.1 item.2) (path ++ [part "[", part (toString (i + j)), part "]"])) :
    ReportsAt P (coerceItems i items) (path ++ [part "[", x, part "]"]) := by
  induction items generalizing i x with
  | nil => exact reports_pure P _ _
  | cons item items ih =>
    have hfirst := h 0 item rfl
    refine reports_modify_bind P _ _ _ ?_
    rw [set_bracketed]
    have hitem := hrestores item List.mem_cons_self item.2
    refine reports_bind_restores P _ _ _ hfirst hitem fun v _ => ?_
    refine reports_bind P _ _ _ ?_ fun _ _ _ => reports_pure P _ _
    refine ih (fun item hitem => hrestores item (List.mem_cons_of_mem _ hitem)) (i + 1) _ ?_
    intro j item' hitem
    rw [Nat.add_assoc, Nat.add_comm 1 j]
    exact h (j + 1) item' hitem

theorem bracketed_reports (P : Path → Prop) (path : Path) (items : List (Coercer × Value))
    (hrestores : ∀ item ∈ items, Restoring item.1)
    (h : ∀ (j : Nat) item, items[j]? = some item →
      ReportsAt P (item.1 item.2) (path ++ [part "[", part (toString j), part "]"])) :
    ReportsAt P (bracketed (coerceItems 0 items)) path := by
  refine reports_modify_bind P _ _ _ (reports_finallyDo P _ _ _ ?_)
  refine coerceItems_reports P path items hrestores 0 _ fun j item hitem => ?_
  rw [Nat.zero_add]
  exact h j item hitem

theorem list_locating (schema : Coercer) (hrestores : Restoring schema)
    (h : Locating lib schema) : Locating lib (list schema) := by
  intro value path
  unfold list
  split
  · rename_i items
    refine reports_bind _ _ _ _ ?_ fun _ _ _ => reports_pure _ _ _
    refine bracketed_reports _ path _ (by simpa using fun _ _ => hrestores) fun j item hitem => ?_
    obtain ⟨v, hv, rfl⟩ := by simpa using hitem
    refine reports_mono _ _ _ _ (h v _) fun place hplace => ?_
    exact .listItem path place items j v hv hplace
  · exact reports_fail _ _ _ (.here path value)

theorem tuple_locating (schemas : List Coercer) (hrestores : ∀ schema ∈ schemas, Restoring schema)
    (h : ∀ schema ∈ schemas, Locating lib schema) : Locating lib (tuple schemas) := by
  intro value path
  unfold tuple
  split
  · rename_i items
    split
    · exact reports_fail _ _ _ (.here path _)
    · refine reports_bind _ _ _ _ ?_ fun _ _ _ => reports_pure _ _ _
      refine bracketed_reports _ path _ (fun item hitem => hrestores _ (List.of_mem_zip hitem).1)
        fun j item hitem => ?_
      obtain ⟨hschema, hv⟩ := List.getElem?_zip_eq_some.mp hitem
      refine reports_mono _ _ _ _ (h _ (List.mem_of_getElem? hschema) item.2 _) fun place hplace => ?_
      exact .tupleItem path place items j item.2 hv hplace
  · exact reports_fail _ _ _ (.here path value)

theorem hashed_reports (P : Path → Prop) (value : Value) (path : Path) :
    ReportsAt P (hashed value) path := by
  unfold hashed
  split
  · exact reports_pure P _ path
  · exact reports_exception P _ path

/-- What a value leaves of the path list of the values is what the next one starts with. -/
theorem dictLoop_reports (keySchema valueSchema : Coercer) (hkey : Locating lib keySchema)
    (hkeyRestores : Restoring keySchema) (hvalue : Locating lib valueSchema)
    (hrestores : Restoring valueSchema) (path : Path) (whole entries : List (Key × Value))
    (hwhole : entries ⊆ whole) (list : Path)
    (hlist : EntryList path list) (newDict : List (Key × Value)) :
    ReportsAt (Leads lib path (.dict whole))
      (dictLoop lib keySchema valueSchema list newDict entries) path := by
  induction entries generalizing list newDict with
  | nil => exact reports_pure _ _ _
  | cons e entries ih =>
    have he : e ∈ whole := hwhole List.mem_cons_self
    have hrest : entries ⊆ whole := fun x hx => hwhole (List.mem_cons_of_mem _ hx)
    refine reports_bind_restores _ _ _ _ ?_ (hkeyRestores _) fun newKey _ => ?_
    · exact reports_mono _ _ _ _ (hkey e.1.toValue path) fun place => .key path place whole e he
    refine reports_bind_restores _ _ _ _ ?_ (restores_onList _ _) fun r hrun => ?_
    · rw [hlist]
      refine reports_onList _ _ _ _ ?_
      exact reports_mono _ _ _ _ (hvalue e.2 _) fun place => .entry path place whole e he
    refine reports_bind_restores _ _ _ _ (hashed_reports _ _ _) (hashed_restores _) fun k _ => ?_
    rw [onList_list _ _ _ _ _ (hrestores e.2) hrun]
    exact ih hrest _ (entryList_setLast path list hlist _) _

theorem dict_locating (keySchema valueSchema : Coercer) (hkey : Locating lib keySchema)
    (hkeyRestores : Restoring keySchema) (hvalue : Locating lib valueSchema)
    (hrestores : Restoring valueSchema) : Locating lib (dict lib keySchema valueSchema) := by
  intro value path
  unfold dict
  split
  · rename_i entries
    refine reports_get_bind _ _ _ (reports_bind _ _ _ _ ?_ fun _ _ _ => reports_pure _ _ _)
    exact dictLoop_reports lib _ _ hkey hkeyRestores hvalue hrestores path entries entries
      (fun _ h => h) _ (valuePath_entryList path) _
  · exact reports_fail _ _ _ (.here path value)

theorem fieldAt_mem {γ : Type} (schema : List (PythonText × γ)) (k : Key) (field : γ)
    (h : fieldAt schema k = some field) : ∃ f ∈ schema, f.2 = field := by
  obtain ⟨f, hf, rfl⟩ := Option.map_eq_some_iff.mp h
  exact ⟨f, List.mem_of_find?_eq_some hf, rfl⟩

/-- The loop runs on a copy of the path, whose last part alone changes. -/
theorem keyDictLoop_keeps (schema : List (PythonText × Coercer))
    (hrestores : ∀ f ∈ schema, Restoring f.2) (path : Path) (entries : List (Key × Value)) :
    Keeps (EntryList path) (keyDictLoop lib schema entries) := by
  induction entries with
  | nil => exact keeps_pure _ _
  | cons e entries ih =>
    have htail (v : Value) :
        Keeps (EntryList path) (do return (e.1, v) :: (← keyDictLoop lib schema entries)) :=
      keeps_bind _ _ _ ih fun _ => keeps_pure _ _
    unfold keyDictLoop
    cases hfield : fieldAt schema e.1 with
    | none => exact htail e.2
    | some field =>
      obtain ⟨f, hf, rfl⟩ := fieldAt_mem schema e.1 field hfield
      have hset : Keeps (EntryList path)
          (modify (setLast (.text (keyText lib e.1))) : Coerce PUnit) :=
        keeps_modify _ _ fun list hlist => entryList_setLast path list hlist _
      refine keeps_bind _ _ _ hset fun _ => ?_
      exact keeps_bind _ _ _ (restores_keeps _ (hrestores f hf e.2) _) htail

theorem keyDictLoop_reports (schema : List (PythonText × Coercer))
    (hrestores : ∀ f ∈ schema, Restoring f.2) (h : ∀ f ∈ schema, Locating lib f.2) (path : Path)
    (whole entries : List (Key × Value)) (hwhole : entries ⊆ whole) (list : Path)
    (hlist : EntryList path list) :
    ReportsAt (Leads lib path (.dict whole)) (keyDictLoop lib schema entries) list := by
  induction entries generalizing list with
  | nil => exact reports_pure _ _ _
  | cons e entries ih =>
    have he : e ∈ whole := hwhole List.mem_cons_self
    have hrest : entries ⊆ whole := fun x hx => hwhole (List.mem_cons_of_mem _ hx)
    have htail (v : Value) (list : Path) (hlist : EntryList path list) :
        ReportsAt (Leads lib path (.dict whole))
          (do return (e.1, v) :: (← keyDictLoop lib schema entries)) list :=
      reports_bind _ _ _ _ (ih hrest list hlist) fun _ _ _ => reports_pure _ _ _
    unfold keyDictLoop
    cases hfield : fieldAt schema e.1 with
    | none => exact htail e.2 list hlist
    | some field =>
      obtain ⟨f, hf, rfl⟩ := fieldAt_mem schema e.1 field hfield
      refine reports_modify_bind _ _ _ _ (reports_bind_restores _ _ _ _ ?_ (hrestores f hf e.2) ?_)
      · rw [hlist]
        exact reports_mono _ _ _ _ (h f hf e.2 _) fun place => .entry path place whole e he
      · exact fun v _ => htail v _ (entryList_setLast path list hlist _)

theorem missingKey_absent {γ : Type} (schema : List (PythonText × γ)) (optional : List PythonText)
    (entries : List (Key × Value)) (k : PythonText)
    (h : missingKey schema optional entries = some k) : lookup entries (.text k) = none := by
  obtain ⟨f, hf, rfl⟩ := Option.map_eq_some_iff.mp h
  have hmissing := List.find?_some hf
  simp only [Bool.and_eq_true, Option.isNone_iff_eq_none] at hmissing
  exact hmissing.1

theorem keyDict_locating (schema : List (PythonText × Coercer)) (optional : List PythonText)
    (hrestores : ∀ f ∈ schema, Restoring f.2) (h : ∀ f ∈ schema, Locating lib f.2) :
    Locating lib (keyDict lib schema optional) := by
  intro value path
  unfold keyDict
  split
  · rename_i entries
    refine reports_get_bind _ _ _ (reports_bind _ _ _ _ ?_ fun _ _ _ => reports_pure _ _ _)
    refine reports_onList _ _ _ _ (reports_bind _ _ _ _ ?_ fun newDict list hrun => ?_)
    · exact keyDictLoop_reports lib schema hrestores h path entries entries (fun _ h => h) _
        (valuePath_entryList path)
    have hlist : EntryList path list := by
      have hkept := keyDictLoop_keeps lib schema hrestores path entries _ (valuePath_entryList path)
      rwa [hrun] at hkept
    split
    · rename_i k hmissing
      refine reports_modify_bind _ _ _ _ (reports_fail _ _ _ ?_)
      rw [hlist]
      exact .missing path entries k (missingKey_absent schema optional entries k hmissing)
    · exact reports_pure _ _ _
  · exact reports_fail _ _ _ (.here path value)

theorem selectDict_locating (key : Key) (schemas : List (Key × Coercer))
    (h : ∀ e ∈ schemas, Locating lib e.2) : Locating lib (selectDict key schemas) := by
  intro value path
  unfold selectDict
  split
  · exact reports_exception _ _ path
  · rename_i habsent
    intro e list hraised
    have hreported := reports_schemaError _ _ _ e (EStateM.Result.error.inj hraised).1
    rw [hreported]
    exact .absent path value key habsent
  · split
    · exact reports_exception _ _ path
    · rename_i schema hselect
      obtain ⟨selected, -, hcase⟩ := except_bind_ok _ _ _ hselect
      obtain ⟨k, hmem⟩ := caseAt_mem schemas selected schema hcase
      exact h _ hmem value path

end nested

theorem coerce_locating (lib : Library) (schema : Schema) : Locating lib (schema.coerce lib) := by
  induction schema using Schema.nested_induction with
  | h schema ih =>
    have hrestores (child : Schema) := coerce_restoring lib child
    cases schema with
    | checker c =>
      exact fun value path => atOnce_locating _ _ _ (checker_atOnce lib c value) _ _ (.here _ _)
    | oneOf schemas =>
      intro value path
      refine oneOfLoop_reports value path _ _ ?_ ?_ none (by simp)
      · rw [coerceAll_eq, List.forall_mem_map]
        exact fun child _ => hrestores child
      · rw [coerceAll_eq, List.forall_mem_map]
        exact fun child hchild => ih child hchild value path
    | list schema => exact list_locating lib _ (hrestores schema) (ih schema List.mem_cons_self)
    | tuple schemas =>
      refine tuple_locating lib _ ?_ ?_
      · rw [coerceAll_eq, List.forall_mem_map]
        exact fun child _ => hrestores child
      · rwa [coerceAll_eq, List.forall_mem_map]
    | dict keySchema valueSchema =>
      exact dict_locating lib _ _ (ih keySchema (by simp [Schema.children])) (hrestores keySchema)
        (ih valueSchema (by simp [Schema.children])) (hrestores valueSchema)
    | keyDict schema optional =>
      refine keyDict_locating lib _ optional ?_ ?_
      · rw [coerceFields_eq, List.forall_mem_map]
        exact fun f _ => hrestores f.2
      · rw [coerceFields_eq, List.forall_mem_map]
        exact fun f hf => ih f.2 (List.mem_map_of_mem hf)
    | selectDict key schemas =>
      refine selectDict_locating lib key _ ?_
      rw [coerceCases_eq, List.forall_mem_map]
      exact fun e he => ih e.2 (List.mem_map_of_mem he)

/-- A schema leaves the path list of its caller with what was in it, whether it returns or raises,
and the path of an error leads from there to a place in the value. -/
theorem path_restored (lib : Library) (schema : Schema) (value : Value) (path : Path) :
    leaves (schema.coerce lib value path) = path ∧
      ∀ e list, schema.coerce lib value path = .error (.schemaError e) list →
        path <+: e.reported ∧ Leads lib path value e.reported := by
  refine ⟨coerce_restoring lib schema value path, fun e list hraised => ?_⟩
  have hleads := coerce_locating lib schema value path e list hraised
  exact ⟨leads_extends lib path _ value hleads, hleads⟩

end Juju.Schemas

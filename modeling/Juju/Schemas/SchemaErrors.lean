import Juju.Schemas.ErrorPaths
import Juju.Schemas.KeyValues

namespace Juju.Schemas
open Juju.Base Juju.Lib

/-- A path whose parts are `str`, as the combinators make them. -/
def Plain (path : Path) : Prop := ∀ x ∈ path, ∃ points, x = .text ⟨.bytes, points⟩

section plain

theorem joinLoop_plain (whole path : Path) (h : Plain path) : joinLoop whole path = none := by
  induction path with
  | nil => rfl
  | cons x path ih =>
    obtain ⟨points, rfl⟩ := h x List.mem_cons_self
    exact ih fun x hx => h x (List.mem_cons_of_mem _ hx)

theorem join_plain (path : Path) (h : Plain path) : join path = none := joinLoop_plain path path h

theorem plain_nil : Plain [] := by
  intro x hx
  cases hx

theorem plain_append (path path' : Path) (h : Plain path) (h' : Plain path') :
    Plain (path ++ path') := by
  intro x hx
  rcases List.mem_append.mp hx with hx | hx
  · exact h x hx
  · exact h' x hx

theorem plain_parts (parts : List String) : Plain (parts.map part) := by
  intro x hx
  obtain ⟨s, -, rfl⟩ := List.mem_map.mp hx
  exact ⟨_, rfl⟩

theorem plain_itemPath (path : Path) (i : Nat) (h : Plain path) : Plain (itemPath path i) :=
  plain_append path _ h (plain_parts ["[", toString i, "]"])

theorem keyText_str (lib : Library) (k : Key) : ∃ points, keyText lib k = ⟨.bytes, points⟩ := by
  unfold keyText
  split
  · split <;> exact ⟨_, rfl⟩
  · exact ⟨_, rfl⟩

theorem plain_entryPath (lib : Library) (path : Path) (k : Key) (h : Plain path) :
    Plain (entryPath path (.text (keyText lib k))) := by
  have hkey : Plain [.text (keyText lib k)] := by
    obtain ⟨points, hpoints⟩ := keyText_str lib k
    intro x hx
    rw [List.mem_singleton.mp hx, hpoints]
    exact ⟨points, rfl⟩
  refine plain_append _ _ ?_ hkey
  split
  · exact plain_nil
  · exact plain_append path _ h (plain_parts ["."])

end plain

/-- How a call ends: it returns what is accepted, raises a `SchemaError` for what is not, and
another exception where it is not clear of those. -/
def Ends {α : Type} (Clear Accepts : Prop) : EStateM.Result Raised Path α → Prop
  | .ok _ _ => Clear ∧ Accepts
  | .error (.schemaError _) _ => Clear ∧ ¬ Accepts
  | .error (.exception _) _ => ¬ Clear

section ends

variable {α β : Type}

theorem ends_congr (Clear Accepts Clear' Accepts' : Prop) (r : EStateM.Result Raised Path α)
    (h : Ends Clear Accepts r) (hclear : Clear ↔ Clear') (haccepts : Clear' → (Accepts ↔ Accepts')) :
    Ends Clear' Accepts' r := by
  cases r with
  | ok a path => exact ⟨hclear.mp h.1, (haccepts (hclear.mp h.1)).mp h.2⟩
  | error e path =>
    cases e with
    | schemaError e =>
      exact ⟨hclear.mp h.1, fun hacc => h.2 ((haccepts (hclear.mp h.1)).mpr hacc)⟩
    | exception x => exact fun hc => h (hclear.mpr hc)

theorem ends_pure (a : α) (path : Path) : Ends True True ((pure a : Coerce α) path) :=
  ⟨trivial, trivial⟩

theorem ends_schemaError (own : Option Path) (reported : Path) (message : Message) (path : Path) :
    Ends (join reported = none) False
      ((throw (schemaError own reported message) : Coerce α) path) := by
  rw [throw_run]
  unfold schemaError
  cases hjoin : join reported with
  | none => exact ⟨rfl, id⟩
  | some x => exact Option.some_ne_none x

theorem ends_fail_join (message : Message) (path : Path) :
    Ends (join path = none) False ((fail message : Coerce α) path) :=
  ends_schemaError none path message path

theorem ends_fail (message : Message) (path : Path) (h : Plain path) :
    Ends True False ((fail message : Coerce α) path) :=
  ends_congr _ _ _ _ _ (ends_fail_join message path) (iff_true_intro (join_plain path h))
    fun _ => Iff.rfl

/-- What follows a call is reached where the call accepts. -/
theorem ends_bind (Clear Accepts Clear' Accepts' : Prop) (m : Coerce α) (f : α → Coerce β)
    (path : Path) (hm : Ends Clear Accepts (m path))
    (hf : ∀ a list, m path = .ok a list → Ends Clear' Accepts' (f a list)) :
    Ends (Clear ∧ (Accepts → Clear')) (Accepts ∧ Accepts') ((m >>= f) path) := by
  rw [bind_run]
  cases hrun : m path with
  | ok a list =>
    rw [hrun] at hm
    refine ends_congr _ _ _ _ _ (hf a list hrun) ?_ fun _ => ?_
    · exact ⟨fun h => ⟨hm.1, fun _ => h⟩, fun h => h.2 hm.2⟩
    · exact ⟨fun h => ⟨hm.2, h⟩, And.right⟩
  | error e list =>
    rw [hrun] at hm
    cases e with
    | schemaError e => exact ⟨⟨hm.1, fun h => absurd h hm.2⟩, fun h => hm.2 h.1⟩
    | exception x => exact fun h => hm h.1

theorem ends_bind_restores (Clear Accepts Clear' Accepts' : Prop) (m : Coerce α) (f : α → Coerce β)
    (path : Path) (hm : Ends Clear Accepts (m path)) (hrestores : Restores m)
    (hf : ∀ a, m path = .ok a path → Ends Clear' Accepts' (f a path)) :
    Ends (Clear ∧ (Accepts → Clear')) (Accepts ∧ Accepts') ((m >>= f) path) := by
  refine ends_bind Clear Accepts Clear' Accepts' m f path hm fun a list hrun => ?_
  have hpath := hrestores path
  rw [hrun, leaves_ok] at hpath
  rw [hpath] at hrun ⊢
  exact hf a hrun

/-- What follows is what is made of the value. -/
theorem ends_map (Clear Accepts : Prop) (m : Coerce α) (f : α → β) (path : Path)
    (hm : Ends Clear Accepts (m path)) : Ends Clear Accepts ((do return f (← m)) path) :=
  ends_congr _ _ _ _ _
    (ends_bind Clear Accepts True True m _ path hm fun a list _ => ends_pure (f a) list)
    (by simp) (by simp)

theorem ends_onList (Clear Accepts : Prop) (list : Path) (m : Coerce α) (path : Path)
    (h : Ends Clear Accepts (m list)) : Ends Clear Accepts (onList list m path) := by
  unfold onList
  cases hrun : m list with
  | ok a list' => rwa [hrun] at h
  | error e list' =>
    rw [hrun] at h
    cases e <;> exact h

theorem ends_finallyDo (Clear Accepts : Prop) (m : Coerce α) (f : Path → Path) (path : Path)
    (h : Ends Clear Accepts (m path)) : Ends Clear Accepts (finallyDo m f path) := by
  unfold finallyDo
  cases hrun : m path with
  | ok a list => rwa [hrun] at h
  | error e list =>
    rw [hrun] at h
    cases e <;> exact h

end ends

/-- A `coerce` does what its specification says, from every path whose parts are `str`. -/
def Meets (schema : Coercer) (spec : Spec) : Prop :=
  ∀ value path, Plain path → Ends (spec.Clear value path) (spec.Accepts value) (schema value path)

section meets

theorem atOnce_ends (Clear Accepts : Prop) (m : Coerce Value) (h : AtOnce Clear Accepts m)
    (path : Path) (hplain : Plain path) : Ends Clear Accepts (m path) := by
  cases h with
  | returns v hclear haccepts => exact ⟨hclear, haccepts⟩
  | fails message hclear haccepts =>
    refine ends_congr _ _ _ _ _ (ends_fail message path hplain) (iff_of_true trivial hclear) ?_
    exact fun _ => iff_of_false id haccepts
  | raises x hclear => exact hclear

theorem oneOfLoop_ends (value : Value) (path : Path) (hplain : Plain path)
    (pairs : List (Coercer × Spec)) (h : ∀ p ∈ pairs, Meets p.1 p.2)
    (hrestores : ∀ p ∈ pairs, Restoring p.1) (best : Option SchemaError) :
    Ends ((best = none → pairs ≠ []) ∧
        ∀ i s, Reached (fun s : Spec => ¬ s.Accepts value) (pairs.map Prod.snd) i s →
          s.Clear value path)
      (∃ s ∈ pairs.map Prod.snd, s.Accepts value)
      (oneOfLoop value best (pairs.map Prod.fst) path) := by
  induction pairs generalizing best with
  | nil =>
    cases best with
    | none => exact fun h => h.1 rfl rfl
    | some best => exact ⟨⟨by simp, fun i s hs => by simp [Reached] at hs⟩, by simp⟩
  | cons p pairs ih =>
    have hfirst := h p List.mem_cons_self value path hplain
    have hpath := hrestores p List.mem_cons_self value path
    have hrest := ih (fun q hq => h q (List.mem_cons_of_mem _ hq))
      (fun q hq => hrestores q (List.mem_cons_of_mem _ hq))
    rw [List.map_cons, List.map_cons, oneOfLoop_cons, forall_reached_cons]
    cases hrun : p.1 value path with
    | ok v list =>
      rw [hrun] at hfirst
      exact ⟨⟨by simp, hfirst.1, fun hno => absurd hfirst.2 hno⟩, by simp [hfirst.2]⟩
    | error e list =>
      rw [hrun] at hfirst hpath
      cases e with
      | exception x => exact fun hclear => hfirst hclear.2.1
      | schemaError e =>
        rw [leaves_error] at hpath
        rw [hpath]
        refine ends_congr _ _ _ _ _ (hrest (some (bestError path e best))) ?_ fun _ => ?_
        · simp [hfirst.1, hfirst.2]
        · simp [hfirst.2]

theorem oneOf_meets (pairs : List (Coercer × Spec)) (h : ∀ p ∈ pairs, Meets p.1 p.2)
    (hrestores : ∀ p ∈ pairs, Restoring p.1) :
    Meets (oneOf (pairs.map Prod.fst)) (.oneOf (pairs.map Prod.snd)) := by
  intro value path hplain
  refine ends_congr _ _ _ _ _ (oneOfLoop_ends value path hplain pairs h hrestores none) ?_ fun _ =>
    Iff.rfl
  simp [Spec.oneOf]

theorem coerceItems_ends (path : Path) (hplain : Plain path)
    (items : List ((Coercer × Spec) × Value)) (h : ∀ item ∈ items, Meets item.1.1 item.1.2)
    (hrestores : ∀ item ∈ items, Restoring item.1.1) (i : Nat) (x : Value) :
    Ends (∀ (j : Nat) (item : (Coercer × Spec) × Value),
          Reached (fun item : (Coercer × Spec) × Value => item.1.2.Accepts item.2) items j item →
          item.1.2.Clear item.2 (itemPath path (i + j)))
      (∀ item ∈ items, item.1.2.Accepts item.2)
      (coerceItems i (items.map fun item => (item.1.1, item.2))
        (path ++ [part "[", x, part "]"])) := by
  induction items generalizing i x with
  | nil => exact ⟨fun j item hitem => by simp [Reached] at hitem, by simp⟩
  | cons item items ih =>
    have hlist := plain_itemPath path i hplain
    have hfirst := h item List.mem_cons_self item.2 _ hlist
    have hrest := ih (fun item hitem => h item (List.mem_cons_of_mem _ hitem))
      (fun item hitem => hrestores item (List.mem_cons_of_mem _ hitem)) (i + 1) (part (toString i))
    have hitem := hrestores item List.mem_cons_self item.2
    have hstep := ends_bind_restores _ _ _ _ _ _ _ hfirst hitem
      fun v _ => ends_map _ _ _ (fun vs => v :: vs) _ hrest
    rw [List.map_cons, coerceItems, modify_bind, set_bracketed, forall_reached_cons]
    refine ends_congr _ _ _ _ _ hstep ?_ fun _ => ?_
    · simp only [Nat.add_zero, Nat.add_assoc, Nat.add_comm 1]
    · simp

theorem bracketed_ends (path : Path) (hplain : Plain path)
    (items : List ((Coercer × Spec) × Value)) (h : ∀ item ∈ items, Meets item.1.1 item.1.2)
    (hrestores : ∀ item ∈ items, Restoring item.1.1) :
    Ends (Spec.ItemsClear (items.map fun item => (item.1.2, item.2)) path)
      (∀ item ∈ items, item.1.2.Accepts item.2)
      (bracketed (coerceItems 0 (items.map fun item => (item.1.1, item.2))) path) := by
  rw [bracketed, modify_bind]
  refine ends_finallyDo _ _ _ _ _ (ends_congr _ _ _ _ _
    (coerceItems_ends path hplain items h hrestores 0 (part "?")) ?_ fun _ => Iff.rfl)
  simp only [Nat.zero_add]
  exact (forall_reached_map (fun item : (Coercer × Spec) × Value => (item.1.2, item.2))
    (fun item => item.1.Accepts item.2) items
    fun i item => item.1.Clear item.2 (itemPath path i)).symm

theorem list_meets (schema : Coercer) (spec : Spec) (h : Meets schema spec)
    (hrestores : Restoring schema) : Meets (list schema) (.list spec) := by
  intro value path hplain
  unfold list
  split
  · rename_i items
    have hends := bracketed_ends path hplain (items.map fun v => ((schema, spec), v))
      (by simpa using fun _ _ => h) (by simpa using fun _ _ => hrestores)
    simp only [List.map_map] at hends
    refine ends_congr _ _ _ _ _ (ends_map _ _ _ Value.list _ hends) ?_ fun _ => ?_
    · simp [Spec.list, Function.comp_def]
    · simp [Spec.list]
  · rename_i hlist
    refine ends_congr _ _ _ _ _ (ends_fail _ path hplain) (iff_of_true trivial ?_) fun _ => ?_
    · exact fun items hitems => (hlist items hitems).elim
    · exact iff_of_false id fun haccepts => haccepts.elim fun items hitems => hlist items hitems.1

theorem tuple_meets (pairs : List (Coercer × Spec)) (h : ∀ p ∈ pairs, Meets p.1 p.2)
    (hrestores : ∀ p ∈ pairs, Restoring p.1) :
    Meets (tuple (pairs.map Prod.fst)) (.tuple (pairs.map Prod.snd)) := by
  intro value path hplain
  unfold tuple
  split
  · rename_i items
    split
    · rename_i hlength
      rw [List.length_map] at hlength
      refine ends_congr _ _ _ _ _ (ends_fail _ path hplain) (iff_of_true trivial ?_) fun _ => ?_
      · simp [Spec.tuple, hlength]
      · simp [Spec.tuple, hlength]
    · rename_i hlength
      have hends := bracketed_ends path hplain (pairs.zip items)
        (fun item hitem => h _ (List.of_mem_zip hitem).1)
        (fun item hitem => hrestores _ (List.of_mem_zip hitem).1)
      rw [List.length_map, ne_eq, not_not] at hlength
      have hspecs : (pairs.map Prod.snd).zip items =
          (pairs.zip items).map fun item => (item.1.2, item.2) := List.zip_map_left ..
      rw [List.zip_map_left]
      refine ends_congr _ _ _ _ _ (ends_map _ _ _ Value.tuple _ hends) ?_ fun _ => ?_
      · simp [Spec.tuple, hlength, hspecs]
      · simp only [Spec.tuple, hspecs, List.forall_mem_map, List.length_map, Value.tuple.injEq,
          exists_eq_left', hlength, true_and]
  · rename_i htuple
    refine ends_congr _ _ _ _ _ (ends_fail _ path hplain) (iff_of_true trivial ?_) fun _ => ?_
    · exact fun items hitems => (htuple items hitems).elim
    · exact iff_of_false id fun haccepts => haccepts.elim fun items hitems => htuple items hitems.1

theorem hashed_ends (value : Value) (h : Hashable value) (path : Path) :
    Ends True True (hashed value path) := by
  unfold hashed
  cases hkey : value.toKey? with
  | some k => exact ends_pure k path
  | none => exact absurd hkey h

theorem dictLoop_ends (lib : Library) (path : Path) (hplain : Plain path)
    (keySchema valueSchema : Coercer) (key value : Spec) (hkey : Meets keySchema key)
    (hkeyRestores : Restoring keySchema) (hhash : Hashing keySchema)
    (hvalue : Meets valueSchema value) (hrestores : Restoring valueSchema)
    (entries newDict : List (Key × Value)) (list : Path) (hlist : EntryList path list) :
    Ends (∀ i e,
          Reached (fun e : Key × Value => key.Accepts e.1.toValue ∧ value.Accepts e.2) entries i e →
            key.Clear e.1.toValue path ∧
              (key.Accepts e.1.toValue →
                value.Clear e.2 (entryPath path (.text (keyText lib e.1)))))
      (∀ e ∈ entries, key.Accepts e.1.toValue ∧ value.Accepts e.2)
      (dictLoop lib keySchema valueSchema list newDict entries path) := by
  induction entries generalizing newDict list with
  | nil => exact ⟨fun i e he => by simp [Reached] at he, by simp⟩
  | cons e entries ih =>
    have hfirst := hkey e.1.toValue path hplain
    have hsub := hvalue e.2 _ (plain_entryPath lib path e.1 hplain)
    rw [← hlist] at hsub
    have hstep := ends_bind_restores _ _ _ _ _ _ _ hfirst (hkeyRestores _) fun newKey hrun =>
      ends_bind_restores _ _ _ _ _
        (fun r => hashed newKey >>= fun newKey =>
          dictLoop lib keySchema valueSchema r.2 (setItem newKey r.1 newDict) entries) _
        (ends_onList _ _ _ _ path hsub) (restores_onList _ _) fun r hrun' =>
        ends_bind_restores _ _ _ _ _ _ _ (hashed_ends newKey
            (hhash e.1.toValue (toValue_hashable e.1) path newKey path hrun) path)
          (hashed_restores newKey) fun newKey _ => by
            rw [onList_list _ _ _ _ _ (hrestores e.2) hrun']
            exact ih (setItem newKey r.1 newDict) _ (entryList_setLast path list hlist _)
    rw [forall_reached_cons]
    refine ends_congr _ _ _ _ _ hstep ?_ fun _ => ?_
    · rw [hlist]
      constructor
      · rintro ⟨hclear, h⟩
        exact ⟨⟨hclear, fun hacc => (h hacc).1⟩, fun hpass => ((h hpass.1).2 hpass.2).2 trivial⟩
      · rintro ⟨⟨hclear, hv⟩, hrest⟩
        exact ⟨hclear, fun hacc => ⟨hv hacc, fun hvalue => ⟨trivial, fun _ => hrest ⟨hacc, hvalue⟩⟩⟩⟩
    · rw [List.forall_mem_cons, true_and, and_assoc]

theorem dict_meets (lib : Library) (keySchema valueSchema : Coercer) (key value : Spec)
    (hkey : Meets keySchema key) (hkeyRestores : Restoring keySchema) (hhash : Hashing keySchema)
    (hvalue : Meets valueSchema value) (hrestores : Restoring valueSchema) :
    Meets (dict lib keySchema valueSchema) (.dict lib key value) := by
  intro v path hplain
  unfold dict
  split
  · rename_i entries
    have hloop := dictLoop_ends lib path hplain keySchema valueSchema key value hkey hkeyRestores
      hhash hvalue hrestores entries [] _ (valuePath_entryList path)
    rw [get_bind]
    refine ends_congr _ _ _ _ _ (ends_map _ _ _ Value.dict _ hloop) ?_ fun _ => ?_
    · simp [Spec.dict]
    · simp [Spec.dict]
  · rename_i hdict
    refine ends_congr _ _ _ _ _ (ends_fail _ path hplain) (iff_of_true trivial ?_) fun _ => ?_
    · exact fun entries hentries => (hdict entries hentries).elim
    · exact iff_of_false id fun haccepts => haccepts.elim fun entries h => hdict entries h.1

theorem fieldAt_map {γ δ : Type} (f : γ → δ) (fields : List (PythonText × γ)) (k : Key) :
    fieldAt (fields.map (Prod.map id f)) k = (fieldAt fields k).map f := by
  unfold fieldAt
  rw [List.find?_map, Option.map_map, Option.map_map]
  rfl

theorem missingKey_map {γ δ : Type} (f : γ → δ) (fields : List (PythonText × γ))
    (optional : List PythonText) (entries : List (Key × Value)) :
    missingKey (fields.map (Prod.map id f)) optional entries = missingKey fields optional entries := by
  unfold missingKey
  rw [List.find?_map, Option.map_map]
  rfl

theorem keyDictLoop_ends (lib : Library) (path : Path) (hplain : Plain path)
    (fields : List (PythonText × Coercer × Spec)) (h : ∀ f ∈ fields, Meets f.2.1 f.2.2)
    (hrestores : ∀ f ∈ fields, Restoring f.2.1) (entries : List (Key × Value)) (list : Path)
    (hlist : EntryList path list) :
    Ends (∀ i e, Reached (Spec.EntryAccepted (fields.map (Prod.map id Prod.snd))) entries i e →
          ∀ field, fieldAt (fields.map (Prod.map id Prod.snd)) e.1 = some field →
            field.Clear e.2 (entryPath path (.text (keyText lib e.1))))
      (∀ e ∈ entries, Spec.EntryAccepted (fields.map (Prod.map id Prod.snd)) e)
      (keyDictLoop lib (fields.map (Prod.map id Prod.fst)) entries list) := by
  induction entries generalizing list with
  | nil => exact ⟨fun i e he => by simp [Reached] at he, by simp⟩
  | cons e entries ih =>
    rw [forall_reached_cons, List.forall_mem_cons]
    unfold keyDictLoop
    rw [fieldAt_map]
    simp only [Spec.EntryAccepted, fieldAt_map] at ih ⊢
    cases hfield : fieldAt fields e.1 with
    | none =>
      refine ends_congr _ _ _ _ _ (ends_map _ _ _ _ _ (ih list hlist)) ?_ fun _ => ?_
      · simp
      · simp
    | some field =>
      obtain ⟨f, hf, rfl⟩ := fieldAt_mem fields e.1 field hfield
      have hsub := h f hf e.2 _ (plain_entryPath lib path e.1 hplain)
      have hrest := ih _ (entryList_setLast path list hlist (.text (keyText lib e.1)))
      rw [hlist] at hrest
      have hstep := ends_bind_restores _ _ _ _ _ _ _ hsub (hrestores f hf e.2) fun v _ =>
        ends_map _ _ _ (fun newDict => (e.1, v) :: newDict) _ hrest
      simp only [Option.map_some, modify_bind, hlist _]
      refine ends_congr _ _ _ _ _ hstep ?_ fun _ => ?_
      · simp
      · simp

theorem keyDict_meets (lib : Library) (fields : List (PythonText × Coercer × Spec))
    (optional : List PythonText) (h : ∀ f ∈ fields, Meets f.2.1 f.2.2)
    (hrestores : ∀ f ∈ fields, Restoring f.2.1) :
    Meets (keyDict lib (fields.map (Prod.map id Prod.fst)) optional)
      (.keyDict lib (fields.map (Prod.map id Prod.snd)) optional) := by
  intro value path hplain
  unfold keyDict
  split
  · rename_i entries
    have hloop := keyDictLoop_ends lib path hplain fields h hrestores entries _
      (valuePath_entryList path)
    rw [get_bind]
    refine ends_congr _ _ _ _ _
      (ends_map _ _ _ (fun r : List (Key × Value) × Path => Value.dict r.1) path
        (ends_onList _ _ _ _ path (ends_bind _ _
          (∀ k, missingKey fields optional entries = some k →
            join (entryPath path (.text k)) = none)
          (missingKey fields optional entries = none) _ _ _ hloop fun newDict list hrun => ?_)))
      ?_ fun _ => ?_
    · have hkept := keyDictLoop_keeps lib (fields.map (Prod.map id Prod.fst))
        (List.forall_mem_map.mpr hrestores) path entries _ (valuePath_entryList path)
      rw [hrun] at hkept
      have hlist : EntryList path list := hkept
      rw [missingKey_map]
      cases hmissing : missingKey fields optional entries with
      | none => exact ⟨by simp, rfl⟩
      | some k =>
        simp only [modify_bind, hlist _]
        refine ends_congr _ _ _ _ _ (ends_fail_join _ _) ?_ fun _ => ?_
        · simp
        · simp
    · simp [Spec.keyDict, missingKey_map]
    · simp [Spec.keyDict, missingKey_map]
  · rename_i hdict
    refine ends_congr _ _ _ _ _ (ends_fail _ path hplain) (iff_of_true trivial ?_) fun _ => ?_
    · exact fun entries hentries => (hdict entries hentries).elim
    · exact iff_of_false id fun haccepts => haccepts.elim fun entries h => hdict entries h.1

theorem caseAt_map {γ δ : Type} (f : γ → δ) (cases : List (Key × γ)) (selected : Value) :
    caseAt (cases.map (Prod.map id f)) selected = f <$> caseAt cases selected := by
  unfold caseAt
  cases selected.toKey? with
  | none => rfl
  | some k =>
    dsimp only
    rw [List.find?_map, Option.map_map]
    change ((cases.find? fun e => e.1.equals k).map (f ∘ Prod.snd)).elim _ _ = _
    cases cases.find? fun e => e.1.equals k <;> rfl

theorem select_map {γ δ : Type} (f : γ → δ) (cases : List (Key × γ)) (value : Value) (key : Key) :
    (getItem value key >>= caseAt (cases.map (Prod.map id f))) =
      f <$> (getItem value key >>= caseAt cases) := by
  cases getItem value key with
  | error x => rfl
  | ok selected => exact caseAt_map f cases selected

theorem selectDict_selected (key : Key) (schemas : List (Key × Coercer)) (value : Value)
    (path : Path) (h : contains value key = .ok true) :
    selectDict key schemas value path =
      match getItem value key >>= caseAt schemas with
      | .error x => .error (.exception x) path
      | .ok schema => schema value path := by
  unfold selectDict
  rw [h]
  dsimp only
  cases getItem value key >>= caseAt schemas <;> rfl

theorem selectDict_meets (key : Key) (cases : List (Key × Coercer × Spec))
    (h : ∀ e ∈ cases, Meets e.2.1 e.2.2) :
    Meets (selectDict key (cases.map (Prod.map id Prod.fst)))
      (.selectDict key (cases.map (Prod.map id Prod.snd))) := by
  intro value path hplain
  cases hcontains : contains value key with
  | error x =>
    simp [selectDict, Spec.selectDict, hcontains, Ends]
  | ok b =>
    cases b with
    | false =>
      have habsent := ends_schemaError (α := Value) (some (path ++ [part ".", key.toValue]))
        (path ++ [part ".", key.toValue]) (.text "required value not found") path
      simp only [selectDict, Spec.selectDict, hcontains]
      refine ends_congr _ _ _ _ _ habsent ?_ fun _ => ?_
      · simp
      · simp
    | true =>
      rw [selectDict_selected _ _ _ _ hcontains]
      simp only [Spec.selectDict, hcontains, select_map]
      cases hselect : getItem value key >>= caseAt cases with
      | error x => simp [Functor.map, Except.map, Ends]
      | ok pair =>
        obtain ⟨selected, -, hcase⟩ := except_bind_ok _ _ _ hselect
        obtain ⟨k, hmem⟩ := caseAt_mem cases selected pair hcase
        refine ends_congr _ _ _ _ _ (h _ hmem value path hplain) ?_ fun _ => ?_
        · simp [Functor.map, Except.map]
        · simp [Functor.map, Except.map]

end meets

/-- Every schema does what its specification says. -/
theorem coerce_meets (lib : Library) (schema : Schema) :
    Meets (schema.coerce lib) (schema.spec lib) := by
  induction schema using Schema.nested_induction with
  | h schema ih =>
    have hrestores (child : Schema) := coerce_restoring lib child
    let both (child : Schema) : Coercer × Spec := (child.coerce lib, child.spec lib)
    cases schema with
    | checker c =>
      exact fun value path hplain => atOnce_ends _ _ _ (checker_atOnce lib c value) path hplain
    | oneOf schemas =>
      have hpairs := oneOf_meets (schemas.map both)
        (List.forall_mem_map.mpr fun s hs => ih s hs) (List.forall_mem_map.mpr fun s _ => hrestores s)
      simpa [Schema.coerce, Schema.spec, coerceAll_eq, specAll_eq, Function.comp_def, both] using hpairs
    | list schema => exact list_meets _ _ (ih schema List.mem_cons_self) (hrestores schema)
    | tuple schemas =>
      have hpairs := tuple_meets (schemas.map both)
        (List.forall_mem_map.mpr fun s hs => ih s hs) (List.forall_mem_map.mpr fun s _ => hrestores s)
      simpa [Schema.coerce, Schema.spec, coerceAll_eq, specAll_eq, Function.comp_def, both] using hpairs
    | dict keySchema valueSchema =>
      exact dict_meets lib _ _ _ _ (ih keySchema (by simp [Schema.children])) (hrestores keySchema)
        (coerce_hashing lib keySchema) (ih valueSchema (by simp [Schema.children]))
        (hrestores valueSchema)
    | keyDict schema optional =>
      have hfields := keyDict_meets lib
        (schema.map (Prod.map id both)) optional
        (List.forall_mem_map.mpr fun f hf => ih f.2 (List.mem_map_of_mem hf))
        (List.forall_mem_map.mpr fun f _ => hrestores f.2)
      rw [List.map_map, List.map_map] at hfields
      rw [Schema.coerce, Schema.spec, coerceFields_eq, specFields_eq]
      exact hfields
    | selectDict key schemas =>
      have hcases := selectDict_meets key
        (schemas.map (Prod.map id both))
        (List.forall_mem_map.mpr fun e he => ih e.2 (List.mem_map_of_mem he))
      rw [List.map_map, List.map_map] at hcases
      rw [Schema.coerce, Schema.spec, coerceCases_eq, specCases_eq]
      exact hcases

/-- A schema returns, or raises a `SchemaError`, just where it is clear of other exceptions. -/
theorem schemaError_only_iff (lib : Library) (schema : Schema) (value : Value) (path : Path)
    (hplain : Plain path) :
    ((∃ v list, schema.coerce lib value path = .ok v list) ∨
        ∃ e list, schema.coerce lib value path = .error (.schemaError e) list) ↔
      (schema.spec lib).Clear value path := by
  have hends := coerce_meets lib schema value path hplain
  cases hrun : schema.coerce lib value path with
  | ok v list =>
    rw [hrun] at hends
    exact iff_of_true (Or.inl ⟨v, list, rfl⟩) hends.1
  | error e list =>
    rw [hrun] at hends
    cases e with
    | schemaError e => exact iff_of_true (Or.inr ⟨e, list, rfl⟩) hends.1
    | exception x => exact iff_of_false (by simp) hends

/-- The environments of a configuration, by their types. -/
def environments : Schema :=
  .keyDict [(.literal "environments", .dict (.checker .string)
    (.selectDict (.text (.literal "type")) [(.text (.literal "dummy"), .keyDict [] [])]))] []

/-- A library that decodes ASCII, and compiles what has no repetition. -/
def asciiLibrary : Library where
  compile t := if 42 ∈ t.points then .error .reError else .ok ()
  decode _ t := if t.isAscii then .ok ⟨.unicode, t.points⟩ else .error .unicodeDecodeError
  str _ := []
  repr t := t.points

/-- `{"environments": {"sample": {"type": type}}}` -/
def sampleConfig (type : Value) : Value :=
  .dict [(.text (.literal "environments"), .dict [(.text (.literal "sample"),
    .dict [(.text (.literal "type"), type)])])]

theorem dummy_clear :
    (environments.spec asciiLibrary).Clear (sampleConfig (.text (.literal "dummy"))) [] :=
  (schemaError_only_iff asciiLibrary environments _ [] plain_nil).mp (Or.inl ⟨_, _, rfl⟩)

/-- An unknown type, a type that is a list, an environment that is `None` and a regular expression
that is `None`. -/
theorem other_exceptions :
    environments.coerce asciiLibrary (sampleConfig (.text (.literal "ec3"))) [] =
        .error (.exception .keyError) [] ∧
      environments.coerce asciiLibrary (sampleConfig (.list [])) [] =
        .error (.exception .typeError) [] ∧
      Schema.coerce asciiLibrary (.checker .regex) (.atom .none) [] =
        .error (.exception .typeError) [] := by
  refine ⟨?_, ?_, ?_⟩
  · rfl
  · rfl
  · rfl

end Juju.Schemas

import Juju.Base.Returns
import Juju.Charm.CharmMetadata
import Juju.Lib.Entries

namespace Juju.Charm.Metadata
open Juju.Base Juju.Lib

/-- The schema leaves the value as it is. -/
def Fixes (s : Schema) (y : Data) : Prop := ∀ path, s y path = .ok y

/-- The schema leaves what it returns as it is. -/
def Settles (s : Schema) : Prop := ∀ x path y, s x path = .ok y → Fixes s y

/-- The schema returns only what it is given. -/
def Checks (s : Schema) : Prop := ∀ x path y, s x path = .ok y → y = x ∧ Fixes s x

section leaves

theorem constantNone_checks : Checks constantNone := by
  intro x path y h
  cases x with
  | none => exact ⟨(Except.ok.inj h).symm, fun _ => rfl⟩
  | bool b => cases h
  | int i => cases h
  | text t => cases h
  | dict entries => cases h
  | other repr => cases h

theorem constant_checks (c : String) : Checks (constant c) := by
  intro x path y h
  cases x with
  | text t =>
    simp only [constant] at h
    split at h
    · rename_i hequals
      exact ⟨(Except.ok.inj h).symm, fun path' => by simp [constant, hequals]⟩
    · cases h
  | none => cases h
  | bool b => cases h
  | int i => cases h
  | dict entries => cases h
  | other repr => cases h

theorem bool_checks : Checks bool := by
  intro x path y h
  cases x with
  | bool b => exact ⟨(Except.ok.inj h).symm, fun _ => rfl⟩
  | none => cases h
  | int i => cases h
  | text t => cases h
  | dict entries => cases h
  | other repr => cases h

theorem int_checks : Checks int := by
  intro x path y h
  cases x with
  | int i => exact ⟨(Except.ok.inj h).symm, fun _ => rfl⟩
  | bool b => exact ⟨(Except.ok.inj h).symm, fun _ => rfl⟩
  | none => cases h
  | text t => cases h
  | dict entries => cases h
  | other repr => cases h

theorem checks_settles (s : Schema) (h : Checks s) : Settles s := by
  intro x path y hok
  obtain ⟨rfl, hfixes⟩ := h x path y hok
  exact hfixes

theorem oneOfLoop_ok (schemas : List Schema) (h : ∀ s ∈ schemas, Checks s) (x y : Data)
    (path : Path) (best : SchemaError) (hok : oneOfLoop x path best schemas = .ok y) :
    y = x ∧ ∃ s ∈ schemas, Fixes s x := by
  induction schemas generalizing best with
  | nil => cases hok
  | cons s schemas ih =>
    rw [oneOfLoop] at hok
    split at hok
    · rename_i value hvalue
      obtain ⟨rfl, hfixes⟩ := h s (by simp) x path value hvalue
      exact ⟨(Except.ok.inj hok).symm, s, by simp, hfixes⟩
    · obtain ⟨hy, s', hs', hfixes⟩ := ih (fun s' hs' => h s' (List.mem_cons_of_mem _ hs')) _ hok
      exact ⟨hy, s', List.mem_cons_of_mem _ hs', hfixes⟩

theorem oneOfLoop_fixes (schemas : List Schema) (h : ∀ s ∈ schemas, Checks s) (x : Data)
    (hfixes : ∃ s ∈ schemas, Fixes s x) (path : Path) (best : SchemaError) :
    oneOfLoop x path best schemas = .ok x := by
  induction schemas generalizing best with
  | nil =>
    obtain ⟨s, hs, -⟩ := hfixes
    cases hs
  | cons s schemas ih =>
    rw [oneOfLoop]
    cases hvalue : s x path with
    | ok value => simp [(h s (by simp) x path value hvalue).1]
    | error e =>
      obtain ⟨s', hs', hfixes⟩ := hfixes
      cases List.mem_cons.mp hs' with
      | inl he =>
        rw [← he, hfixes path] at hvalue
        cases hvalue
      | inr hin =>
        exact ih (fun s hs => h s (List.mem_cons_of_mem _ hs)) ⟨s', hin, hfixes⟩ _

section oneOf

variable (first : Schema) (schemas : List Schema) (h : ∀ s ∈ first :: schemas, Checks s)
include h

/-- `OneOf` accepts a value through one of its schemas. -/
theorem oneOf_ok (x y : Data) (path : Path) (hok : oneOf first schemas x path = .ok y) :
    y = x ∧ ∃ s ∈ first :: schemas, Fixes s x := by
  unfold oneOf at hok
  split at hok
  · rename_i value hvalue
    obtain ⟨rfl, hfixes⟩ := h first (by simp) x path value hvalue
    exact ⟨(Except.ok.inj hok).symm, first, by simp, hfixes⟩
  · obtain ⟨hy, s, hs, hfixes⟩ :=
      oneOfLoop_ok schemas (fun s hs => h s (List.mem_cons_of_mem _ hs)) x y path _ hok
    exact ⟨hy, s, List.mem_cons_of_mem _ hs, hfixes⟩

/-- The first schema that accepts a value gives it back. -/
theorem oneOf_fixes (x : Data) (s : Schema) (hs : s ∈ first :: schemas) (hfixes : Fixes s x) :
    Fixes (oneOf first schemas) x := by
  intro path
  unfold oneOf
  cases hvalue : first x path with
  | ok value => simp [(h first (by simp) x path value hvalue).1]
  | error e =>
    cases List.mem_cons.mp hs with
    | inl he =>
      rw [← he, hfixes path] at hvalue
      cases hvalue
    | inr hin =>
      exact oneOfLoop_fixes schemas (fun s hs => h s (List.mem_cons_of_mem _ hs)) x
        ⟨s, hin, hfixes⟩ path e

theorem oneOf_checks : Checks (oneOf first schemas) := by
  intro x path y hok
  obtain ⟨hy, s, hs, hfixes⟩ := oneOf_ok first schemas h x y path hok
  exact ⟨hy, oneOf_fixes first schemas h x s hs hfixes⟩

end oneOf

theorem decodeText_unicode (t t' : PythonText) (h : decodeText t = some t') :
    t'.kind = .unicode ∧ decodeText t' = some t' := by
  have hkind : t'.kind = .unicode := by
    unfold decodeText at h
    split at h
    · obtain ⟨points, -, rfl⟩ := Option.map_eq_some_iff.mp h
      rfl
    · rename_i hunicode
      exact Option.some.inj h ▸ hunicode
  exact ⟨hkind, by simp [decodeText, hkind]⟩

theorem utf8_eq_ok (x y : Data) (path : Path) :
    utf8 x path = .ok y ↔ ∃ t t', x = .text t ∧ y = .text t' ∧ decodeText t = some t' := by
  cases x with
  | text t =>
    constructor
    · intro h
      simp only [utf8] at h
      split at h
      · rename_i t' ht
        exact ⟨t, t', rfl, (Except.ok.inj h).symm, ht⟩
      · cases h
    · rintro ⟨t₁, t', h, rfl, ht⟩
      obtain rfl := Data.text.inj h
      simp [utf8, ht]
  | none => simp [utf8]
  | bool b => simp [utf8]
  | int i => simp [utf8]
  | dict entries => simp [utf8]
  | other repr => simp [utf8]

theorem utf8_settles : Settles utf8 := by
  intro x path y h path'
  obtain ⟨t, t', rfl, rfl, ht⟩ := (utf8_eq_ok x y path).mp h
  exact (utf8_eq_ok _ _ path').mpr ⟨t', t', rfl, rfl, (decodeText_unicode t t' ht).2⟩

theorem utf8Key_eq_ok (k k' : Key) (path : Path) :
    utf8Key k path = .ok k' ↔ ∃ t t', k = .text t ∧ k' = .text t' ∧ decodeText t = some t' := by
  cases k with
  | text t =>
    constructor
    · intro h
      simp only [utf8Key] at h
      split at h
      · rename_i t' ht
        exact ⟨t, t', rfl, (Except.ok.inj h).symm, ht⟩
      · cases h
    · rintro ⟨t₁, t', h, rfl, ht⟩
      obtain rfl := Key.text.inj h
      simp [utf8Key, ht]
  | other repr => simp [utf8Key]

end leaves

section items

theorem Key.equals_refl (k : Key) : k.equals k = true := by
  cases k with
  | text t => exact PythonText.equals_refl t
  | other repr => simp [Key.equals]

theorem Key.equals_symm (k k' : Key) (h : k.equals k' = true) : k'.equals k = true := by
  cases k with
  | text t =>
    cases k' with
    | text t' => exact PythonText.equals_symm t t' h
    | other repr => cases h
  | other repr =>
    cases k' with
    | text t' => cases h
    | other repr' => simpa [Key.equals] using (of_decide_eq_true h).symm

theorem Key.equals_trans (k k' k'' : Key) (h : k.equals k' = true) (h' : k'.equals k'' = true) :
    k.equals k'' = true := by
  cases k' with
  | text t' =>
    cases k with
    | text t =>
      cases k'' with
      | text t'' => exact PythonText.equals_trans t t' t'' h h'
      | other repr => cases h'
    | other repr => cases h
  | other repr' =>
    cases k with
    | text t => cases h
    | other repr =>
      obtain rfl : repr = repr' := of_decide_eq_true h
      exact h'

/-- Keys that are equal are equal to the same keys. -/
theorem Key.equals_congr (k k' other : Key) (h : k.equals k' = true) :
    k.equals other = k'.equals other := by
  apply Bool.eq_iff_iff.mpr
  constructor
  · intro hother
    exact Key.equals_trans k' k other (Key.equals_symm k k' h) hother
  · exact Key.equals_trans k k' other h

theorem has_keys (d : Entries) (k : Key) : has d k = (d.map Prod.fst).any (·.equals k) := by
  simp [has, List.any_map, Function.comp_def]

theorem has_forall₂ (R : Key × Data → Key × Data → Prop) (d d' : Entries)
    (hkeys : ∀ e e', R e e' → e.1.equals e'.1 = true) (h : List.Forall₂ R d d') (k : Key) :
    has d k = has d' k := by
  induction h with
  | nil => rfl
  | cons hfirst _ ih =>
    simp only [has, List.any_cons] at ih ⊢
    rw [ih, Key.equals_congr _ _ k (hkeys _ _ hfirst)]

theorem setItem_absent (k : Key) (v : Data) (d : Entries) (h : has d k = false) :
    setItem k v d = d ++ [(k, v)] := by
  induction d with
  | nil => rfl
  | cons e d ih =>
    simp only [has, List.any_cons, Bool.or_eq_false_iff] at h ih
    simp [setItem, h.1, ih h.2]

theorem setItem_keys (k : Key) (v : Data) (d : Entries) :
    (setItem k v d).map Prod.fst =
      if has d k then d.map Prod.fst else d.map Prod.fst ++ [k] := by
  induction d with
  | nil => rfl
  | cons e d ih =>
    by_cases he : e.1.equals k = true
    · simp [setItem, has, he]
    · have hlater : has (e :: d) k = has d k := by simp [has, he]
      rw [hlater]
      simp only [setItem, he, Bool.false_eq_true, if_false, List.map_cons, ih]
      split <;> simp

theorem mem_setItem (k : Key) (v : Data) (d : Entries) (e : Key × Data)
    (h : e ∈ setItem k v d) : e.2 = v ∨ e ∈ d := by
  induction d with
  | nil =>
    obtain rfl := List.mem_singleton.mp h
    exact Or.inl rfl
  | cons first d ih =>
    unfold setItem at h
    split at h
    · cases List.mem_cons.mp h with
      | inl hfirst => exact Or.inl (hfirst ▸ rfl)
      | inr hrest => exact Or.inr (List.mem_cons_of_mem _ hrest)
    · cases List.mem_cons.mp h with
      | inl hfirst => exact Or.inr (hfirst ▸ List.mem_cons_self)
      | inr hrest => exact (ih hrest).imp id (List.mem_cons_of_mem _)

theorem has_setItem (k k' : Key) (v : Data) (d : Entries) :
    has (setItem k v d) k' = (has d k' || k.equals k') := by
  rw [has_keys, setItem_keys, has_keys d k']
  split
  · rename_i hhas
    apply Bool.eq_iff_iff.mpr
    simp only [Bool.or_eq_true]
    refine ⟨Or.inl, fun h => h.elim id fun hk => ?_⟩
    rw [has_keys, List.any_eq_true] at hhas
    obtain ⟨k'', hk'', he⟩ := hhas
    exact List.any_eq_true.mpr ⟨k'', hk'', Key.equals_trans k'' k k' he hk⟩
  · simp

/-- An item that is set to its own value stays. -/
theorem setItem_get (k : Key) (v : Data) (d : Entries) (h : has d k = true) :
    setItem k ((get d k).getD v) d = d := by
  induction d with
  | nil => cases h
  | cons e d ih =>
    by_cases he : e.1.equals k = true
    · simp [setItem, get, he]
    · have hlater : has d k = true := by simpa [has, he] using h
      have hget : get (e :: d) k = get d k := by simp [get, he]
      simp [setItem, he, hget, ih hlater]

end items

section keyDict

theorem schemaAt_mem (schema : List (String × Schema)) (k : Key) (s : Schema)
    (h : schemaAt schema k = some s) : ∃ name, (name, s) ∈ schema := by
  obtain ⟨e, he, rfl⟩ := Option.map_eq_some_iff.mp h
  exact ⟨e.1, List.mem_of_find?_eq_some he⟩

variable (schema : List (String × Schema)) (optional : List String)

theorem keyDictEntry_eq_ok (path : Path) (e e' : Key × Data) :
    keyDictEntry schema path e = .ok e' ↔
      e'.1 = e.1 ∧ (schemaAt schema e.1 = none → e'.2 = e.2) ∧
        ∀ s, schemaAt schema e.1 = some s → s e.2 (entryPath path e.1) = .ok e'.2 := by
  obtain ⟨k', v'⟩ := e'
  unfold keyDictEntry
  cases hs : schemaAt schema e.1 with
  | none =>
    obtain ⟨k, v⟩ := e
    simp [eq_comm]
  | some s =>
    simp only [except_bind_eq_ok]
    constructor
    · rintro ⟨w, hw, h⟩
      obtain ⟨rfl, rfl⟩ := Prod.mk.inj (Except.ok.inj h)
      refine ⟨rfl, fun hnone => absurd hnone (by simp), fun s' hs' => ?_⟩
      rwa [← Option.some.inj hs']
    · rintro ⟨rfl, -, hok⟩
      exact ⟨v', hok s rfl, rfl⟩

theorem keyDict_eq_ok (x y : Data) (path : Path) :
    keyDict schema optional x path = .ok y ↔
      ∃ d d', x = .dict d ∧ y = .dict d' ∧
        List.Forall₂ (fun e e' => keyDictEntry schema path e = .ok e') d d' ∧
        ∀ e ∈ schema, has d (key e.1) = true ∨ e.1 ∈ optional := by
  cases x with
  | dict d =>
    have hrequired : (schema.find? fun e => !has d (key e.1) && e.1 ∉ optional) = none ↔
        ∀ e ∈ schema, has d (key e.1) = true ∨ e.1 ∈ optional := by
      simp only [List.find?_eq_none, Bool.and_eq_true, Bool.not_eq_true', decide_eq_true_eq,
        not_and, not_not, Prod.forall]
      refine forall_congr' fun name => forall_congr' fun s => forall_congr' fun _ => ?_
      cases has d (key name) <;> simp
    simp only [keyDict, except_bind_eq_ok, Entries.mapM_ok_iff]
    constructor
    · rintro ⟨d', hd', h⟩
      split at h
      · cases h
      · rename_i hnone
        exact ⟨d, d', rfl, (Except.ok.inj h).symm, hd', hrequired.mp hnone⟩
    · rintro ⟨d₁, d', hd, rfl, hd', hall⟩
      obtain rfl := Data.dict.inj hd
      exact ⟨d', hd', by rw [hrequired.mpr hall]; rfl⟩
  | none => simp [keyDict]
  | bool b => simp [keyDict]
  | int i => simp [keyDict]
  | text t => simp [keyDict]
  | other repr => simp [keyDict]

/-- A dictionary is left as it is where each of its values is. -/
theorem keyDict_fixes (d : Entries)
    (hfixes : ∀ e ∈ d, ∀ s, schemaAt schema e.1 = some s → Fixes s e.2)
    (hrequired : ∀ e ∈ schema, has d (key e.1) = true ∨ e.1 ∈ optional) :
    Fixes (keyDict schema optional) (.dict d) := by
  intro path
  refine (keyDict_eq_ok schema optional _ _ path).mpr ⟨d, d, rfl, rfl, ?_, hrequired⟩
  apply List.forall₂_same.mpr
  intro e he
  exact (keyDictEntry_eq_ok schema path e e).mpr
    ⟨rfl, fun _ => rfl, fun s hs => hfixes e he s hs _⟩

theorem keyDict_settles (hsettles : ∀ e ∈ schema, Settles e.2) :
    Settles (keyDict schema optional) := by
  intro x path y h
  obtain ⟨d, d', rfl, rfl, hentries, hrequired⟩ := (keyDict_eq_ok schema optional x y path).mp h
  have hkeys : ∀ e e', keyDictEntry schema path e = .ok e' → e.1.equals e'.1 = true := by
    intro e e' hok
    rw [((keyDictEntry_eq_ok schema path e e').mp hok).1]
    exact Key.equals_refl e.1
  apply keyDict_fixes
  · intro e' he' s hs
    obtain ⟨e, -, hok⟩ := Entries.mem_forall₂_right _ d d' hentries e' he'
    obtain ⟨hkey, -, hvalue⟩ := (keyDictEntry_eq_ok schema path e e').mp hok
    rw [hkey] at hs
    obtain ⟨name, hname⟩ := schemaAt_mem schema e.1 s hs
    exact hsettles _ hname e.2 _ e'.2 (hvalue s hs)
  · intro e he
    rw [← has_forall₂ _ d d' hkeys hentries]
    exact hrequired e he

end keyDict

section dict

/-- What `Dict` builds: decoded keys, each of them once, over values that stay. -/
structure Decoded (valueSchema : Schema) (d : Entries) : Prop where
  unicode : ∀ k ∈ d.map Prod.fst, ∃ t, k = .text t ∧ t.kind = .unicode
  nodup : (d.map Prod.fst).Nodup
  fixes : ∀ e ∈ d, Fixes valueSchema e.2

variable (valueSchema : Schema)

theorem dictEntry_eq_ok (path : Path) (d d' : Entries) (e : Key × Data) :
    dictEntry valueSchema path d e = .ok d' ↔
      ∃ k v, utf8Key e.1 path = .ok k ∧ valueSchema e.2 (entryPath path e.1) = .ok v ∧
        d' = setItem k v d := by
  simp only [dictEntry, except_bind_eq_ok]
  constructor
  · rintro ⟨k, hk, v, hv, h⟩
    exact ⟨k, v, hk, hv, (Except.ok.inj h).symm⟩
  · rintro ⟨k, v, hk, hv, rfl⟩
    exact ⟨k, hk, v, hv, rfl⟩

theorem dictEntry_decoded (hsettles : Settles valueSchema) (path : Path) (d d' : Entries)
    (e : Key × Data) (hd : Decoded valueSchema d)
    (h : dictEntry valueSchema path d e = .ok d') : Decoded valueSchema d' := by
  obtain ⟨k, v, hk, hv, rfl⟩ := (dictEntry_eq_ok valueSchema path d d' e).mp h
  obtain ⟨t, t', -, rfl, ht⟩ := (utf8Key_eq_ok e.1 k path).mp hk
  have hunicode := (decodeText_unicode t t' ht).1
  have hkeys := setItem_keys (.text t') v d
  refine ⟨fun k' hk' => ?_, ?_, fun e' he' => ?_⟩
  · rw [hkeys] at hk'
    split at hk'
    · exact hd.unicode k' hk'
    · cases List.mem_append.mp hk' with
      | inl hin => exact hd.unicode k' hin
      | inr hnew => exact ⟨t', List.mem_singleton.mp hnew, hunicode⟩
  · rw [hkeys]
    split
    · exact hd.nodup
    · rename_i habsent
      refine List.nodup_append.mpr ⟨hd.nodup, List.nodup_cons.mpr ⟨by simp, List.nodup_nil⟩, ?_⟩
      intro k' hk' k'' hk'' he
      rw [List.mem_singleton.mp hk''] at he
      rw [he] at hk'
      apply habsent
      rw [has_keys]
      exact List.any_eq_true.mpr ⟨_, hk', Key.equals_refl _⟩
  · cases mem_setItem _ v d e' he' with
    | inl hvalue => exact hvalue ▸ hsettles e.2 _ v hv
    | inr hin => exact hd.fixes e' hin

theorem foldlM_decoded (hsettles : Settles valueSchema) (path : Path) (es d d' : Entries)
    (hd : Decoded valueSchema d) (h : es.foldlM (dictEntry valueSchema path) d = .ok d') :
    Decoded valueSchema d' := by
  induction es generalizing d with
  | nil => exact Except.ok.inj h ▸ hd
  | cons e es ih =>
    rw [List.foldlM_cons, except_bind_eq_ok] at h
    obtain ⟨d₁, hfirst, hrest⟩ := h
    exact ih d₁ (dictEntry_decoded valueSchema hsettles path d d₁ e hd hfirst) hrest

/-- Entries whose keys decode to distinct keys are kept in their order. -/
theorem foldlM_append (path : Path) (es es' d : Entries)
    (h : List.Forall₂ (fun e e' => utf8Key e.1 path = .ok e'.1 ∧
      valueSchema e.2 (entryPath path e.1) = .ok e'.2) es es')
    (hunicode : ∀ k ∈ (d ++ es').map Prod.fst, ∃ t, k = .text t ∧ t.kind = .unicode)
    (hnodup : ((d ++ es').map Prod.fst).Nodup) :
    es.foldlM (dictEntry valueSchema path) d = .ok (d ++ es') := by
  induction h generalizing d with
  | nil => simp [pure, Except.pure]
  | @cons e e' es es' hfirst hrest ih =>
    have happend : d ++ e' :: es' = (d ++ [e']) ++ es' := by simp
    have habsent : has d e'.1 = false := by
      rw [has_keys, List.any_eq_false]
      intro k hk hequals
      obtain ⟨t, rfl, ht⟩ := hunicode k (by simp [List.mem_map] at hk ⊢; tauto)
      obtain ⟨t', ht', hkind⟩ := hunicode e'.1 (by simp)
      rw [ht'] at hequals
      have hsame : t = t' := PythonText.equals_same t t' (ht.trans hkind.symm) hequals
      rw [List.map_append, List.nodup_append] at hnodup
      exact hnodup.2.2 _ hk e'.1 (by simp) (by rw [hsame, ht'])
    have hstep : dictEntry valueSchema path d e = .ok (d ++ [e']) :=
      (dictEntry_eq_ok valueSchema path d _ e).mpr
        ⟨e'.1, e'.2, hfirst.1, hfirst.2, (setItem_absent e'.1 e'.2 d habsent).symm⟩
    rw [happend] at hunicode hnodup ⊢
    rw [List.foldlM_cons, hstep]
    exact ih (d ++ [e']) hunicode hnodup

theorem dict_eq_ok (x y : Data) (path : Path) :
    dict valueSchema x path = .ok y ↔
      ∃ es d, x = .dict es ∧ y = .dict d ∧
        es.foldlM (dictEntry valueSchema path) [] = .ok d := by
  cases x with
  | dict es =>
    simp only [dict, except_bind_eq_ok]
    constructor
    · rintro ⟨d, hd, h⟩
      exact ⟨es, d, rfl, (Except.ok.inj h).symm, hd⟩
    · rintro ⟨es', d, he, rfl, hd⟩
      obtain rfl := Data.dict.inj he
      exact ⟨d, hd, rfl⟩
  | none => simp [dict]
  | bool b => simp [dict]
  | int i => simp [dict]
  | text t => simp [dict]
  | other repr => simp [dict]

theorem dict_decoded (hsettles : Settles valueSchema) (x y : Data) (path : Path)
    (h : dict valueSchema x path = .ok y) : ∃ d, y = .dict d ∧ Decoded valueSchema d := by
  obtain ⟨es, d, -, rfl, hd⟩ := (dict_eq_ok valueSchema x y path).mp h
  refine ⟨d, rfl, foldlM_decoded valueSchema hsettles path es [] d ?_ hd⟩
  exact ⟨by simp, List.nodup_nil, by simp⟩

theorem decoded_key (k : Key) (t : PythonText) (hk : k = .text t) (ht : t.kind = .unicode)
    (path : Path) : utf8Key k path = .ok k :=
  (utf8Key_eq_ok k k path).mpr ⟨t, t, hk, hk, by simp [decodeText, ht]⟩

theorem dict_fixes (d : Entries) (hd : Decoded valueSchema d) :
    Fixes (dict valueSchema) (.dict d) := by
  intro path
  refine (dict_eq_ok valueSchema _ _ path).mpr ⟨d, d, rfl, rfl, ?_⟩
  have hsame : List.Forall₂ (fun e e' => utf8Key e.1 path = .ok e'.1 ∧
      valueSchema e.2 (entryPath path e.1) = .ok e'.2) d d := by
    apply List.forall₂_same.mpr
    intro e he
    obtain ⟨t, hk, ht⟩ := hd.unicode e.1 (List.mem_map_of_mem he)
    exact ⟨decoded_key e.1 t hk ht path, hd.fixes e he _⟩
  exact foldlM_append valueSchema path d d [] hsame hd.unicode hd.nodup

theorem dict_settles (hsettles : Settles valueSchema) : Settles (dict valueSchema) := by
  intro x path y h
  obtain ⟨d, rfl, hd⟩ := dict_decoded valueSchema hsettles x y path h
  exact dict_fixes valueSchema d hd

end dict

end Juju.Charm.Metadata

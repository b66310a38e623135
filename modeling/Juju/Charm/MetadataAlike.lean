import Juju.Charm.MetadataNormal
import Mathlib.Data.List.Perm.Basic

namespace Juju.Charm.Metadata
open Juju.Base Juju.Lib

mutual

/-- Two values whose texts are equal, with the entries of dictionaries in any order. -/
inductive Alike : Data → Data → Prop
  | none : Alike .none .none
  | bool (b : Bool) : Alike (.bool b) (.bool b)
  | int (i : Int) : Alike (.int i) (.int i)
  | text (t t' : PythonText) (h : t.equals t' = true) : Alike (.text t) (.text t')
  | dict (d d' d'' : Entries) (h : AlikeEntries d d') (hperm : d'.Perm d'') :
    Alike (.dict d) (.dict d'')
  | other (repr : String) : Alike (.other repr) (.other repr)

/-- Entries that are alike one by one. -/
inductive AlikeEntries : Entries → Entries → Prop
  | nil : AlikeEntries [] []
  | cons (e e' : Key × Data) (d d' : Entries) (hkey : e.1.equals e'.1 = true)
      (hvalue : Alike e.2 e'.2) (h : AlikeEntries d d') : AlikeEntries (e :: d) (e' :: d')

end

def AlikeEntry (e e' : Key × Data) : Prop := e.1.equals e'.1 = true ∧ Alike e.2 e'.2

theorem alikeEntries_iff (d d' : Entries) :
    AlikeEntries d d' ↔ List.Forall₂ AlikeEntry d d' := by
  induction d generalizing d' with
  | nil =>
    constructor
    · intro h
      cases h with
      | nil => exact .nil
    · intro h
      cases h with
      | nil => exact .nil
  | cons e d ih =>
    constructor
    · intro h
      cases h with
      | cons _ e' _ d' hkey hvalue h => exact .cons ⟨hkey, hvalue⟩ ((ih d').mp h)
    · intro h
      cases h with
      | @cons _ e' _ d' he h => exact .cons e e' d d' he.1 he.2 ((ih d').mpr h)

theorem alike_dict (x : Data) (d : Entries) :
    Alike x (.dict d) ↔
      ∃ d₁ d', x = .dict d₁ ∧ List.Forall₂ AlikeEntry d₁ d' ∧ d'.Perm d := by
  constructor
  · intro h
    cases h with
    | dict d₁ d' _ h hperm => exact ⟨d₁, d', rfl, (alikeEntries_iff d₁ d').mp h, hperm⟩
  · rintro ⟨d₁, d', rfl, h, hperm⟩
    exact .dict d₁ d' d ((alikeEntries_iff d₁ d').mpr h) hperm

theorem dict_alike (d d' d'' : Entries) (h : List.Forall₂ AlikeEntry d d')
    (hperm : d'.Perm d'') : Alike (.dict d) (.dict d'') :=
  (alike_dict _ d'').mpr ⟨d, d', rfl, h, hperm⟩

section order

theorem sizeOf_value (d : Entries) (e : Key × Data) (he : e ∈ d) :
    sizeOf e.2 < sizeOf (Data.dict d) := by
  have hlist := List.sizeOf_lt_of_mem he
  obtain ⟨k, v⟩ := e
  simp only [Prod.mk.sizeOf_spec, Data.dict.sizeOf_spec] at hlist ⊢
  omega

theorem alike_refl (x : Data) : Alike x x := by
  induction hn : sizeOf x using Nat.strong_induction_on generalizing x with
  | h n ih =>
    cases x with
    | none => exact .none
    | bool b => exact .bool b
    | int i => exact .int i
    | text t => exact .text t t (PythonText.equals_refl t)
    | dict d =>
      have hentries : List.Forall₂ AlikeEntry d d := by
        refine List.forall₂_same.mpr fun e he => ⟨Key.equals_refl e.1, ?_⟩
        exact ih (sizeOf e.2) (hn ▸ sizeOf_value d e he) e.2 rfl
      exact dict_alike d d d hentries (.refl d)
    | other repr => exact .other repr

theorem alikeEntries_trans (d d' d'' : Entries)
    (ih : ∀ e ∈ d, ∀ y z : Data, Alike e.2 y → Alike y z → Alike e.2 z)
    (h : List.Forall₂ AlikeEntry d d') (h' : List.Forall₂ AlikeEntry d' d'') :
    List.Forall₂ AlikeEntry d d'' := by
  induction h generalizing d'' with
  | nil => exact h'
  | @cons e e' d d' hfirst _ ihrest =>
    cases h' with
    | cons hfirst' hrest' =>
      have hkey := Key.equals_trans _ _ _ hfirst.1 hfirst'.1
      have hvalue := ih e List.mem_cons_self _ _ hfirst.2 hfirst'.2
      exact .cons ⟨hkey, hvalue⟩
        (ihrest _ (fun e he => ih e (List.mem_cons_of_mem _ he)) hrest')

theorem alike_trans (x y z : Data) (h : Alike x y) (h' : Alike y z) : Alike x z := by
  induction hn : sizeOf x using Nat.strong_induction_on generalizing x y z with
  | h n ih =>
    cases h with
    | none => exact h'
    | bool b => exact h'
    | int i => exact h'
    | other repr => exact h'
    | text t t' ht =>
      cases h' with
      | text _ t'' ht' => exact .text t t'' (PythonText.equals_trans t t' t'' ht ht')
    | dict d d₁ d₂ hd hperm =>
      cases h' with
      | dict _ d₃ d₄ hd' hperm' =>
        rw [alikeEntries_iff] at hd hd'
        obtain ⟨m, hm, hmperm⟩ := List.perm_comp_forall₂ hperm hd'
        refine dict_alike d m d₄ (alikeEntries_trans d d₁ m ?_ hd hm) (hmperm.trans hperm')
        intro e he y z hy hz
        exact ih (sizeOf e.2) (hn ▸ sizeOf_value d e he) e.2 y z hy hz rfl

end order

/-- What is alike what the schema leaves as it is, it makes alike. -/
def Keeps (s : Schema) : Prop :=
  ∀ x path, s x path = .ok x → ∀ x' path', Alike x' x → ∃ y, s x' path' = .ok y ∧ Alike y x

section leaves

theorem constantNone_keeps : Keeps constantNone := by
  intro x path h x' path' halike
  cases halike with
  | none => exact ⟨.none, rfl, .none⟩
  | bool b => cases h
  | int i => cases h
  | text t t' ht => cases h
  | dict d d' d'' hd hperm => cases h
  | other repr => cases h

theorem constant_keeps (c : String) : Keeps (constant c) := by
  intro x path h x' path' halike
  cases halike with
  | text t t' ht =>
    simp only [constant] at h
    split at h
    · rename_i hc
      have hequals := PythonText.equals_trans t t' _ ht hc
      exact ⟨.text t, by simp [constant, hequals], .text t t' ht⟩
    · cases h
  | none => cases h
  | bool b => cases h
  | int i => cases h
  | dict d d' d'' hd hperm => cases h
  | other repr => cases h

theorem bool_keeps : Keeps bool := by
  intro x path h x' path' halike
  cases halike with
  | bool b => exact ⟨.bool b, rfl, .bool b⟩
  | none => cases h
  | int i => cases h
  | text t t' ht => cases h
  | dict d d' d'' hd hperm => cases h
  | other repr => cases h

theorem int_keeps : Keeps int := by
  intro x path h x' path' halike
  cases halike with
  | bool b => exact ⟨.bool b, rfl, .bool b⟩
  | int i => exact ⟨.int i, rfl, .int i⟩
  | none => cases h
  | text t t' ht => cases h
  | dict d d' d'' hd hperm => cases h
  | other repr => cases h

theorem oneOf_keeps (first : Schema) (schemas : List Schema)
    (h : ∀ s ∈ first :: schemas, Checks s) (hkeeps : ∀ s ∈ first :: schemas, Keeps s) :
    Keeps (oneOf first schemas) := by
  intro x path hok x' path' halike
  obtain ⟨-, s, hs, hfixes⟩ := oneOf_ok first schemas h x x path hok
  obtain ⟨y, hy, hyx⟩ := hkeeps s hs x path (hfixes path) x' path' halike
  obtain ⟨rfl, hfixes'⟩ := h s hs x' path' y hy
  exact ⟨y, oneOf_fixes first schemas h y s hs hfixes' path', hyx⟩

/-- A text that is equal to a `unicode` is decoded to it. -/
theorem decodeText_equals (t t' : PythonText) (hkind : t'.kind = .unicode)
    (h : t.equals t' = true) : decodeText t = some t' := by
  obtain ⟨hpoints, hsame⟩ := (PythonText.equals_iff t t').mp h
  cases hk : t.kind with
  | bytes =>
    have hascii : t.points.all (· < 128) = true := by
      cases hsame with
      | inl hkinds => simp [hk, hkind] at hkinds
      | inr hascii => exact hascii
    obtain ⟨kind', points'⟩ := t'
    obtain rfl : kind' = .unicode := hkind
    obtain rfl : t.points = points' := hpoints
    simp [decodeText, hk, decodeUtf8_ascii t.points hascii]
  | unicode =>
    obtain rfl := PythonText.equals_same t t' (hk.trans hkind.symm) h
    simp [decodeText, hk]

theorem utf8_keeps : Keeps utf8 := by
  intro x path h x' path' halike
  obtain ⟨t, t', hx, hx', ht⟩ := (utf8_eq_ok x x path).mp h
  have hkind := (decodeText_unicode t t' ht).1
  rw [hx'] at halike ⊢
  cases halike with
  | text t₁ _ hequals =>
    exact ⟨.text t', (utf8_eq_ok _ _ path').mpr
      ⟨t₁, t', rfl, rfl, decodeText_equals t₁ t' hkind hequals⟩, alike_refl _⟩

end leaves

section dictionaries

theorem has_alike (d d' d'' : Entries) (h : List.Forall₂ AlikeEntry d d') (hperm : d'.Perm d'')
    (k : Key) : has d k = has d'' k := by
  rw [has_forall₂ AlikeEntry d d' (fun _ _ he => he.1) h k]
  exact hperm.any_eq

theorem schemaAt_congr (schema : List (String × Schema)) (k k' : Key) (h : k.equals k' = true) :
    schemaAt schema k = schemaAt schema k' := by
  have hsame : (fun e : String × Schema => k.equals (key e.1)) = fun e => k'.equals (key e.1) :=
    funext fun e => Key.equals_congr k k' (key e.1) h
  rw [schemaAt, schemaAt, hsame]

theorem keyDict_keeps (schema : List (String × Schema)) (optional : List String)
    (hkeeps : ∀ e ∈ schema, Keeps e.2) : Keeps (keyDict schema optional) := by
  intro x path h x' path' halike
  obtain ⟨d, d', hx, hd', hentries, hrequired⟩ := (keyDict_eq_ok schema optional x x path).mp h
  obtain rfl : d = d' := Data.dict.inj (hx ▸ hd')
  rw [List.forall₂_same] at hentries
  rw [hx] at halike
  obtain ⟨d₁, d₂, rfl, halike, hperm⟩ := (alike_dict x' d).mp halike
  have hentry : ∀ e₁ e₂, e₂ ∈ d₂ → AlikeEntry e₁ e₂ →
      ∃ e, keyDictEntry schema path' e₁ = .ok e ∧ AlikeEntry e e₂ := by
    intro e₁ e₂ he₂ he
    obtain ⟨-, -, hvalue⟩ :=
      (keyDictEntry_eq_ok schema path e₂ e₂).mp (hentries e₂ (hperm.mem_iff.mp he₂))
    have hschema := schemaAt_congr schema e₁.1 e₂.1 he.1
    cases hs : schemaAt schema e₁.1 with
    | none => exact ⟨e₁, by simp [keyDictEntry, hs], he⟩
    | some s =>
      obtain ⟨name, hname⟩ := schemaAt_mem schema e₁.1 s hs
      obtain ⟨v, hv, halike⟩ := hkeeps _ hname e₂.2 _ (hvalue s (hschema ▸ hs)) e₁.2
        (entryPath path' e₁.1) he.2
      have hok : s e₁.2 (entryPath path' e₁.1) = .ok v := hv
      exact ⟨(e₁.1, v), by simp [keyDictEntry, hs, hok], he.1, halike⟩
  obtain ⟨d₃, hd₃, halike₃⟩ := Entries.forall₂_between _ _ d₁ d₂ halike hentry
  refine ⟨.dict d₃, (keyDict_eq_ok schema optional _ _ path').mpr ⟨d₁, d₃, rfl, rfl, hd₃, ?_⟩,
    hx ▸ dict_alike d₃ d₂ d halike₃ hperm⟩
  intro e he
  rw [has_alike d₁ d₂ d halike hperm]
  exact hrequired e he

theorem dict_keeps (valueSchema : Schema) (hsettles : Settles valueSchema)
    (hkeeps : Keeps valueSchema) : Keeps (dict valueSchema) := by
  intro x path h x' path' halike
  obtain ⟨d, rfl, hd⟩ := dict_decoded valueSchema hsettles x x path h
  obtain ⟨d₁, d₂, rfl, halike, hperm⟩ := (alike_dict x' d).mp halike
  have hkey : ∀ e₂ ∈ d₂, ∃ t, e₂.1 = .text t ∧ t.kind = .unicode :=
    fun e₂ he₂ => hd.unicode e₂.1 (List.mem_map_of_mem (hperm.mem_iff.mp he₂))
  have hentry : ∀ e₁ e₂, e₂ ∈ d₂ → AlikeEntry e₁ e₂ →
      ∃ e : Key × Data, (utf8Key e₁.1 path' = .ok e.1 ∧
        valueSchema e₁.2 (entryPath path' e₁.1) = .ok e.2) ∧ e.1 = e₂.1 ∧ Alike e.2 e₂.2 := by
    intro e₁ e₂ he₂ he
    obtain ⟨t₂, ht₂, hkind⟩ := hkey e₂ he₂
    have hequals := he.1
    rw [ht₂] at hequals
    have hdecoded : utf8Key e₁.1 path' = .ok e₂.1 := by
      cases hk : e₁.1 with
      | text t₁ =>
        rw [hk] at hequals
        exact (utf8Key_eq_ok _ _ path').mpr
          ⟨t₁, t₂, rfl, ht₂, decodeText_equals t₁ t₂ hkind hequals⟩
      | other repr =>
        rw [hk] at hequals
        cases hequals
    obtain ⟨v, hv, halikev⟩ := hkeeps e₂.2 [] (hd.fixes e₂ (hperm.mem_iff.mp he₂) []) e₁.2
      (entryPath path' e₁.1) he.2
    exact ⟨(e₂.1, v), ⟨hdecoded, hv⟩, rfl, halikev⟩
  obtain ⟨d₃, hd₃, halike₃⟩ := Entries.forall₂_between _ _ d₁ d₂ halike hentry
  have hkeys : (d₃.map Prod.fst).Perm (d.map Prod.fst) := by
    rw [Entries.map_forall₂ Prod.fst d₃ d₂ (halike₃.imp fun _ _ he => he.1)]
    exact hperm.map Prod.fst
  refine ⟨.dict d₃, (dict_eq_ok valueSchema _ _ path').mpr ⟨d₁, d₃, rfl, rfl, ?_⟩,
    dict_alike d₃ d₂ d (halike₃.imp fun e e' he => ⟨he.1 ▸ Key.equals_refl e.1, he.2⟩) hperm⟩
  exact foldlM_append valueSchema path' d₁ d₃ [] hd₃
    (fun k hk => hd.unicode k (hkeys.mem_iff.mp hk)) (hkeys.nodup_iff.mpr hd.nodup)

end dictionaries

end Juju.Charm.Metadata

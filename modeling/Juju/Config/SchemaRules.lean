import Juju.Base.StateExcept
import Juju.Config.EnvironmentsConfig
import Mathlib.Data.List.Infix

namespace Juju.Config
open Juju.Base Juju.Lib

/-- A schema that gives back what it accepts. -/
def Checks (schema : Schema) : Prop :=
  ∀ value path value', schema value path = .ok value' → value' = value

theorem constant_checks (c : Value) : Checks (constant c) := by
  intro value path value' h
  simp only [constant] at h
  split at h
  · exact (Except.ok.inj h).symm
  · cases h

theorem string_checks : Checks string := by
  intro value path value' h
  unfold string at h
  split at h
  · exact (Except.ok.inj h).symm
  · cases h

theorem oneOf_checks (schemas : List Schema) (h : ∀ schema ∈ schemas, Checks schema) :
    Checks (oneOf schemas) := by
  intro value path value'
  have hloop (best) (hok : oneOfLoop value path best schemas = .ok value') : value' = value := by
    induction schemas generalizing best with
    | nil => cases best <;> cases hok
    | cons schema schemas ih =>
      have hrest := ih fun s hs => h s (List.mem_cons_of_mem schema hs)
      rw [oneOfLoop] at hok
      split at hok
      · exact hrest _ hok
      · exact h schema List.mem_cons_self value path value' hok
  exact hloop none

section strip

variable (text : List Char)

theorem strip_inside : TextKind.bytes.strip text <:+: text :=
  ((List.rdropWhile_prefix _ _).isInfix).trans (List.dropWhile_suffix _).isInfix

/-- What is stripped has nothing more to strip. -/
theorem strip_strip : TextKind.bytes.strip (TextKind.bytes.strip text) =
    TextKind.bytes.strip text := by
  have hfirst : (TextKind.bytes.strip text).dropWhile TextKind.bytes.isSpace =
      TextKind.bytes.strip text := by
    apply List.dropWhile_eq_self_iff.mpr
    intro hpos hspace
    have hprefix := List.rdropWhile_prefix TextKind.bytes.isSpace
      (text.dropWhile TextKind.bytes.isSpace)
    have hget := hprefix.getElem hpos
    have hlong : 0 < (text.dropWhile TextKind.bytes.isSpace).length :=
      Nat.lt_of_lt_of_le hpos hprefix.length_le
    apply List.dropWhile_get_zero_not TextKind.bytes.isSpace text hlong
    rw [List.get_eq_getElem, ← hget]
    exact hspace
  rw [TextKind.strip, hfirst]
  exact List.rdropWhile_idempotent _ _

end strip

/-- The parts that are joined are those that the text is split into. -/
theorem oauthParts_joinTexts (parts : List String) (hne : parts ≠ [])
    (hcolon : ∀ part ∈ parts, ':' ∉ part.toList)
    (hstrip : ∀ part ∈ parts, TextKind.bytes.strip part.toList = part.toList) :
    oauthParts (joinTexts parts) = parts := by
  have hsplit : (joinTexts parts).toList.splitOn ':' = parts.map String.toList := by
    rw [joinTexts, String.toList_ofList]
    refine (splitOn_eq_iff ':' _ _ (by simpa using hne)).mpr ⟨rfl, ?_⟩
    intro part hpart
    obtain ⟨s, hs, rfl⟩ := List.mem_map.mp hpart
    exact hcolon s hs
  rw [oauthParts, hsplit, List.map_map]
  calc parts.map _ = parts.map id := by
        apply List.map_congr_left
        intro part hpart
        simp only [Function.comp_apply, hstrip part hpart, String.ofList_toList, id_eq]
    _ = parts := List.map_id parts

theorem oauthParts_clean (s : String) : ∀ part ∈ oauthParts s,
    ':' ∉ part.toList ∧ TextKind.bytes.strip part.toList = part.toList := by
  intro part hpart
  obtain ⟨l, hl, rfl⟩ := List.mem_map.mp hpart
  rw [String.toList_ofList]
  refine ⟨fun hin => ?_, strip_strip l⟩
  exact not_mem_splitOn ':' s.toList l hl ((strip_inside l).subset hin)

/-- The parts of an accepted text are joined to a text that is accepted for the same parts. -/
theorem oauthString_joined (value : Value) (path : List String) (value' : Value)
    (h : oauthString value path = .ok value') :
    ∃ joined, joinParts value' = .ok joined ∧ oauthString (.str joined) path = .ok value' := by
  unfold oauthString at h
  split at h
  · rename_i s
    dsimp only at h
    split at h
    · cases h
    · rename_i hlength
      split at h
      · cases h
      · rename_i hempty
        obtain rfl := Except.ok.inj h
        have hlength := not_not.mp hlength
        have hjoin : joinParts (.tuple ((oauthParts s).map .str)) =
            .ok (joinTexts (oauthParts s)) := by
          have htexts : ((oauthParts s).map Value.str).mapM textOf = .ok (oauthParts s) := by
            rw [Entries.mapM_ok_iff, List.forall₂_map_left_iff, List.forall₂_same]
            exact fun _ _ => rfl
          rw [joinParts, joinParts.join, htexts]
          rfl
        have hparts : oauthParts (joinTexts (oauthParts s)) = oauthParts s := by
          apply oauthParts_joinTexts
          · rw [← List.length_pos_iff_ne_nil, hlength]
            decide
          · exact fun part hpart => (oauthParts_clean s part hpart).1
          · exact fun part hpart => (oauthParts_clean s part hpart).2
        refine ⟨joinTexts (oauthParts s), hjoin, ?_⟩
        simp [oauthString, hparts, hlength, hempty]
  · rename_i hno
    have hsame := string_checks _ _ _ h
    subst hsame
    unfold string at h
    split at h
    · exact absurd rfl (hno _)
    · cases h

section dictionaries

variable (schema : List (String × Schema)) (optional : List String) (path : List String)

theorem keyDictEntry_key (e e' : Key × Value) (h : keyDictEntry schema path e = .ok e') :
    e'.1 = e.1 := by
  unfold keyDictEntry at h
  split at h
  · split at h
    · obtain ⟨v, -, hv⟩ := except_bind_ok _ _ _ h
      obtain rfl := Except.ok.inj hv
      rfl
    · rw [Except.ok.inj h]
  · rw [Except.ok.inj h]

/-- What is not in the schema is preserved. -/
theorem keyDictEntry_unlisted (e : Key × Value)
    (h : ∀ key, e.1 = .str key → schema.lookup key = none) : keyDictEntry schema path e = .ok e := by
  unfold keyDictEntry
  split
  · rename_i key hkey
    rw [h key hkey]
    rfl
  · rfl

theorem keyDictEntry_listed (key : String) (valueSchema : Schema) (value : Value) (e' : Key × Value)
    (h : schema.lookup key = some valueSchema) :
    keyDictEntry schema path (.str key, value) = .ok e' ↔
      ∃ v, valueSchema value (entryPath path key) = .ok v ∧ (.str key, v) = e' := by
  simp only [keyDictEntry, h]
  constructor
  · intro hok
    obtain ⟨v, hv, he⟩ := except_bind_ok _ _ _ hok
    exact ⟨v, hv, Except.ok.inj he⟩
  · rintro ⟨v, hv, rfl⟩
    rw [hv]
    rfl

/-- An entry whose schema gives back what it accepts is given back. -/
theorem keyDictEntry_checks (e e' : Key × Value) (h : keyDictEntry schema path e = .ok e')
    (hchecks : ∀ key valueSchema, e.1 = .str key → schema.lookup key = some valueSchema →
      Checks valueSchema) : e' = e := by
  unfold keyDictEntry at h
  split at h
  · rename_i key hkey
    split at h
    · rename_i valueSchema hlookup
      obtain ⟨v, hv, he⟩ := except_bind_ok _ _ _ h
      obtain rfl := Except.ok.inj he
      rw [hchecks key valueSchema hkey hlookup _ _ v hv]
    · exact (Except.ok.inj h).symm
  · exact (Except.ok.inj h).symm

theorem keyDict_ok_iff (value value' : Value) :
    keyDict schema optional value path = .ok value' ↔ ∃ d d', value = .dict d ∧ value' = .dict d' ∧
      List.Forall₂ (fun e e' => keyDictEntry schema path e = .ok e') d d' ∧
      ∀ e ∈ schema, e.1 ∉ optional → d.lookup (.str e.1) ≠ none := by
  constructor
  · intro h
    unfold keyDict at h
    split at h
    · rename_i d
      obtain ⟨d', hd, hrest⟩ := except_bind_ok _ _ _ h
      split at hrest
      · cases hrest
      · rename_i hfind
        refine ⟨d, d', rfl, (Except.ok.inj hrest).symm, (Entries.mapM_ok_iff _ _ _).mp hd, ?_⟩
        intro e he hrequired hnone
        have hno := List.find?_eq_none.mp hfind e he
        simp [hnone, hrequired] at hno
    · cases h
  · rintro ⟨d, d', rfl, rfl, hentries, hrequired⟩
    have hfind : (schema.find? fun e => (d.lookup (.str e.1)).isNone && e.1 ∉ optional) = none := by
      rw [List.find?_eq_none]
      intro e he hmissing
      simp only [Bool.and_eq_true, Option.isNone_iff_eq_none, decide_eq_true_eq] at hmissing
      exact hrequired e he hmissing.2 hmissing.1
    rw [keyDict, (Entries.mapM_ok_iff _ _ _).mpr hentries]
    simp only [bind, Except.bind, hfind]
    rfl

theorem stringDict_ok_iff (valueSchema : Schema) (value value' : Value) :
    stringDict valueSchema value path = .ok value' ↔ ∃ d d', value = .dict d ∧ value' = .dict d' ∧
      List.Forall₂ (fun e e' => ∃ name v, e.1 = .str name ∧ e' = (.str name, v) ∧
        valueSchema e.2 (entryPath path name) = .ok v) d d' := by
  have hentry (e e' : Key × Value) : stringDictEntry valueSchema path e = .ok e' ↔
      ∃ name v, e.1 = .str name ∧ e' = (.str name, v) ∧
        valueSchema e.2 (entryPath path name) = .ok v := by
    obtain ⟨key, v⟩ := e
    cases key with
    | object repr =>
      constructor
      · intro h
        cases h
      · rintro ⟨name, v', hkey, -⟩
        cases hkey
    | str name =>
      constructor
      · intro h
        obtain ⟨-, -, hvalue⟩ := except_bind_ok _ _ _ h
        obtain ⟨v', hv, he⟩ := except_bind_ok _ _ _ hvalue
        exact ⟨name, v', rfl, (Except.ok.inj he).symm, hv⟩
      · rintro ⟨name', v', hkey, rfl, hv⟩
        obtain rfl := Key.str.inj hkey
        rw [stringDictEntry]
        simp only [stringKey, Key.text, hv]
        rfl
  constructor
  · intro h
    unfold stringDict at h
    split at h
    · rename_i d
      obtain ⟨d', hd, hrest⟩ := except_bind_ok _ _ _ h
      have hall := (Entries.mapM_ok_iff _ _ _).mp hd
      exact ⟨d, d', rfl, (Except.ok.inj hrest).symm, hall.imp fun e e' => (hentry e e').mp⟩
    · cases h
  · rintro ⟨d, d', rfl, rfl, hentries⟩
    rw [stringDict, (Entries.mapM_ok_iff _ _ _).mpr (hentries.imp fun e e' => (hentry e e').mpr)]
    rfl

theorem selectDict_ok_iff (key : String) (value value' : Value) :
    selectDict key schema value path = .ok value' ↔ ∃ d s valueSchema, value = .dict d ∧
      d.lookup (.str key) = some (.str s) ∧ schema.lookup s = some valueSchema ∧
      valueSchema (.dict d) path = .ok value' := by
  constructor
  · intro h
    unfold selectDict at h
    split at h
    · rename_i d
      split at h
      · rename_i v hv
        unfold selected at h
        split at h
        · rename_i s
          split at h
          · rename_i valueSchema hlookup
            exact ⟨d, s, valueSchema, rfl, hv, hlookup, h⟩
          · cases h
        all_goals cases h
      · cases h
    all_goals first | cases h | (split at h <;> cases h)
  · rintro ⟨d, s, valueSchema, rfl, hv, hlookup, h⟩
    simp only [selectDict, hv, selected, hlookup, h]

/-- An environment is accepted by the schema of its type. -/
theorem environmentSchema_ok_iff (value value' : Value) :
    environmentSchema value path = .ok value' ↔ ∃ d t, value = .dict d ∧
      d.lookup (.str "type") = some (.str (ProviderType.name t)) ∧
      keyDict t.schema t.optional (.dict d) path = .ok value' := by
  rw [environmentSchema, selectDict_ok_iff]
  constructor
  · rintro ⟨d, s, valueSchema, rfl, htype, hlookup, h⟩
    have hmem := Entries.mem_of_lookup _ _ _ hlookup
    obtain ⟨t, -, ht⟩ := List.mem_map.mp hmem
    obtain ⟨rfl, rfl⟩ := Prod.mk.inj ht
    exact ⟨d, t, rfl, htype, h⟩
  · rintro ⟨d, t, rfl, htype, h⟩
    refine ⟨d, t.name, _, rfl, htype, ?_, h⟩
    cases t <;> rfl

end dictionaries

end Juju.Config

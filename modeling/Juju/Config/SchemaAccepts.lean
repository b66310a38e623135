import Juju.Config.SchemaRules

namespace Juju.Config
open Juju.Base Juju.Lib

/-- A schema that gives back the values of `P`, and raises a `SchemaError` for the others. -/
structure Accepts (schema : Schema) (P : Value → Prop) : Prop where
  accepts : ∀ value path, P value → schema value path = .ok value
  refuses : ∀ value path, ¬ P value → ∃ p m, schema value path = .error (.schemaError p m)

theorem accepts_congr (schema : Schema) (P Q : Value → Prop) (h : Accepts schema P)
    (hsame : ∀ value, P value ↔ Q value) : Accepts schema Q :=
  ⟨fun value path hQ => h.accepts value path ((hsame value).mpr hQ),
    fun value path hQ => h.refuses value path fun hP => hQ ((hsame value).mp hP)⟩

theorem constant_accepts (c : String) : Accepts (constant (.str c)) (· = .str c) := by
  have hequals (value : Value) : value.equals (.str c) = true ↔ value = .str c := by
    cases value <;> simp [Value.equals]
  constructor
  · intro value path h
    simp [constant, (hequals value).mpr h]
  · intro value path h
    exact ⟨path, .expectedConstant (.str c) value, if_neg fun heq => h ((hequals value).mp heq)⟩

theorem string_accepts : Accepts string fun value => ∃ s, value = .str s := by
  constructor
  · rintro value path ⟨s, rfl⟩
    rfl
  · intro value path h
    unfold string
    split
    · rename_i s
      exact absurd ⟨s, rfl⟩ h
    · exact ⟨_, _, rfl⟩

theorem oneOfLoop_accepts (schemas : List Schema) (Ps : List (Value → Prop))
    (h : List.Forall₂ Accepts schemas Ps) (value : Value) (path : List String)
    (best : Option (List String × SchemaMessage)) (hraises : best ≠ none ∨ schemas ≠ []) :
    ((∃ P ∈ Ps, P value) → oneOfLoop value path best schemas = .ok value) ∧
      ((¬ ∃ P ∈ Ps, P value) →
        ∃ p m, oneOfLoop value path best schemas = .error (.schemaError p m)) := by
  induction h generalizing best with
  | nil =>
    cases best with
    | none => exact absurd hraises (by simp)
    | some best => exact ⟨by simp, fun _ => ⟨best.1, best.2, rfl⟩⟩
  | @cons schema P schemas Ps hfirst _ ih =>
    by_cases hP : P value
    · have hok := hfirst.accepts value path hP
      refine ⟨fun _ => by simp [oneOfLoop, hok], fun hno => ?_⟩
      exact absurd ⟨P, List.mem_cons_self, hP⟩ hno
    · obtain ⟨p, m, herror⟩ := hfirst.refuses value path hP
      simp only [oneOfLoop, herror, List.mem_cons, exists_eq_or_imp, hP, false_or]
      exact ih _ (Or.inl (by simp))

theorem oneOf_accepts (schemas : List Schema) (Ps : List (Value → Prop))
    (h : List.Forall₂ Accepts schemas Ps) (hne : schemas ≠ []) :
    Accepts (oneOf schemas) fun value => ∃ P ∈ Ps, P value :=
  ⟨fun value path => (oneOfLoop_accepts schemas Ps h value path none (Or.inr hne)).1,
    fun value path => (oneOfLoop_accepts schemas Ps h value path none (Or.inr hne)).2⟩

section entries

variable {α : Type} (f : α → Except Raised α) (P : α → Prop)
    (haccepts : ∀ a, P a → f a = .ok a)
    (hrefuses : ∀ a, ¬ P a → ∃ p m, f a = .error (.schemaError p m))
include haccepts

theorem mapM_accepts (l : List α) (h : ∀ a ∈ l, P a) : l.mapM f = .ok l := by
  rw [Entries.mapM_ok_iff, List.forall₂_same]
  exact fun a ha => haccepts a (h a ha)

include hrefuses

theorem mapM_refuses (l : List α) (h : ¬ ∀ a ∈ l, P a) :
    ∃ p m, l.mapM f = .error (.schemaError p m) := by
  induction l with
  | nil => exact absurd (by simp) h
  | cons a l ih =>
    by_cases ha : P a
    · have hrest : ¬ ∀ a ∈ l, P a := fun hall => h (by simpa [ha] using hall)
      obtain ⟨p, m, hl⟩ := ih hrest
      exact ⟨p, m, by rw [List.mapM_cons, haccepts a ha, hl]; rfl⟩
    · obtain ⟨p, m, hfirst⟩ := hrefuses a ha
      exact ⟨p, m, by rw [List.mapM_cons, hfirst]; rfl⟩

end entries

/-- An entry that is accepted if its key is listed. -/
def Listed (schema : List (String × Schema)) (P : String → Value → Prop) (e : Key × Value) : Prop :=
  ∀ name, e.1 = .str name → schema.lookup name ≠ none → P name e.2

section keyDict

variable (schema : List (String × Schema)) (optional : List String) (P : String → Value → Prop)
    (h : ∀ name s, schema.lookup name = some s → Accepts s (P name))
include h

theorem keyDictEntry_accepts (path : List String) (e : Key × Value) (he : Listed schema P e) :
    keyDictEntry schema path e = .ok e := by
  obtain ⟨key, value⟩ := e
  cases key with
  | object repr => rfl
  | str name =>
    cases hs : schema.lookup name with
    | none => simp [keyDictEntry, hs, pure, Except.pure]
    | some s =>
      have hlisted : P name value := he name rfl (by simp [hs])
      have hok := (h name s hs).accepts value (entryPath path name) hlisted
      exact (keyDictEntry_listed schema path name s value _ hs).mpr ⟨value, hok, rfl⟩

theorem keyDictEntry_refuses (path : List String) (e : Key × Value) (he : ¬ Listed schema P e) :
    ∃ p m, keyDictEntry schema path e = .error (.schemaError p m) := by
  simp only [Listed, not_forall] at he
  obtain ⟨name, hname, hlisted, hP⟩ := he
  obtain ⟨s, hs⟩ := Option.ne_none_iff_exists'.mp hlisted
  obtain ⟨p, m, herror⟩ := (h name s hs).refuses e.2 (entryPath path name) hP
  exact ⟨p, m, by simp only [keyDictEntry, hname, hs, herror]; rfl⟩

/-- A dictionary is accepted with the entries that are listed, and with those that are required. -/
theorem keyDict_accepts :
    Accepts (keyDict schema optional) fun value => ∃ d, value = .dict d ∧
      (∀ e ∈ d, Listed schema P e) ∧
      ∀ e ∈ schema, e.1 ∉ optional → d.lookup (.str e.1) ≠ none := by
  constructor
  · rintro value path ⟨d, rfl, hentries, hrequired⟩
    refine (keyDict_ok_iff schema optional path _ _).mpr ⟨d, d, rfl, rfl, ?_, hrequired⟩
    exact List.forall₂_same.mpr fun e he => keyDictEntry_accepts schema P h path e (hentries e he)
  · intro value path hno
    unfold keyDict
    split
    · rename_i d
      by_cases hall : ∀ e ∈ d, Listed schema P e
      · rw [mapM_accepts _ _ (keyDictEntry_accepts schema P h path) d hall]
        simp only [bind, Except.bind]
        split
        · exact ⟨_, _, rfl⟩
        · rename_i hfind
          refine absurd ⟨d, rfl, hall, fun e he hrequired hnone => ?_⟩ hno
          have hfound := List.find?_eq_none.mp hfind e he
          simp [hnone, hrequired] at hfound
      · obtain ⟨p, m, herror⟩ := mapM_refuses _ _ (keyDictEntry_accepts schema P h path)
          (keyDictEntry_refuses schema P h path) d hall
        exact ⟨p, m, by rw [herror]; rfl⟩
    · exact ⟨_, _, rfl⟩

end keyDict

/-- An entry whose key is a string, with a value of `P`. -/
def Named (P : Value → Prop) (e : Key × Value) : Prop := (∃ name, e.1 = .str name) ∧ P e.2

section stringDict

variable (valueSchema : Schema) (P : Value → Prop) (h : Accepts valueSchema P)
include h

theorem stringDictEntry_accepts (path : List String) (e : Key × Value) (he : Named P e) :
    stringDictEntry valueSchema path e = .ok e := by
  obtain ⟨key, value⟩ := e
  obtain ⟨⟨name, hname⟩, hP⟩ := he
  obtain rfl : key = .str name := hname
  simp only [stringDictEntry, stringKey, h.accepts value _ hP]
  rfl

theorem stringDictEntry_refuses (path : List String) (e : Key × Value) (he : ¬ Named P e) :
    ∃ p m, stringDictEntry valueSchema path e = .error (.schemaError p m) := by
  obtain ⟨key, value⟩ := e
  cases key with
  | object repr => exact ⟨_, _, rfl⟩
  | str name =>
    have hP : ¬ P value := fun hP => he ⟨⟨name, rfl⟩, hP⟩
    obtain ⟨p, m, herror⟩ := h.refuses value (entryPath path name) hP
    exact ⟨p, m, by simp only [stringDictEntry, stringKey, Key.text, herror]; rfl⟩

theorem stringDict_accepts :
    Accepts (stringDict valueSchema) fun value =>
      ∃ d, value = .dict d ∧ ∀ e ∈ d, Named P e := by
  constructor
  · rintro value path ⟨d, rfl, hentries⟩
    simp only [stringDict,
      mapM_accepts _ _ (stringDictEntry_accepts valueSchema P h path) d hentries]
    rfl
  · intro value path hno
    unfold stringDict
    split
    · rename_i d
      have hall : ¬ ∀ e ∈ d, Named P e := fun hall => hno ⟨d, rfl, hall⟩
      obtain ⟨p, m, herror⟩ := mapM_refuses _ _ (stringDictEntry_accepts valueSchema P h path)
        (stringDictEntry_refuses valueSchema P h path) d hall
      exact ⟨p, m, by rw [herror]; rfl⟩
    · exact ⟨_, _, rfl⟩

end stringDict

end Juju.Config

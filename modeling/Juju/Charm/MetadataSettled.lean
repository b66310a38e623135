import Juju.Charm.MetadataAlike

namespace Juju.Charm.Metadata
open Juju.Base Juju.Lib

section interface

theorem has_setDefault (k k' : Key) (v : Data) (d : Entries) :
    has (setDefault k v d) k' = (has d k' || k.equals k') := by
  unfold setDefault
  split
  · rename_i hhas
    rw [← has_setItem k k' v d, has_keys d, has_keys (setItem k v d), setItem_keys, if_pos hhas]
  · simp [has]

theorem has_expand (limit : Data) (d : Entries) (k : Key) :
    has (expand limit d) k = (has d k || (key "limit").equals k || (key "optional").equals k ||
      (key "scope").equals k) := by
  simp [expand, has_setItem, has_setDefault]

/-- An interface with nothing left to complete. -/
def Complete (d : Entries) : Prop :=
  has d (key "limit") = true ∧ has d (key "optional") = true ∧ has d (key "scope") = true

theorem expand_complete (limit : Data) (d : Entries) : Complete (expand limit d) := by
  simp only [Complete, has_expand, Key.equals_refl, Bool.or_true, Bool.true_or, and_self]

theorem expand_eq (limit : Data) (d : Entries) (h : Complete d) : expand limit d = d := by
  obtain ⟨hlimit, hoptional, hscope⟩ := h
  simp [expand, setDefault, hlimit, hoptional, setItem_get _ _ d hscope]

theorem scopes_check : ∀ s ∈ [constant "global", constant "container"], Checks s := by
  simp [constant_checks]

theorem limits_check : ∀ s ∈ [constantNone, int], Checks s := by
  simp [constantNone_checks, int_checks]

theorem interface_settles : Settles INTERFACE_SCHEMA := by
  have hlimits := checks_settles _ (oneOf_checks _ _ limits_check)
  have hscopes := checks_settles _ (oneOf_checks _ _ scopes_check)
  apply keyDict_settles
  simp [utf8_settles, checks_settles _ bool_checks, hlimits, hscopes]

theorem interface_keeps : Keeps INTERFACE_SCHEMA := by
  have hlimits := oneOf_keeps _ _ limits_check (by simp [constantNone_keeps, int_keeps])
  have hscopes := oneOf_keeps _ _ scopes_check (by simp [constant_keeps])
  apply keyDict_keeps
  simp [utf8_keeps, bool_keeps, hlimits, hscopes]

theorem interface_keys (d : Entries) (y : Data) (path : Path)
    (h : INTERFACE_SCHEMA (.dict d) path = .ok y) :
    ∃ d', y = .dict d' ∧ ∀ k, has d' k = has d k := by
  obtain ⟨d₁, d', hd, rfl, hentries, -⟩ := (keyDict_eq_ok _ _ _ _ path).mp h
  obtain rfl := Data.dict.inj hd
  refine ⟨d', rfl, fun k => (has_forall₂ _ d d' ?_ hentries k).symm⟩
  intro e e' hok
  rw [((keyDictEntry_eq_ok _ path e e').mp hok).1]
  exact Key.equals_refl e.1

/-- What stands for an interface that is written as its name. -/
def shorthand (name limit : Data) : Entries :=
  [(key "interface", name), (key "limit", limit), (key "scope", text "global"),
    (key "optional", .bool false)]

theorem shorthand_fixes (t : PythonText) (limit : Data) (ht : t.kind = .unicode)
    (hlimit : Fixes (oneOf constantNone [int]) limit) :
    Fixes INTERFACE_SCHEMA (.dict (shorthand (.text t) limit)) := by
  have hscope : Fixes (oneOf (constant "global") [constant "container"]) (text "global") :=
    fun _ => rfl
  apply keyDict_fixes
  · intro e he s hs
    simp only [shorthand, List.mem_cons, List.not_mem_nil, or_false] at he
    rcases he with rfl | rfl | rfl | rfl
    · obtain rfl : utf8 = s := Option.some.inj hs
      exact fun path => (utf8_eq_ok _ _ path).mpr ⟨t, t, rfl, rfl, by simp [decodeText, ht]⟩
    · obtain rfl : oneOf constantNone [int] = s := Option.some.inj hs
      exact hlimit
    · obtain rfl : oneOf (constant "global") [constant "container"] = s := Option.some.inj hs
      exact hscope
    · obtain rfl : bool = s := Option.some.inj hs
      exact fun _ => rfl
  · intro e he
    simp only [List.mem_cons, List.not_mem_nil, or_false] at he
    rcases he with rfl | rfl | rfl | rfl <;> exact Or.inl rfl

theorem interfaceExpander_name (limit x y : Data) (path : Path) (hx : ∀ d, x ≠ .dict d)
    (h : interfaceExpander limit x path = .ok y) :
    ∃ t, y = .dict (shorthand (.text t) limit) ∧ t.kind = .unicode := by
  have hexpand : interfaceExpander limit x path =
      (utf8 x path).map fun name => .dict (shorthand name limit) := by
    cases x with
    | dict d => exact absurd rfl (hx d)
    | text t => rfl
    | none => rfl
    | bool b => rfl
    | int i => rfl
    | other repr => rfl
  rw [hexpand] at h
  cases hname : utf8 x path with
  | error e =>
    rw [hname] at h
    cases h
  | ok name =>
    rw [hname] at h
    obtain ⟨t, t', -, rfl, ht⟩ := (utf8_eq_ok x name path).mp hname
    exact ⟨t', (Except.ok.inj h).symm, (decodeText_unicode t t' ht).1⟩

variable (limit : Data) (hlimit : Fixes (oneOf constantNone [int]) limit)
include hlimit

/-- An interface is completed to one that is left as it is. -/
theorem interfaceExpander_complete (x y : Data) (path : Path)
    (h : interfaceExpander limit x path = .ok y) :
    ∃ d, y = .dict d ∧ Complete d ∧ Fixes INTERFACE_SCHEMA (.dict d) := by
  by_cases hx : ∃ d, x = .dict d
  · obtain ⟨d, rfl⟩ := hx
    obtain ⟨d', rfl, hkeys⟩ := interface_keys (expand limit d) y path h
    refine ⟨d', rfl, ?_, interface_settles _ path _ h⟩
    simpa only [Complete, hkeys] using expand_complete limit d
  · obtain ⟨t, rfl, ht⟩ :=
      interfaceExpander_name limit x y path (fun d hd => hx ⟨d, hd⟩) h
    exact ⟨_, rfl, ⟨rfl, rfl, rfl⟩, shorthand_fixes t limit ht hlimit⟩

theorem interfaceExpander_settles : Settles (interfaceExpander limit) := by
  intro x path y h path'
  obtain ⟨d, rfl, hcomplete, hfixes⟩ := interfaceExpander_complete limit hlimit x y path h
  have hexpand := expand_eq limit d hcomplete
  calc interfaceExpander limit (.dict d) path'
      = INTERFACE_SCHEMA (.dict (expand limit d)) path' := rfl
    _ = .ok (.dict d) := by rw [hexpand, hfixes path']

theorem interfaceExpander_keeps : Keeps (interfaceExpander limit) := by
  intro x path h x' path' halike
  obtain ⟨d, rfl, hcomplete, hfixes⟩ := interfaceExpander_complete limit hlimit x x path h
  obtain ⟨d₁, d₂, rfl, hentries, hperm⟩ := (alike_dict x' d).mp halike
  have hcomplete₁ : Complete d₁ := by
    simpa only [Complete, has_alike d₁ d₂ d hentries hperm] using hcomplete
  have hexpand := expand_eq limit d₁ hcomplete₁
  have hkept := interface_keeps _ path' (hfixes path') _ path' halike
  obtain ⟨y, hy, hyx⟩ := hkept
  refine ⟨y, ?_, hyx⟩
  calc interfaceExpander limit (.dict d₁) path'
      = INTERFACE_SCHEMA (.dict (expand limit d₁)) path' := rfl
    _ = .ok y := by rw [hexpand, hy]

end interface

section schema

theorem none_limit : Fixes (oneOf constantNone [int]) .none := fun _ => rfl

theorem one_limit : Fixes (oneOf constantNone [int]) (.int 1) := fun _ => rfl

theorem schema_settles : Settles SCHEMA := by
  have hprovides := dict_settles _ (interfaceExpander_settles .none none_limit)
  have hothers := dict_settles _ (interfaceExpander_settles (.int 1) one_limit)
  apply keyDict_settles
  simp [utf8_settles, checks_settles _ bool_checks, checks_settles _ int_checks, hprovides, hothers]

theorem schema_keeps : Keeps SCHEMA := by
  have hprovides := dict_keeps _ (interfaceExpander_settles .none none_limit)
    (interfaceExpander_keeps .none none_limit)
  have hothers := dict_keeps _ (interfaceExpander_settles (.int 1) one_limit)
    (interfaceExpander_keeps (.int 1) one_limit)
  apply keyDict_keeps
  simp [utf8_keeps, bool_keeps, int_keeps, hprovides, hothers]

end schema

section expanded

/-- An interface as it is fully specified. -/
structure ExpandedInterface (d : Entries) : Prop where
  interface : ∃ t, get d (key "interface") = some (.text t) ∧ t.kind = .unicode
  limit : ∃ v, get d (key "limit") = some v ∧
    (v = .none ∨ (∃ i, v = .int i) ∨ ∃ b, v = .bool b)
  scope : ∃ t, get d (key "scope") = some (.text t) ∧
    (t.equals (.literal "global") = true ∨ t.equals (.literal "container") = true)
  optional : ∃ b, get d (key "optional") = some (.bool b)

/-- The relations of a role, by their names. -/
def ExpandedRelations (d : Entries) : Prop :=
  ∀ e ∈ d, (∃ t, e.1 = .text t ∧ t.kind = .unicode) ∧ ∃ d', e.2 = .dict d' ∧ ExpandedInterface d'

/-- Metadata as `SCHEMA` returns it. -/
structure ExpandedMetadata (d : Entries) : Prop where
  name : ∃ t, get d (key "name") = some (.text t) ∧ t.kind = .unicode
  relations : ∀ role ∈ ["peers", "provides", "requires"], ∀ v, get d (key role) = some v →
    ∃ relations, v = .dict relations ∧ ExpandedRelations relations
  subordinate : ∀ v, get d (key "subordinate") = some v → ∃ b, v = .bool b

theorem get_of_has (d : Entries) (k : Key) (h : has d k = true) : ∃ v, get d k = some v := by
  obtain ⟨e, he, hk⟩ := List.any_eq_true.mp h
  have hsome : (d.find? fun e => e.1.equals k).isSome = true :=
    List.find?_isSome.mpr ⟨e, he, hk⟩
  obtain ⟨e', he'⟩ := Option.isSome_iff_exists.mp hsome
  exact ⟨e'.2, by simp [get, he']⟩

theorem keyDict_get (schema : List (String × Schema)) (optional : List String) (d : Entries)
    (h : Fixes (keyDict schema optional) (.dict d)) (k : Key) (s : Schema) (v : Data)
    (hs : schemaAt schema k = some s) (hv : get d k = some v) : ∃ path, s v path = .ok v := by
  obtain ⟨d', d'', hd, hd', hentries, -⟩ := (keyDict_eq_ok schema optional _ _ []).mp (h [])
  obtain rfl := Data.dict.inj hd
  obtain rfl := Data.dict.inj hd'
  rw [List.forall₂_same] at hentries
  obtain ⟨e, he, rfl⟩ := Option.map_eq_some_iff.mp hv
  have hkey : e.1.equals k = true := by simpa using List.find?_some he
  obtain ⟨-, -, hvalue⟩ :=
    (keyDictEntry_eq_ok schema [] e e).mp (hentries e (List.mem_of_find?_eq_some he))
  exact ⟨_, hvalue s ((schemaAt_congr schema e.1 k hkey).trans hs)⟩

theorem utf8_value (v : Data) (path : Path) (h : utf8 v path = .ok v) :
    ∃ t, v = .text t ∧ t.kind = .unicode := by
  obtain ⟨t, t', -, hv, ht⟩ := (utf8_eq_ok v v path).mp h
  exact ⟨t', hv, (decodeText_unicode t t' ht).1⟩

theorem bool_value (v : Data) (path : Path) (h : bool v path = .ok v) : ∃ b, v = .bool b := by
  cases v with
  | bool b => exact ⟨b, rfl⟩
  | none => cases h
  | int i => cases h
  | text t => cases h
  | dict d => cases h
  | other repr => cases h

theorem constant_value (c : String) (v : Data) (h : Fixes (constant c) v) :
    ∃ t, v = .text t ∧ t.equals (.literal c) = true := by
  cases v with
  | text t =>
    have hok := h []
    simp only [constant] at hok
    split at hok
    · rename_i hequals
      exact ⟨t, rfl, hequals⟩
    · cases hok
  | none => cases h []
  | bool b => cases h []
  | int i => cases h []
  | dict d => cases h []
  | other repr => cases h []

theorem limit_value (v : Data) (path : Path) (h : oneOf constantNone [int] v path = .ok v) :
    v = .none ∨ (∃ i, v = .int i) ∨ ∃ b, v = .bool b := by
  cases v with
  | none => exact Or.inl rfl
  | int i => exact Or.inr (Or.inl ⟨i, rfl⟩)
  | bool b => exact Or.inr (Or.inr ⟨b, rfl⟩)
  | text t => cases h
  | dict d => cases h
  | other repr => cases h

theorem scope_value (v : Data) (path : Path)
    (h : oneOf (constant "global") [constant "container"] v path = .ok v) :
    ∃ t, v = .text t ∧
      (t.equals (.literal "global") = true ∨ t.equals (.literal "container") = true) := by
  obtain ⟨-, s, hs, hfixes⟩ := oneOf_ok _ _ scopes_check v v path h
  simp only [List.mem_cons, List.not_mem_nil, or_false] at hs
  cases hs with
  | inl hs =>
    obtain ⟨t, rfl, ht⟩ := constant_value "global" v (hs ▸ hfixes)
    exact ⟨t, rfl, Or.inl ht⟩
  | inr hs =>
    obtain ⟨t, rfl, ht⟩ := constant_value "container" v (hs ▸ hfixes)
    exact ⟨t, rfl, Or.inr ht⟩

theorem interface_expanded (d : Entries) (hcomplete : Complete d)
    (h : Fixes INTERFACE_SCHEMA (.dict d)) : ExpandedInterface d := by
  obtain ⟨hlimit, hoptional, hscope⟩ := hcomplete
  have hinterface : has d (key "interface") = true := by
    obtain ⟨d', -, hd, -, -, hrequired⟩ := (keyDict_eq_ok _ _ _ _ []).mp (h [])
    obtain rfl := Data.dict.inj hd
    exact (hrequired ("interface", utf8) (by simp)).resolve_right (by simp)
  obtain ⟨interface, hi⟩ := get_of_has d _ hinterface
  obtain ⟨limit, hl⟩ := get_of_has d _ hlimit
  obtain ⟨optional, ho⟩ := get_of_has d _ hoptional
  obtain ⟨scope, hs⟩ := get_of_has d _ hscope
  obtain ⟨pathi, hi'⟩ := keyDict_get _ _ d h (key "interface") utf8 interface rfl hi
  obtain ⟨pathl, hl'⟩ := keyDict_get _ _ d h (key "limit") _ limit rfl hl
  obtain ⟨patho, ho'⟩ := keyDict_get _ _ d h (key "optional") bool optional rfl ho
  obtain ⟨paths, hs'⟩ := keyDict_get _ _ d h (key "scope") _ scope rfl hs
  obtain ⟨name, rfl, hname⟩ := utf8_value interface pathi hi'
  obtain ⟨b, rfl⟩ := bool_value optional patho ho'
  obtain ⟨t, rfl, ht⟩ := scope_value scope paths hs'
  exact ⟨⟨name, hi, hname⟩, ⟨limit, hl, limit_value limit pathl hl'⟩, ⟨t, hs, ht⟩, ⟨b, ho⟩⟩

theorem relations_expanded (limit : Data) (hlimit : Fixes (oneOf constantNone [int]) limit)
    (v : Data) (path : Path) (h : dict (interfaceExpander limit) v path = .ok v) :
    ∃ d, v = .dict d ∧ ExpandedRelations d := by
  obtain ⟨d, rfl, hd⟩ := dict_decoded _ (interfaceExpander_settles limit hlimit) v v path h
  refine ⟨d, rfl, fun e he => ⟨hd.unicode e.1 (List.mem_map_of_mem he), ?_⟩⟩
  obtain ⟨d', hd', hcomplete, hfixes⟩ :=
    interfaceExpander_complete limit hlimit e.2 e.2 [] (hd.fixes e he [])
  exact ⟨d', hd', interface_expanded d' hcomplete hfixes⟩

theorem schema_expanded (x y : Data) (path : Path) (h : SCHEMA x path = .ok y) :
    ∃ d, y = .dict d ∧ ExpandedMetadata d := by
  have hfixes := schema_settles x path y h
  obtain ⟨d, d', rfl, hd, hentries, hrequired⟩ := (keyDict_eq_ok _ _ y y []).mp (hfixes [])
  obtain rfl := Data.dict.inj hd
  refine ⟨d, rfl, ?_, ?_, ?_⟩
  · have hname := (hrequired ("name", utf8) (by simp)).resolve_right (by simp)
    obtain ⟨v, hv⟩ := get_of_has d _ hname
    obtain ⟨path', hv'⟩ := keyDict_get _ _ d hfixes (key "name") utf8 v rfl hv
    obtain ⟨t, rfl, ht⟩ := utf8_value v path' hv'
    exact ⟨t, hv, ht⟩
  · intro role hrole v hv
    simp only [List.mem_cons, List.not_mem_nil, or_false] at hrole
    rcases hrole with rfl | rfl | rfl
    · obtain ⟨path', hv'⟩ := keyDict_get _ _ d hfixes (key "peers") _ v rfl hv
      exact relations_expanded (.int 1) one_limit v path' hv'
    · obtain ⟨path', hv'⟩ := keyDict_get _ _ d hfixes (key "provides") _ v rfl hv
      exact relations_expanded .none none_limit v path' hv'
    · obtain ⟨path', hv'⟩ := keyDict_get _ _ d hfixes (key "requires") _ v rfl hv
      exact relations_expanded (.int 1) one_limit v path' hv'
  · intro v hv
    obtain ⟨path', hv'⟩ := keyDict_get _ _ d hfixes (key "subordinate") bool v rfl hv
    exact bool_value v path' hv'

end expanded

section state

/-- The metadata of a `CharmState` that was stored and read `n` times. `yaml` gives what a stored
value is loaded to. -/
def rereads (yaml : Data → Data) (m : MetaData) : Nat → Except MetaDataError MetaData
  | 0 => .ok m
  | n + 1 => do parseSerializationData (yaml (← rereads yaml m n).getSerializationData) none

theorem parse_alike (x y : Data) (h : SCHEMA y [] = .ok y) (halike : Alike x y)
    (path : Option String) :
    ∃ m, parseSerializationData x path = .ok m ∧ Alike m.data y := by
  obtain ⟨z, hz, hzy⟩ := schema_keeps y [] h x [] halike
  exact ⟨⟨z⟩, by simp [parseSerializationData, hz], hzy⟩

theorem rereads_alike (yaml : Data → Data) (y : Data) (h : SCHEMA y [] = .ok y)
    (hyaml : ∀ d, Alike d y → Alike (yaml d) d) (n : Nat) :
    ∃ m, rereads yaml ⟨y⟩ n = .ok m ∧ Alike m.data y := by
  induction n with
  | zero => exact ⟨⟨y⟩, rfl, alike_refl y⟩
  | succ n ih =>
    obtain ⟨m, hm, halike⟩ := ih
    have hread := alike_trans _ _ _ (hyaml m.data halike) halike
    obtain ⟨m', hm', halike'⟩ := parse_alike _ y h hread none
    refine ⟨m', ?_, halike'⟩
    rw [rereads, hm]
    exact hm'

/-- Metadata is normalised once: `SCHEMA` leaves what it returned as it is, and a charm's state
that is stored and read again has it up to the kinds of its ASCII texts. -/
theorem metadata_settled (x y : Data) (path : Path) (h : SCHEMA x path = .ok y) :
    (∀ path', SCHEMA y path' = .ok y) ∧
      (∀ path', parseSerializationData (MetaData.mk y).getSerializationData path' = .ok ⟨y⟩) ∧
      (∃ d, y = .dict d ∧ ExpandedMetadata d) ∧
      ∀ yaml : Data → Data, (∀ d, Alike d y → Alike (yaml d) d) →
        ∀ n, ∃ m, rereads yaml ⟨y⟩ n = .ok m ∧ Alike m.data y := by
  have hfixes := schema_settles x path y h
  refine ⟨hfixes, fun path' => ?_, schema_expanded x y path h, fun yaml hyaml n => ?_⟩
  · simp [MetaData.getSerializationData, parseSerializationData, hfixes []]
  · exact rereads_alike yaml y (hfixes []) hyaml n

end state

section mysql

def mysql : Data :=
  .dict [(key "name", text "mysql"), (key "summary", text "Database"),
    (key "description", text "A database."),
    (key "provides", .dict [(key "db", text "mysql"),
      (key "db-admin", .dict [(key "interface", text "mysql-root"), (key "limit", .int 2)])]),
    (key "subordinate", .bool false), (key "maintainer", text "juju")]

theorem mysql_accepted : ∃ y, SCHEMA mysql [] = .ok y := by
  have hok : (SCHEMA mysql []).isOk = true := by decide +kernel
  cases hy : SCHEMA mysql [] with
  | ok y => exact ⟨y, rfl⟩
  | error e =>
    rw [hy] at hok
    cases hok

/-- A text as YAML loads it: a `str` where it is ASCII. -/
def loadText (t : PythonText) : PythonText :=
  if t.isAscii then ⟨.bytes, t.points⟩ else t

def loadKey : Key → Key
  | .text t => .text (loadText t)
  | .other repr => .other repr

mutual

def load : Data → Data
  | .none => .none
  | .bool b => .bool b
  | .int i => .int i
  | .text t => .text (loadText t)
  | .dict d => .dict (loadEntries d)
  | .other repr => .other repr

def loadEntries : Entries → Entries
  | [] => []
  | (k, v) :: d => (loadKey k, load v) :: loadEntries d

end

theorem loadText_equals (t : PythonText) : (loadText t).equals t = true := by
  unfold loadText
  split
  · rename_i hascii
    exact (PythonText.equals_iff _ t).mpr ⟨rfl, Or.inr hascii⟩
  · exact PythonText.equals_refl t

mutual

theorem load_alike : (x : Data) → Alike (load x) x
  | .none => by rw [load]; exact .none
  | .bool b => by rw [load]; exact .bool b
  | .int i => by rw [load]; exact .int i
  | .text t => by rw [load]; exact .text _ t (loadText_equals t)
  | .dict d => by rw [load]; exact .dict _ d d (loadEntries_alike d) (.refl d)
  | .other repr => by rw [load]; exact .other repr

theorem loadEntries_alike : (d : Entries) → AlikeEntries (loadEntries d) d
  | [] => by rw [loadEntries]; exact .nil
  | (.text t, v) :: d => by
    rw [loadEntries]
    exact .cons _ _ _ _ (loadText_equals t) (load_alike v) (loadEntries_alike d)
  | (.other repr, v) :: d => by
    rw [loadEntries]
    exact .cons _ _ _ _ (Key.equals_refl _) (load_alike v) (loadEntries_alike d)

end

theorem mysql_settled :
    ∃ y, SCHEMA mysql [] = .ok y ∧ (∀ path', SCHEMA y path' = .ok y) ∧
      (∃ d, y = .dict d ∧ ExpandedMetadata d) ∧
      ∀ n, ∃ m, rereads load ⟨y⟩ n = .ok m ∧ Alike m.data y := by
  obtain ⟨y, hy⟩ := mysql_accepted
  have hsettled := metadata_settled mysql y [] hy
  exact ⟨y, hy, hsettled.1, hsettled.2.2.1, hsettled.2.2.2 load fun d _ => load_alike d⟩

end mysql

end Juju.Charm.Metadata

import Juju.Config.SchemaRules

namespace Juju.Config
open Juju.Base Juju.Lib

/-- The keys that are made anew for a remote system. -/
def authorizedKeys : List Key := [.str "authorized-keys", .str "authorized-keys-path"]

/-- What a provider adds to the configuration of an environment: EC2 the credentials that the
configuration does not have, and the dummy provider its additional variable. -/
def Added (t : ProviderType) (config : Entries) (key : Key) : Prop :=
  (t = .ec2 ∧ (key = .str "access-key" ∨ key = .str "secret-key") ∧ config.lookup key = none) ∨
    (t = .dummy ∧ key = .str "dynamicduck")

/-- A client of AWS is only made with credentials, which it takes from the environment of the
process where it is given none. -/
def AwsCredentials (host : Host) : Prop :=
  ∀ accessKey secretKey ec2Uri s3Uri,
    host.awsServiceRegion accessKey secretKey ec2Uri s3Uri = true →
      (accessKey.truthy = true ∨ host.environ "AWS_ACCESS_KEY_ID" ≠ none) ∧
      (secretKey.truthy = true ∨ host.environ "AWS_SECRET_ACCESS_KEY" ≠ none)

section schemas

variable (t : ProviderType)

/-- Only the credentials of MAAS are given back as something else. -/
theorem schema_checks (key : String) (valueSchema : Schema)
    (h : t.schema.lookup key = some valueSchema) :
    Checks valueSchema ∨ (t = .maas ∧ key = "maas-oauth" ∧ valueSchema = oauthString) := by
  have hplacement : Checks eitherPlacement :=
    oneOf_checks _ (by simp [constant_checks])
  have hmem := Entries.mem_of_lookup _ _ _ h
  cases t with
  | ec2 =>
    have hall : ∀ e ∈ ec2Schema, Checks e.2 := by
      simp only [ec2Schema, List.forall_mem_cons, string_checks, hplacement, true_and]
      exact ⟨oneOf_checks _ (by simp [constant_checks]), oneOf_checks _ (by simp [constant_checks]),
        by simp⟩
    exact Or.inl (hall _ hmem)
  | orchestra =>
    have hall : ∀ e ∈ orchestraSchema, Checks e.2 := by
      simp [orchestraSchema, string_checks, hplacement]
    exact Or.inl (hall _ hmem)
  | maas =>
    have hall : ∀ e ∈ maasSchema, Checks e.2 ∨ (e.1 = "maas-oauth" ∧ e.2 = oauthString) := by
      simp [maasSchema, string_checks, hplacement, constant_checks]
    exact (hall _ hmem).imp_right fun hoauth => ⟨rfl, hoauth⟩
  | «local» =>
    have hall : ∀ e ∈ localSchema, Checks e.2 := by
      simp [localSchema, string_checks, constant_checks]
    exact Or.inl (hall _ hmem)
  | dummy => cases hmem

theorem schema_unlisted (key : String)
    (h : key ∈ ["authorized-keys", "authorized-keys-path", "type", "dynamicduck"]) :
    t.schema.lookup key = none := by
  simp only [List.mem_cons, List.not_mem_nil, or_false] at h
  rcases h with rfl | rfl | rfl | rfl <;> cases t <;> rfl

/-- What is not in the schema of the type is accepted as it is. -/
theorem entry_unlisted (path : List String) (key : String) (value : Value)
    (h : t.schema.lookup key = none) :
    keyDictEntry t.schema path (.str key, value) = .ok (.str key, value) := by
  apply keyDictEntry_unlisted
  rintro key' hkey
  rw [← Key.str.inj hkey]
  exact h

end schemas

/-- A configuration that the schema of its type has given back. -/
structure Accepted (t : ProviderType) (path : List String) (config : Entries) : Prop where
  settled : ∀ e ∈ config, keyDictEntry t.schema path e = .ok e ∨
    (t = .maas ∧ e.1 = .str "maas-oauth" ∧
      ∃ value, oauthString value (entryPath path "maas-oauth") = .ok e.2)
  required : ∀ e ∈ t.schema, e.1 ∉ t.optional → config.lookup (.str e.1) ≠ none
  type : config.lookup (.str "type") = some (.str t.name)

/-- The entries that a schema gives back stand at the keys where they stood. -/
theorem lookup_entries (schema : List (String × Schema)) (path : List String) (d d' : Entries)
    (h : List.Forall₂ (fun e e' => keyDictEntry schema path e = .ok e') d d') (key : Key) :
    (d.lookup key = none ∧ d'.lookup key = none) ∨
      ∃ v v', d.lookup key = some v ∧ d'.lookup key = some v' ∧
        keyDictEntry schema path (key, v) = .ok (key, v') := by
  induction h with
  | nil => exact Or.inl ⟨rfl, rfl⟩
  | @cons e e' d d' he hrest ih =>
    have hsame := keyDictEntry_key schema path e e' he
    rw [Entries.lookup_cons, Entries.lookup_cons, hsame]
    by_cases hkey : key = e.1
    · right
      rw [if_pos hkey, if_pos hkey, hkey]
      exact ⟨e.2, e'.2, rfl, rfl, he.trans (by rw [← hsame])⟩
    · rw [if_neg hkey, if_neg hkey]
      exact ih

theorem accepted_keyDict (t : ProviderType) (path : List String) (raw : Entries) (value : Value)
    (h : keyDict t.schema t.optional (.dict raw) path = .ok value)
    (htype : raw.lookup (.str "type") = some (.str t.name)) :
    ∃ config, value = .dict config ∧ Accepted t path config := by
  obtain ⟨raw', config, hraw, rfl, hentries, hrequired⟩ := (keyDict_ok_iff _ _ _ _ _).mp h
  obtain rfl := Value.dict.inj hraw
  have hlookup := lookup_entries _ _ raw config hentries
  refine ⟨config, rfl, ?_, ?_, ?_⟩
  · intro e' he'
    obtain ⟨e, -, he⟩ := Entries.mem_forall₂_right _ _ _ hentries e' he'
    by_cases hchecks : ∀ key valueSchema, e.1 = .str key → t.schema.lookup key = some valueSchema →
        Checks valueSchema
    · have hsame := keyDictEntry_checks _ _ e e' he hchecks
      rw [hsame] at he ⊢
      exact Or.inl he
    · push Not at hchecks
      obtain ⟨key, valueSchema, hkey, hschema, hno⟩ := hchecks
      obtain ⟨rfl, rfl, rfl⟩ := (schema_checks t key valueSchema hschema).resolve_left hno
      obtain ⟨k, v⟩ := e
      obtain rfl : k = .str "maas-oauth" := hkey
      obtain ⟨v', hv, rfl⟩ := (keyDictEntry_listed _ _ _ _ v e' hschema).mp he
      exact Or.inr ⟨rfl, rfl, v, hv⟩
  · intro e he hopt
    rcases hlookup (.str e.1) with ⟨hnone, -⟩ | ⟨v, v', -, hv', -⟩
    · exact absurd hnone (hrequired e he hopt)
    · rw [hv']
      exact Option.some_ne_none v'
  · rcases hlookup (.str "type") with ⟨hnone, -⟩ | ⟨v, v', hv, hv', hentry⟩
    · rw [htype] at hnone
      cases hnone
    · rw [entry_unlisted t path "type" v (schema_unlisted t "type" (by simp))] at hentry
      obtain ⟨-, rfl⟩ := Prod.mk.inj (Except.ok.inj hentry)
      rw [hv', ← hv, htype]

/-- What a provider gives to be serialized: entries that the schema accepts, and gives back as they
were, but for what is added. -/
structure Serialized (t : ProviderType) (path : List String) (config data : Entries) : Prop where
  accepted : ∀ e ∈ data, e.1 ∉ authorizedKeys → ∃ v, keyDictEntry t.schema path e = .ok (e.1, v)
  same : ∀ key, key ∉ authorizedKeys → ∀ v v', data.lookup key = some v →
    keyDictEntry t.schema path (key, v) = .ok (key, v') →
      config.lookup key = some v' ∨ Added t config key
  kept : ∀ key, key ∉ authorizedKeys → data.lookup key = none → config.lookup key = none

/-- The authorized keys are all that the provider base changes. -/
theorem baseSerializationData_ok (host : Host) (config data : Entries)
    (h : baseSerializationData host config = .ok data) :
    (∀ key, key ∉ authorizedKeys → data.lookup key = config.lookup key) ∧
      ∀ e ∈ data, e.1 ∉ authorizedKeys → e ∈ config := by
  obtain ⟨keys, -, hdata⟩ := except_bind_ok _ _ _ h
  obtain rfl := Except.ok.inj hdata
  have hne (key : Key) (hkey : key ∉ authorizedKeys) :
      key ≠ .str "authorized-keys" ∧ key ≠ .str "authorized-keys-path" := by
    simpa [authorizedKeys] using hkey
  refine ⟨?_, ?_⟩
  · intro key hkey
    obtain ⟨hkeys, hpath⟩ := hne key hkey
    rw [Entries.lookup_without, if_neg hpath, Entries.lookup_assign, if_neg hkeys]
  · intro e he hkey
    obtain ⟨hin, -⟩ := (Entries.mem_without _ _ _).mp he
    rcases (Entries.mem_assign _ _ _ _).mp hin with rfl | ⟨hin, -⟩
    · exact absurd rfl (hne _ hkey).1
    · exact hin

section providers

variable (t : ProviderType) (path : List String) (host : Host) (config data : Entries)

/-- The data of a provider that adds nothing. -/
theorem serialized_same (h : Accepted t path config) (ht : t ≠ .maas)
    (hlookup : ∀ key, key ∉ authorizedKeys → data.lookup key = config.lookup key)
    (hmem : ∀ e ∈ data, e.1 ∉ authorizedKeys → e ∈ config) : Serialized t path config data := by
  have hsettled (e : Key × Value) (he : e ∈ config) : keyDictEntry t.schema path e = .ok e :=
    (h.settled e he).resolve_right fun hmaas => ht hmaas.1
  refine ⟨?_, ?_, ?_⟩
  · intro e he hkey
    exact ⟨e.2, hsettled e (hmem e he hkey)⟩
  · intro key hkey v v' hv hentry
    have hconfig : config.lookup key = some v := (hlookup key hkey).symm.trans hv
    have hsame := hsettled (key, v) (Entries.mem_of_lookup _ _ _ hconfig)
    obtain ⟨-, rfl⟩ := Prod.mk.inj (Except.ok.inj (hsame.symm.trans hentry))
    exact Or.inl hconfig
  · intro key hkey hnone
    exact (hlookup key hkey).symm.trans hnone

/-- A credential that the configuration does not have is taken from the environment of the
process. -/
theorem serialized_setDefault (h : Serialized .ec2 path config data) (key environKey : String)
    (hkey : key = "access-key" ∨ key = "secret-key")
    (henviron : config.lookup (.str key) = none → host.environ environKey ≠ none) :
    Serialized .ec2 path config (setDefault host data key environKey) := by
  have hauthorized : Key.str key ∉ authorizedKeys := by
    rcases hkey with rfl | rfl <;> decide
  have hschema : ec2Schema.lookup key = some string := by
    rcases hkey with rfl | rfl <;> rfl
  unfold setDefault
  split
  · exact h
  · rename_i hnone
    have hdata : data.lookup (.str key) = none := Option.not_isSome_iff_eq_none.mp hnone
    have hconfig := h.kept _ hauthorized hdata
    obtain ⟨v, hv⟩ := Option.ne_none_iff_exists'.mp (henviron hconfig)
    have hadded : Added .ec2 config (.str key) := by
      refine Or.inl ⟨rfl, ?_, hconfig⟩
      rcases hkey with rfl | rfl
      · exact Or.inl rfl
      · exact Or.inr rfl
    rw [hv]
    refine ⟨?_, ?_, ?_⟩
    · intro e he hauth
      rcases (Entries.mem_assign _ _ _ _).mp he with rfl | ⟨hin, -⟩
      · exact ⟨.str v, (keyDictEntry_listed _ _ _ _ _ _ hschema).mpr ⟨.str v, rfl, rfl⟩⟩
      · exact h.accepted e hin hauth
    · intro k hauth u u' hu hentry
      by_cases hk : k = .str key
      · rw [hk]
        exact Or.inr hadded
      · rw [Entries.lookup_assign, if_neg hk] at hu
        exact h.same k hauth u u' hu hentry
    · intro k hauth hk
      rw [Entries.lookup_assign] at hk
      split at hk
      · cases hk
      · exact h.kept k hauth hk

/-- The parts of the credentials of MAAS are joined again. -/
theorem serialized_maas (h : Accepted .maas path config)
    (hlookup : ∀ key, key ∉ authorizedKeys → data.lookup key = config.lookup key)
    (hmem : ∀ e ∈ data, e.1 ∉ authorizedKeys → e ∈ config) (oauth : Value)
    (hoauth : config.lookup (.str "maas-oauth") = some oauth) (joined : String)
    (hjoined : joinParts oauth = .ok joined) :
    Serialized .maas path config (Entries.assign (.str "maas-oauth") (.str joined) data) := by
  have hschema : maasSchema.lookup "maas-oauth" = some oauthString := rfl
  have hagain : oauthString (.str joined) (entryPath path "maas-oauth") = .ok oauth := by
    have hin := Entries.mem_of_lookup _ _ _ hoauth
    rcases h.settled _ hin with hsettled | ⟨-, -, value, hvalue⟩
    · obtain ⟨v, hv, he⟩ := (keyDictEntry_listed _ _ _ _ _ _ hschema).mp hsettled
      obtain ⟨-, rfl⟩ := Prod.mk.inj he
      obtain ⟨joined', hjoined', hagain⟩ := oauthString_joined _ _ _ hv
      obtain rfl := Except.ok.inj (hjoined'.symm.trans hjoined)
      exact hagain
    · obtain ⟨joined', hjoined', hagain⟩ := oauthString_joined _ _ _ hvalue
      obtain rfl := Except.ok.inj (hjoined'.symm.trans hjoined)
      exact hagain
  have hentry := (keyDictEntry_listed maasSchema path _ _ (.str joined) _ hschema).mpr
    ⟨oauth, hagain, rfl⟩
  have hsettled (e : Key × Value) (he : e ∈ config) (hne : e.1 ≠ .str "maas-oauth") :
      keyDictEntry maasSchema path e = .ok e :=
    (h.settled e he).resolve_right fun hmaas => hne hmaas.2.1
  refine ⟨?_, ?_, ?_⟩
  · intro e he hauth
    rcases (Entries.mem_assign _ _ _ _).mp he with rfl | ⟨hin, hne⟩
    · exact ⟨oauth, hentry⟩
    · exact ⟨e.2, hsettled e (hmem e hin hauth) hne⟩
  · intro key hauth v v' hv hok
    rw [Entries.lookup_assign] at hv
    split at hv
    · rename_i hkey
      subst hkey
      obtain rfl := Option.some.inj hv
      obtain ⟨-, rfl⟩ := Prod.mk.inj (Except.ok.inj (hentry.symm.trans hok))
      exact Or.inl hoauth
    · rename_i hkey
      have hconfig : config.lookup key = some v := (hlookup key hauth).symm.trans hv
      have hsame := hsettled (key, v) (Entries.mem_of_lookup _ _ _ hconfig) hkey
      obtain ⟨-, rfl⟩ := Prod.mk.inj (Except.ok.inj (hsame.symm.trans hok))
      exact Or.inl hconfig
  · intro key hauth hnone
    rw [Entries.lookup_assign] at hnone
    split at hnone
    · cases hnone
    · exact (hlookup key hauth).symm.trans hnone

theorem serialized_dummy :
    Serialized .dummy path config (Entries.assign (.str "dynamicduck") (.str "magic") config) := by
  have hentry (e : Key × Value) : keyDictEntry ProviderType.dummy.schema path e = .ok e :=
    keyDictEntry_unlisted _ _ _ fun _ _ => rfl
  refine ⟨fun e _ _ => ⟨e.2, hentry e⟩, ?_, ?_⟩
  · intro key _ v v' hv hok
    obtain ⟨-, rfl⟩ := Prod.mk.inj (Except.ok.inj ((hentry (key, v)).symm.trans hok))
    rw [Entries.lookup_assign] at hv
    split at hv
    · rename_i hkey
      exact Or.inr (Or.inr ⟨rfl, hkey⟩)
    · exact Or.inl hv
  · intro key _ hnone
    rw [Entries.lookup_assign] at hnone
    split at hnone
    · cases hnone
    · exact hnone

/-- What the provider of an accepted configuration gives to be serialized. -/
theorem getSerializationData_serialized (haws : AwsCredentials host) (h : Accepted t path config)
    (hprovider : machineProvider host config t = .ok ())
    (hdata : getSerializationData host config t = .ok data) : Serialized t path config data := by
  cases t with
  | ec2 =>
    obtain ⟨base, hbase, hrest⟩ := except_bind_ok _ _ _ hdata
    obtain rfl := Except.ok.inj hrest
    obtain ⟨-, -, hclients⟩ := except_bind_ok _ _ _ hprovider
    obtain ⟨haccess, hsecret⟩ : (config.lookup (.str "access-key") = none →
          host.environ "AWS_ACCESS_KEY_ID" ≠ none) ∧
        (config.lookup (.str "secret-key") = none →
          host.environ "AWS_SECRET_ACCESS_KEY" ≠ none) := by
      unfold clients at hclients
      split at hclients
      · rename_i hmade
        obtain ⟨haccess, hsecret⟩ := haws _ _ _ _ hmade
        refine ⟨fun hnone => haccess.resolve_left ?_, fun hnone => hsecret.resolve_left ?_⟩
        · rw [get, hnone]
          decide
        · rw [get, hnone]
          decide
      · cases hclients
    obtain ⟨hlookup, hmem⟩ := baseSerializationData_ok host config base hbase
    have hsame := serialized_same .ec2 path config base h (by decide) hlookup hmem
    have hfirst := serialized_setDefault path host config base hsame "access-key"
      "AWS_ACCESS_KEY_ID" (Or.inl rfl) haccess
    exact serialized_setDefault path host config _ hfirst "secret-key" "AWS_SECRET_ACCESS_KEY"
      (Or.inr rfl) hsecret
  | orchestra =>
    obtain ⟨hlookup, hmem⟩ := baseSerializationData_ok host config data hdata
    exact serialized_same .orchestra path config data h (by decide) hlookup hmem
  | maas =>
    obtain ⟨base, hbase, hrest⟩ := except_bind_ok _ _ _ hdata
    obtain ⟨hlookup, hmem⟩ := baseSerializationData_ok host config base hbase
    cases hoauth : config.lookup (.str "maas-oauth") with
    | none =>
      rw [hoauth] at hrest
      cases hrest
    | some oauth =>
      rw [hoauth] at hrest
      obtain ⟨joined, hjoined, hout⟩ := except_bind_ok _ _ _ hrest
      obtain rfl := Except.ok.inj hout
      exact serialized_maas path config base h hlookup hmem oauth hoauth joined hjoined
  | «local» =>
    obtain ⟨hlookup, hmem⟩ := baseSerializationData_ok host config data hdata
    exact serialized_same .local path config data h (by decide) hlookup hmem
  | dummy =>
    obtain rfl := Except.ok.inj hdata
    exact serialized_dummy path config

end providers

end Juju.Config

import Juju.Config.SerializedConfig

namespace Juju.Config
open Juju.Base Juju.Lib

/-- What YAML makes of what is dumped and loaded again: a dictionary whose keys are given back is
loaded with its values as they are given back. -/
structure Reloads {Text : Type} (yaml : Yaml Text) (reloaded : Value → Value)
    (reloadedKey : Key → Key) : Prop where
  load : ∀ value text, yaml.safeDump value = some text → yaml.load text = some (reloaded value)
  dict : ∀ d : Entries, (∀ e ∈ d, reloadedKey e.1 = e.1) →
    reloaded (.dict d) = .dict (d.map fun e => (e.1, reloaded e.2))

/-- YAML gives back the keys and the values that are serialized; for the authorized keys, and for
what else is in the file beside the default, it need not be so. -/
structure Survives (reloaded : Value → Value) (reloadedKey : Key → Key) (config : Entries)
    (name : String) (data : Entries) : Prop where
  keys : ∀ e ∈ config, reloadedKey e.1 = e.1
  default : ∀ e ∈ config, e.1 = .str "default" → reloaded e.2 = e.2
  name : reloadedKey (.str name) = .str name
  dataKeys : ∀ e ∈ data, reloadedKey e.1 = e.1
  values : ∀ e ∈ data, e.1 ∉ authorizedKeys → reloaded e.2 = e.2

section environment

variable (t : ProviderType) (path : List String) (config data : Entries)
  (reloaded : Value → Value)

/-- The data are accepted where they are loaded, and the entries are those of the configuration. -/
theorem serialized_accepted (h : Serialized t path config data) (haccepted : Accepted t path config)
    (hvalues : ∀ e ∈ data, e.1 ∉ authorizedKeys → reloaded e.2 = e.2) :
    ∃ loaded, environmentSchema (.dict (data.map fun e => (e.1, reloaded e.2))) path =
        .ok (.dict loaded) ∧
      ∀ key, key ∉ authorizedKeys →
        loaded.lookup key = config.lookup key ∨ Added t config key := by
  have hauthorized (e : Key × Value) (he : e.1 ∈ authorizedKeys) :
      keyDictEntry t.schema path e = .ok e := by
    obtain ⟨key, v⟩ := e
    simp only [authorizedKeys, List.mem_cons, List.not_mem_nil, or_false] at he
    rcases he with rfl | rfl
    · exact entry_unlisted t path _ v (schema_unlisted t _ (by simp))
    · exact entry_unlisted t path _ v (schema_unlisted t _ (by simp))
  have hentries : ∀ e ∈ data.map fun e => (e.1, reloaded e.2),
      ∃ e', keyDictEntry t.schema path e = .ok e' := by
    intro e he
    obtain ⟨e, hin, rfl⟩ := List.mem_map.mp he
    by_cases hkey : e.1 ∈ authorizedKeys
    · exact ⟨_, hauthorized _ hkey⟩
    · rw [hvalues e hin hkey]
      obtain ⟨v, hv⟩ := h.accepted e hin hkey
      exact ⟨_, hv⟩
  obtain ⟨loaded, hloaded⟩ := Entries.exists_forall₂ _ _ hentries
  have hreload (key : Key) : (data.map fun e => (e.1, reloaded e.2)).lookup key =
      (data.lookup key).map reloaded := Entries.lookup_map data key fun _ => reloaded
  have hsame (key : Key) (hkey : key ∉ authorizedKeys) :
      (data.map fun e => (e.1, reloaded e.2)).lookup key = data.lookup key := by
    rw [hreload]
    cases hv : data.lookup key with
    | none => rfl
    | some v => rw [Option.map_some, hvalues (key, v) (Entries.mem_of_lookup _ _ _ hv) hkey]
  have hlookup := lookup_entries _ _ _ loaded hloaded
  have hfinal : ∀ key, key ∉ authorizedKeys →
      loaded.lookup key = config.lookup key ∨ Added t config key := by
    intro key hkey
    rcases hlookup key with ⟨hnone, hloadednone⟩ | ⟨v, v', hv, hv', hentry⟩
    · rw [hsame key hkey] at hnone
      exact Or.inl (hloadednone.trans (h.kept key hkey hnone).symm)
    · rw [hsame key hkey] at hv
      refine (h.same key hkey v v' hv hentry).imp_left fun hconfig => ?_
      rw [hv', hconfig]
  refine ⟨loaded, ?_, hfinal⟩
  refine (environmentSchema_ok_iff _ _ _).mpr ⟨_, t, rfl, ?_, ?_⟩
  · rw [hsame _ (by decide)]
    cases hv : data.lookup (.str "type") with
    | none =>
      have hnone := h.kept _ (by decide) hv
      rw [haccepted.type] at hnone
      cases hnone
    | some v =>
      have hentry := entry_unlisted t path "type" v (schema_unlisted t "type" (by simp))
      rcases h.same _ (by decide) v v hv hentry with hconfig | hadded
      · exact hconfig.symm.trans haccepted.type
      · rcases hadded with ⟨-, hkey | hkey, -⟩ | ⟨-, hkey⟩ <;> exact absurd hkey (by decide)
  · refine (keyDict_ok_iff _ _ _ _ _).mpr ⟨_, loaded, rfl, rfl, hloaded, ?_⟩
    intro e he hrequired hnone
    have hkey : Key.str e.1 ∉ authorizedKeys := by
      intro hin
      have hunlisted : t.schema.lookup e.1 = none := by
        simp only [authorizedKeys, List.mem_cons, List.not_mem_nil, or_false, Key.str.injEq] at hin
        exact schema_unlisted t e.1 (by rcases hin with h | h <;> simp [h])
      have hlisted := List.lookup_eq_none_iff.mp hunlisted e he
      simp at hlisted
    rw [hsame _ hkey] at hnone
    exact haccepted.required e he hrequired (h.kept _ hkey hnone)

end environment

section parse

variable {Text : Type} (yaml : Yaml Text) (content : Text) (config : Entries)

theorem parse_schema (h : parse yaml content = .ok config) :
    ∃ raw, configSchema (.dict raw) [] = .ok (.dict config) := by
  unfold parse at h
  split at h
  · cases h
  · rename_i raw hload
    split at h
    · rename_i d hd
      exact ⟨raw, Except.ok.inj h ▸ hd⟩
    all_goals cases h
  · cases h

/-- The default that `parse` accepts is a string. -/
theorem parse_default (h : parse yaml content = .ok config) (v : Value)
    (hv : (Key.str "default", v) ∈ config) : string v ["default"] = .ok v := by
  obtain ⟨raw, hraw⟩ := parse_schema yaml content config h
  obtain ⟨raw', config', -, hconfig, hentries, -⟩ := (keyDict_ok_iff _ _ _ _ _).mp hraw
  obtain rfl := Value.dict.inj hconfig
  obtain ⟨⟨key, v₀⟩, -, he⟩ := Entries.mem_forall₂_right _ _ _ hentries _ hv
  obtain rfl := keyDictEntry_key _ _ _ _ he
  obtain ⟨v', hv', hpair⟩ := (keyDictEntry_listed _ _ _ _ _ _ rfl).mp he
  obtain ⟨-, rfl⟩ := Prod.mk.inj hpair
  have hsame := string_checks _ _ _ hv'
  subst hsame
  exact hv'

/-- An environment that `parse` accepts is accepted by the schema of its type. -/
theorem parse_environment (h : parse yaml content = .ok config) (name : String)
    (environment : Environment) (henv : getEnvironment config name = some environment) :
    environment.name = name ∧ ∃ t, environment.providerType = .ok t ∧
      Accepted t (entryPath ["environments"] name) environment.config := by
  obtain ⟨raw, hraw⟩ := parse_schema yaml content config h
  obtain ⟨raw', config', -, hconfig, hentries, -⟩ := (keyDict_ok_iff _ _ _ _ _).mp hraw
  obtain rfl := Value.dict.inj hconfig
  unfold getEnvironment at henv
  split at henv
  · rename_i found hfound
    obtain rfl := Option.some.inj henv
    refine ⟨rfl, ?_⟩
    have hin := Entries.mem_of_lookup _ _ _ hfound
    unfold environments at hin
    split at hin
    · rename_i envs henvs
      obtain ⟨⟨key, v₀⟩, -, he⟩ := Entries.mem_forall₂_right _ _ _ hentries _
        (Entries.mem_of_lookup _ _ _ henvs)
      obtain rfl := keyDictEntry_key _ _ _ _ he
      obtain ⟨v', hv', hpair⟩ := (keyDictEntry_listed _ _ _ _ _ _ rfl).mp he
      obtain ⟨-, rfl⟩ := Prod.mk.inj hpair
      obtain ⟨d, envs', rfl, hdict, hall⟩ := (stringDict_ok_iff _ _ _ _).mp hv'
      obtain rfl := Value.dict.inj hdict
      obtain ⟨e, -, name', v, hkey, hpair, hschema⟩ :=
        Entries.mem_forall₂_right _ _ _ hall _ hin
      obtain ⟨hname, rfl⟩ := Prod.mk.inj hpair
      obtain rfl := Key.str.inj hname
      obtain ⟨d', t, hvalue, htype, hkeyDict⟩ := (environmentSchema_ok_iff _ _ _).mp hschema
      obtain ⟨accepted, hdict, haccepted⟩ := accepted_keyDict t _ d' _ hkeyDict htype
      obtain rfl := Value.dict.inj hdict
      refine ⟨t, ?_, haccepted⟩
      have hname : ProviderType.ofName t.name = some t := by
        cases t <;> rfl
      simp [Environment.providerType, haccepted.type, hname]
    · cases hin
  · cases henv

/-- Only the one environment is serialized, also where the name is empty and it is the only one. -/
theorem serialize_one (host : Host) (name : String) (environment : Environment)
    (henv : getEnvironment config name = some environment)
    (hname : name = "" → (environments config).length = 1) (text : Text)
    (h : serialize yaml host config name = .ok text) :
    ∃ data, environment.serializationData host = .ok data ∧
      yaml.safeDump (.dict (Entries.assign (.str "environments")
        (.dict [(.str name, .dict data)]) config)) = some text := by
  have hnames : (if name = "" then getNames config else [name]) = [name] := by
    split
    · rename_i hempty
      obtain ⟨e, he⟩ := List.length_eq_one_iff.mp (hname hempty)
      have hkey : e.1 = .str name := by
        by_contra hne
        have hnone : (environments config).lookup (.str name) = none := by
          rw [he, Entries.lookup_cons, if_neg fun hsame => hne hsame.symm]
          rfl
        simp [getEnvironment, hnone] at henv
      simp [getNames, he, hkey]
    · rfl
  unfold serialize at h
  rw [hnames] at h
  obtain ⟨serialized, hserialized, hdump⟩ := except_bind_ok _ _ _ h
  rw [List.foldlM_cons] at hserialized
  obtain ⟨one, hone, hrest⟩ := except_bind_ok _ _ _ hserialized
  obtain rfl := Except.ok.inj hrest
  unfold serializeEnvironment at hone
  rw [henv] at hone
  obtain ⟨data, hdata, hassign⟩ := except_bind_ok _ _ _ hone
  obtain rfl := Except.ok.inj hassign
  refine ⟨data, hdata, ?_⟩
  split at hdump
  · rename_i found hfound
    obtain rfl := Except.ok.inj hdump
    exact hfound
  · cases hdump

/-- A file with one environment that is accepted, and a default that is a string, is parsed. -/
theorem parse_one (text : Text) (name : String) (top loaded : Entries) (value : Value)
    (hload : yaml.load text = some (.dict top))
    (htop : ∀ e ∈ top, (e.1 = .str "environments" ∧ e.2 = .dict [(.str name, value)]) ∨
      (e.1 = .str "default" ∧ string e.2 ["default"] = .ok e.2) ∨
      (e.1 ≠ .str "environments" ∧ e.1 ≠ .str "default"))
    (hin : top.lookup (.str "environments") ≠ none)
    (henvironment : environmentSchema value (entryPath ["environments"] name) =
      .ok (.dict loaded)) :
    ∃ config', parse yaml text = .ok config' ∧ getDefault config' = .ok (some ⟨name, loaded⟩) := by
  have hdict : stringDict environmentSchema (.dict [(.str name, value)]) ["environments"] =
      .ok (.dict [(.str name, .dict loaded)]) :=
    (stringDict_ok_iff _ _ _ _).mpr
      ⟨_, _, rfl, rfl, .cons ⟨name, .dict loaded, rfl, rfl, henvironment⟩ .nil⟩
  have hentry : ∀ e ∈ top, ∃ e', keyDictEntry
      [("default", string), ("environments", stringDict environmentSchema)] [] e = .ok e' := by
    rintro ⟨key, v⟩ he
    rcases htop _ he with ⟨rfl, rfl⟩ | ⟨rfl, hstring⟩ | ⟨henvs, hdefault⟩
    · exact ⟨_, (keyDictEntry_listed _ _ _ _ _ _ rfl).mpr ⟨_, hdict, rfl⟩⟩
    · exact ⟨_, (keyDictEntry_listed _ _ _ _ _ _ rfl).mpr ⟨_, hstring, rfl⟩⟩
    · refine ⟨_, keyDictEntry_unlisted _ _ _ ?_⟩
      rintro key' rfl
      have hne : key' ≠ "default" ∧ key' ≠ "environments" :=
        ⟨fun h => hdefault (congrArg Key.str h), fun h => henvs (congrArg Key.str h)⟩
      rw [Entries.lookup_cons, if_neg hne.1, Entries.lookup_cons, if_neg hne.2]
      rfl
  obtain ⟨config', hconfig⟩ := Entries.exists_forall₂ _ _ hentry
  have hparsed : configSchema (.dict top) [] = .ok (.dict config') := by
    refine (keyDict_ok_iff _ _ _ _ _).mpr ⟨top, config', rfl, rfl, hconfig, ?_⟩
    intro e he hrequired
    simp only [List.mem_cons, List.not_mem_nil, or_false] at he
    rcases he with rfl | rfl
    · exact absurd (List.mem_singleton.mpr rfl) hrequired
    · exact hin
  have henvs : environments config' = [(.str name, .dict loaded)] := by
    rcases lookup_entries _ _ _ _ hconfig (.str "environments") with ⟨hnone, -⟩ |
      ⟨v, v', hv, hv', hok⟩
    · exact absurd hnone hin
    · have hvalue : v = .dict [(.str name, value)] := by
        rcases htop _ (Entries.mem_of_lookup _ _ _ hv) with ⟨-, hvalue⟩ | ⟨hkey, -⟩ | ⟨hkey, -⟩
        · exact hvalue
        · exact absurd (Key.str.inj hkey) (by decide)
        · exact absurd rfl hkey
      subst hvalue
      obtain ⟨v₁, hv₁, hpair⟩ := (keyDictEntry_listed _ _ _ _ _ _ rfl).mp hok
      obtain ⟨-, rfl⟩ := Prod.mk.inj hpair
      obtain rfl := Except.ok.inj (hdict.symm.trans hv₁)
      simp [environments, hv']
  refine ⟨config', ?_, ?_⟩
  · simp [parse, hload, hparsed]
  · simp [getDefault, henvs, getKey, getEnvironment]

end parse

/-- An environment that is serialized can be loaded where it is deployed. -/
theorem serialized_environment_loads {Text : Type} (yaml : Yaml Text) (host : Host)
    (reloaded : Value → Value) (reloadedKey : Key → Key)
    (hreloads : Reloads yaml reloaded reloadedKey) (haws : AwsCredentials host)
    (content : Text) (config : Entries) (hparse : parse yaml content = .ok config)
    (name : String) (environment : Environment)
    (henv : getEnvironment config name = some environment)
    (hname : name = "" → (environments config).length = 1) (data : Entries)
    (hdata : environment.serializationData host = .ok data)
    (hsurvives : Survives reloaded reloadedKey config name data) (text : Text)
    (hserialize : serialize yaml host config name = .ok text) :
    ∃ t config' environment', environment.providerType = .ok t ∧ parse yaml text = .ok config' ∧
      getDefault config' = .ok (some environment') ∧ environment'.name = name ∧
      ∀ key, key ∉ authorizedKeys →
        environment'.config.lookup key = environment.config.lookup key ∨
          Added t environment.config key := by
  obtain ⟨-, t, ht, haccepted⟩ :=
    parse_environment yaml content config hparse name environment henv
  have hserialized : Serialized t (entryPath ["environments"] name) environment.config data := by
    unfold Environment.serializationData at hdata
    obtain ⟨t', ht', hrest⟩ := except_bind_ok _ _ _ hdata
    obtain rfl := Except.ok.inj (ht.symm.trans ht')
    obtain ⟨_, hprovider, hrest⟩ := except_bind_ok _ _ _ hrest
    exact getSerializationData_serialized t _ host _ data haws haccepted hprovider hrest
  obtain ⟨loaded, hloaded, hlookup⟩ :=
    serialized_accepted t _ _ data reloaded hserialized haccepted hsurvives.values
  obtain ⟨data', hdata', hdump⟩ := serialize_one yaml config host name environment henv hname
    text hserialize
  obtain rfl := Except.ok.inj (hdata.symm.trans hdata')
  have henvironments : config.lookup (.str "environments") ≠ none := by
    intro hnone
    simp [getEnvironment, environments, hnone] at henv
  have hkeys : ∀ e ∈ Entries.assign (.str "environments") (.dict [(.str name, .dict data)]) config,
      reloadedKey e.1 = e.1 := by
    intro e he
    rcases (Entries.mem_assign _ _ _ _).mp he with rfl | ⟨hin, -⟩
    · obtain ⟨e, hin, hkey⟩ := (Entries.lookup_ne_none _ _).mp henvironments
      exact hkey ▸ hsurvives.keys e hin
    · exact hsurvives.keys e hin
  have hvalue : reloaded (.dict [(.str name, .dict data)]) =
      .dict [(.str name, .dict (data.map fun e => (e.1, reloaded e.2)))] := by
    rw [hreloads.dict _ (by simpa using hsurvives.name), List.map_singleton,
      hreloads.dict data hsurvives.dataKeys]
  have hload := hreloads.load _ text hdump
  rw [hreloads.dict _ hkeys] at hload
  have htop : ∀ e ∈ (Entries.assign (.str "environments") (.dict [(.str name, .dict data)])
      config).map fun e => (e.1, reloaded e.2),
      (e.1 = .str "environments" ∧
        e.2 = .dict [(.str name, .dict (data.map fun e => (e.1, reloaded e.2)))]) ∨
      (e.1 = .str "default" ∧ string e.2 ["default"] = .ok e.2) ∨
      (e.1 ≠ .str "environments" ∧ e.1 ≠ .str "default") := by
    intro e he
    obtain ⟨e, hin, rfl⟩ := List.mem_map.mp he
    rcases (Entries.mem_assign _ _ _ _).mp hin with rfl | ⟨hold, hne⟩
    · exact Or.inl ⟨rfl, hvalue⟩
    · by_cases hkey : e.1 = .str "default"
      · refine Or.inr (Or.inl ⟨hkey, ?_⟩)
        rw [hsurvives.default e hold hkey]
        exact parse_default yaml content config hparse e.2 (hkey ▸ hold)
      · exact Or.inr (Or.inr ⟨hne, hkey⟩)
  have hin : ((Entries.assign (.str "environments") (.dict [(.str name, .dict data)])
      config).map fun e => (e.1, reloaded e.2)).lookup (.str "environments") ≠ none := by
    rw [Entries.lookup_map _ _ fun _ => reloaded, Entries.lookup_assign, if_pos rfl]
    exact Option.some_ne_none _
  obtain ⟨config', hparsed, hdefault⟩ := parse_one yaml text name _ loaded _ hload htop hin hloaded
  exact ⟨t, config', _, ht, hparsed, hdefault, rfl, hlookup⟩

/-- The one text here that is not ASCII, by its bytes. -/
def loadedText (s : String) : Value := if s = "\u00c3\u00a9" then .unicode "\u00e9" else .str s

mutual

/-- What a value is loaded as when it has been dumped. -/
def loadedValue : Value → Value
  | .str s => loadedText s
  | .dict d => .dict (loadedEntries d)
  | value => value

def loadedEntries : List (Key × Value) → List (Key × Value)
  | [] => []
  | e :: d => loadedEntry e :: loadedEntries d

def loadedEntry : Key × Value → Key × Value
  | (key, value) => (key, loadedValue value)

end

/-- YAML, where a document stands for what it is loaded as. -/
def documents : Yaml Value := ⟨some, fun value => some (loadedValue value)⟩

theorem documents_reloads : Reloads documents loadedValue id := by
  refine ⟨fun value text h => congrArg some (Option.some.inj h).symm, fun d hkeys => ?_⟩
  clear hkeys
  have hentries : loadedEntries d = d.map fun e => (e.1, loadedValue e.2) := by
    induction d with
    | nil => rfl
    | cons e d ih => rw [loadedEntries, ih, List.map_cons, loadedEntry]
  rw [loadedValue, hentries]

/-- A process without credentials in its environment. -/
def remoteHost : Host where
  environ _ := none
  expanduser path := path
  pathExists _ := true
  readFile _ := some "ssh-rsa"
  awsServiceRegion accessKey secretKey _ _ := accessKey.truthy && secretKey.truthy
  orchestraClients _ := true
  maasClients _ := true
  localDirectory _ := true

theorem remoteHost_credentials : AwsCredentials remoteHost := by
  intro accessKey secretKey _ _ h
  obtain ⟨haccess, hsecret⟩ := Bool.and_eq_true_iff.mp h
  exact ⟨Or.inl haccess, Or.inl hsecret⟩

def environmentsFile (environments : Entries) : Value :=
  .dict [(.str "environments", .dict environments)]

def maasConfig (oauth : Value) : Entries :=
  [(.str "type", .str "maas"), (.str "maas-server", .str "http://maas"), (.str "maas-oauth", oauth),
    (.str "admin-secret", .str "secret"), (.str "default-series", .str "precise")]

/-- What is serialized of it. -/
def maasData : Entries :=
  [(.str "maas-oauth", .str "a:b:c"), (.str "authorized-keys", .str "ssh-rsa"),
    (.str "type", .str "maas"), (.str "maas-server", .str "http://maas"),
    (.str "admin-secret", .str "secret"), (.str "default-series", .str "precise")]

/-- The parts of the credentials of MAAS are what they were. -/
theorem serialized_environment_loads_maas : ∃ config' environment',
    getDefault config' = .ok (some environment') ∧ environment'.name = "remote" ∧
      environment'.config.lookup (.str "maas-oauth") =
        some (.tuple [.str "a", .str "b", .str "c"]) := by
  have hparse : parse documents
      (environmentsFile [(.str "remote", .dict (maasConfig (.str "a:b:c")))]) =
        .ok [(.str "environments", .dict [(.str "remote",
          .dict (maasConfig (.tuple [.str "a", .str "b", .str "c"])))])] := rfl
  have hdata : Environment.serializationData remoteHost
      ⟨"remote", maasConfig (.tuple [.str "a", .str "b", .str "c"])⟩ = .ok maasData := rfl
  have hsurvives : Survives loadedValue id [(.str "environments", .dict [(.str "remote",
      .dict (maasConfig (.tuple [.str "a", .str "b", .str "c"])))])] "remote" maasData := by
    refine ⟨fun _ _ => rfl, ?_, rfl, fun _ _ => rfl, ?_⟩
    · intro e he hkey
      rw [List.mem_singleton.mp he] at hkey
      exact absurd (Key.str.inj hkey) (by decide)
    · intro e he _
      simp only [maasData, List.mem_cons, List.not_mem_nil, or_false] at he
      rcases he with rfl | rfl | rfl | rfl | rfl | rfl <;> rfl
  obtain ⟨t, config', environment', ht, -, hdefault, hname, hlookup⟩ :=
    serialized_environment_loads documents remoteHost loadedValue id documents_reloads
      remoteHost_credentials _ _ hparse "remote" _ rfl (by decide) _ hdata hsurvives _ rfl
  refine ⟨config', environment', hdefault, hname, ?_⟩
  obtain rfl : ProviderType.maas = t := Except.ok.inj ht
  rcases hlookup (.str "maas-oauth") (by decide) with hsame | ⟨hec2, -⟩ | ⟨hdummy, -⟩
  · exact hsame
  · cases hec2
  · cases hdummy

def localConfig (secret : String) : Entries :=
  [(.str "type", .str "local"), (.str "data-dir", .str "/data"), (.str "admin-secret", .str secret),
    (.str "default-series", .str "precise")]

def dummyConfig : Entries := [(.str "type", .str "dummy")]

/-- The dummy provider adds a variable of its own; an empty name serializes all environments, which
have no default; and a byte string that is not ASCII is loaded as `unicode`, which is refused. -/
theorem serialized_environment_differs :
    (∃ config text config' environment',
      parse documents (environmentsFile [(.str "remote", .dict dummyConfig)]) = .ok config ∧
      serialize documents remoteHost config "remote" = .ok text ∧
      parse documents text = .ok config' ∧ getDefault config' = .ok (some environment') ∧
      (dummyConfig.lookup (.str "dynamicduck")).isNone = true ∧
      environment'.config.lookup (.str "dynamicduck") = some (.str "magic")) ∧
    (∃ config text config',
      parse documents (environmentsFile [(.str "", .dict dummyConfig),
        (.str "remote", .dict dummyConfig)]) = .ok config ∧
      serialize documents remoteHost config "" = .ok text ∧ parse documents text = .ok config' ∧
      getDefault config' = .error (.environmentsConfigError .noDefault)) ∧
    ∃ config text,
      parse documents (environmentsFile
        [(.str "remote", .dict (localConfig "\u00c3\u00a9"))]) = .ok config ∧
      serialize documents remoteHost config "remote" = .ok text ∧
      parse documents text = .error (.environmentsConfigError (.schema
        ["environments", ".", "remote", ".", "admin-secret"]
        (.expected "string" (.unicode "\u00e9")))) := by
  refine ⟨⟨_, _, _, _, rfl, rfl, rfl, rfl, rfl, rfl⟩, ⟨_, _, _, rfl, rfl, rfl, rfl⟩, _, _, rfl, rfl,
    rfl⟩

end Juju.Config

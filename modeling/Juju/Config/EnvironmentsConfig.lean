import Juju.Config.Schema
import Mathlib.Data.List.Sort

namespace Juju.Config
open Juju.Lib

def eitherPlacement : Schema := oneOf [constant (.str "unassigned"), constant (.str "local")]

def ec2Schema : List (String × Schema) :=
  [("control-bucket", string),
    ("admin-secret", string),
    ("access-key", string),
    ("secret-key", string),
    ("region", oneOf [
      constant (.str "us-east-1"),
      constant (.str "us-west-1"),
      constant (.str "us-west-2"),
      constant (.str "eu-west-1"),
      constant (.str "sa-east-1"),
      constant (.str "ap-northeast-1"),
      constant (.str "ap-southeast-1")]),
    ("ec2-uri", string),
    ("s3-uri", string),
    ("ssl-hostname-verification", oneOf [constant (.bool true), constant (.bool false)]),
    ("placement", eitherPlacement),
    ("default-series", string)]

def ec2Optional : List String :=
  ["access-key", "secret-key", "region", "ec2-uri", "s3-uri", "placement",
    "ssl-hostname-verification"]

def orchestraSchema : List (String × Schema) :=
  [("orchestra-server", string),
    ("orchestra-user", string),
    ("orchestra-pass", string),
    ("admin-secret", string),
    ("acquired-mgmt-class", string),
    ("available-mgmt-class", string),
    ("storage-url", string),
    ("storage-user", string),
    ("storage-pass", string),
    ("placement", eitherPlacement),
    ("default-series", string)]

def orchestraOptional : List String := ["storage-url", "storage-user", "storage-pass", "placement"]

def maasSchema : List (String × Schema) :=
  [("maas-server", string),
    ("maas-oauth", oauthString),
    ("admin-secret", string),
    ("placement", eitherPlacement),
    -- MAAS only provisions precise
    ("default-series", constant (.str "precise"))]

def maasOptional : List String := ["placement"]

def localSchema : List (String × Schema) :=
  [("admin-secret", string),
    ("data-dir", string),
    ("placement", constant (.str "local")),
    ("default-series", string)]

def localOptional : List String := ["placement"]

inductive ProviderType where
  | ec2
  | orchestra
  | maas
  | local
  | dummy
  deriving DecidableEq

namespace ProviderType

def name : ProviderType → String
  | ec2 => "ec2"
  | orchestra => "orchestra"
  | maas => "maas"
  | «local» => "local"
  | dummy => "dummy"

def schema : ProviderType → List (String × Schema)
  | ec2 => ec2Schema
  | orchestra => orchestraSchema
  | maas => maasSchema
  | «local» => localSchema
  | dummy => []

def optional : ProviderType → List String
  | ec2 => ec2Optional
  | orchestra => orchestraOptional
  | maas => maasOptional
  | «local» => localOptional
  | dummy => []

def all : List ProviderType := [ec2, orchestra, maas, «local», dummy]

/-- The provider that `get_callable` finds under a name. -/
def ofName (s : String) : Option ProviderType := all.find? fun t => t.name = s

end ProviderType

def environmentSchema : Schema :=
  selectDict "type" (ProviderType.all.map fun t => (t.name, keyDict t.schema t.optional))

/-- `SCHEMA`. -/
def configSchema : Schema :=
  keyDict [("default", string), ("environments", stringDict environmentSchema)] ["default"]

/-- The reasons for an `EnvironmentsConfigError`. -/
inductive Reason where
  | yaml
  | notDictionary
  | schema (path : List String) (message : SchemaMessage)
  | defaultNotFound (name : Value)
  | noDefault
  | invalidEnvironment (name : String)
  | bothAuthorizedKeys

inductive ConfigError where
  | environmentsConfigError (reason : Reason)
  /-- What is no `SchemaError` and comes out of `parse` as it is. -/
  | raised (r : Raised)
  | importError
  | keyError
  | typeError
  | attributeError
  /-- "SSH authorized/public key not found." -/
  | lookupError
  | ioError
  /-- What the clients that a provider makes for itself raise. -/
  | client
  | representerError

/-- `yaml.load` and `yaml.safe_dump`. -/
structure Yaml (Text : Type) where
  load : Text → Option Value
  safeDump : Value → Option Text

/-- What the providers find around them: the environment of the process, the files, and the clients
that they make for themselves. -/
structure Host where
  environ : String → Option String
  expanduser : String → String
  pathExists : String → Bool
  readFile : String → Option String
  awsServiceRegion : (accessKey secretKey ec2Uri s3Uri : Value) → Bool
  orchestraClients : Entries → Bool
  maasClients : Entries → Bool
  localDirectory : Entries → Bool

/-- `config.get(key, default)`. -/
def get (config : Entries) (key : String) (default : Value) : Value :=
  (config.lookup (.str key)).getD default

def getRegionUri (region : String) : String := "https://ec2." ++ region ++ ".amazonaws.com"

section host

variable (host : Host)

/-- The first of the files that is there, by the name itself or under `~/.ssh`. -/
def findKeys : List String → Except ConfigError Value
  | [] => .error .lookupError
  | keyPath :: keyNames =>
    let path := host.expanduser keyPath
    let path := if host.pathExists path then path else host.expanduser ("~/.ssh/" ++ keyPath)
    if host.pathExists path then
      match host.readFile path with
      | some text => .ok (.str text)
      | none => .error .ioError
    else findKeys keyNames

def getUserAuthorizedKeys (config : Entries) : Except ConfigError Value :=
  if (get config "authorized-keys" .none).truthy then .ok (get config "authorized-keys" .none)
  else if (get config "authorized-keys-path" .none).truthy then
    match get config "authorized-keys-path" .none with
    | .str path => findKeys host [path]
    | .unicode path => findKeys host [path]
    | _ => .error .attributeError
  else findKeys host ["id_dsa.pub", "id_rsa.pub", "identity.pub"]

/-- What the constructor of a `MachineProviderBase` checks. -/
def baseProvider (config : Entries) : Except ConfigError Unit :=
  if (config.lookup (.str "authorized-keys-path")).isSome ∧
      (config.lookup (.str "authorized-keys")).isSome then
    .error (.environmentsConfigError .bothAuthorizedKeys)
  else .ok ()

def clients (made : Bool) : Except ConfigError Unit := if made then .ok () else .error .client

/-- The URI of the region is made of a region that is a string, as the schema has it. -/
def ec2Uri (config : Entries) : Value :=
  if (get config "ec2-uri" .none).truthy then get config "ec2-uri" .none
  else
    match get config "region" (.str "us-east-1") with
    | .str region => .str (getRegionUri region)
    | other => other

/-- The constructors of the providers. -/
def machineProvider (config : Entries) : ProviderType → Except ConfigError Unit
  | .ec2 => do
    baseProvider config
    clients (host.awsServiceRegion (get config "access-key" (.str ""))
      (get config "secret-key" (.str "")) (ec2Uri config) (get config "s3-uri" (.str "")))
  | .orchestra => do
    baseProvider config
    clients (host.orchestraClients config)
  | .maas => do
    baseProvider config
    clients (host.maasClients config)
  | .local => do
    baseProvider config
    clients (host.localDirectory config)
  | .dummy => .ok ()

/-- `MachineProviderBase.get_serialization_data`. -/
def baseSerializationData (config : Entries) : Except ConfigError Entries := do
  let keys ← getUserAuthorizedKeys host config
  pure (Entries.without (.str "authorized-keys-path")
    (Entries.assign (.str "authorized-keys") keys config))

/-- `data.setdefault(key, os.environ.get(environKey))`. -/
def setDefault (data : Entries) (key environKey : String) : Entries :=
  if (data.lookup (.str key)).isSome then data
  else Entries.assign (.str key) (((host.environ environKey).map .str).getD .none) data

def joinTexts (texts : List String) : String :=
  String.ofList ([':'].intercalate (texts.map String.toList))

def textOf : Value → Except ConfigError String
  | .str s => .ok s
  | _ => .error .typeError

/-- `":".join(value)`. -/
def joinParts : Value → Except ConfigError String
  | .tuple parts => join parts
  | .list parts => join parts
  | .str s => .ok (joinTexts (s.toList.map String.singleton))
  | _ => .error .typeError
where
  join (parts : List Value) : Except ConfigError String := do
    pure (joinTexts (← parts.mapM textOf))

/-- The `get_serialization_data` of the providers. -/
def getSerializationData (config : Entries) : ProviderType → Except ConfigError Entries
  | .ec2 => do
    let data ← baseSerializationData host config
    let data := setDefault host data "access-key" "AWS_ACCESS_KEY_ID"
    pure (setDefault host data "secret-key" "AWS_SECRET_ACCESS_KEY")
  | .maas => do
    let data ← baseSerializationData host config
    match config.lookup (.str "maas-oauth") with
    | some oauth => pure (Entries.assign (.str "maas-oauth") (.str (← joinParts oauth)) data)
    | none => throw .keyError
  | .dummy => pure (Entries.assign (.str "dynamicduck") (.str "magic") config)
  | _ => baseSerializationData host config

end host

/-- An `Environment`. -/
structure Environment where
  name : String
  config : Entries

/-- `get_machine_provider`, up to the constructor. -/
def Environment.providerType (environment : Environment) : Except ConfigError ProviderType :=
  match environment.config.lookup (.str "type") with
  | some (.str type) =>
    match ProviderType.ofName type with
    | some t => .ok t
    | none => .error .importError
  | some _ => .error .importError
  | none => .error .keyError

def Environment.serializationData (host : Host) (environment : Environment) :
    Except ConfigError Entries := do
  let t ← environment.providerType
  machineProvider host environment.config t
  getSerializationData host environment.config t

section config

variable {Text : Type} (yaml : Yaml Text)

def parse (content : Text) : Except ConfigError Entries :=
  match yaml.load content with
  | none => .error (.environmentsConfigError .yaml)
  | some (.dict config) =>
    match configSchema (.dict config) [] with
    | .ok (.dict config) => .ok config
    | .ok _ => .error .typeError
    | .error (.schemaError path message) => .error (.environmentsConfigError (.schema path message))
    | .error r => .error (.raised r)
  | some _ => .error (.environmentsConfigError .notDictionary)

/-- `config["environments"]`. -/
def environments (config : Entries) : Entries :=
  match config.lookup (.str "environments") with
  | some (.dict environments) => environments
  | _ => []

/-- The names of the environments, as they are sorted. -/
def getNames (config : Entries) : List String :=
  ((environments config).filterMap fun e =>
    match e.1 with
    | .str name => some name
    | .object _ => none).insertionSort (· ≤ ·)

def getEnvironment (config : Entries) (name : String) : Option Environment :=
  match (environments config).lookup (.str name) with
  | some (.dict environment) => some ⟨name, environment⟩
  | _ => none

/-- `get(key)`, for a key of the dictionary of environments. -/
def getKey (config : Entries) : Key → Option Environment
  | .str name => getEnvironment config name
  | .object _ => none

def getDefault (config : Entries) : Except ConfigError (Option Environment) :=
  match environments config with
  | [e] => .ok (getKey config e.1)
  | names =>
    match get config "default" .none with
    | .str default =>
      if default = "" then .error (.environmentsConfigError .noDefault)
      else if (names.lookup (.str default)).isNone then
        .error (.environmentsConfigError (.defaultNotFound (.str default)))
      else .ok (getEnvironment config default)
    | _ => .error (.environmentsConfigError .noDefault)

/-- The body of the loop of `serialize`. -/
def serializeEnvironment (host : Host) (config : Entries) (serialized : Entries) (name : String) :
    Except ConfigError Entries :=
  match getEnvironment config name with
  | none => .error (.environmentsConfigError (.invalidEnvironment name))
  | some environment => do
    let data ← environment.serializationData host
    pure (Entries.assign (.str name) (.dict data) serialized)

def serialize (host : Host) (config : Entries) (name : String) : Except ConfigError Text := do
  let names := if name = "" then getNames config else [name]
  let serialized ← names.foldlM (serializeEnvironment host config) []
  match yaml.safeDump (.dict (Entries.assign (.str "environments") (.dict serialized) config)) with
  | some text => pure text
  | none => throw .representerError

end config

end Juju.Config

import Juju.Lib.Base64
import Juju.Lib.Text
import Juju.State.NodeACL

namespace Juju.State
open Juju.Base
open Juju.Lib

/-- What the node of a one time password says. A password can be None. -/
structure OtpData where
  name : String
  password : Option String

/-- `yaml.safe_dump` and `yaml.load` of it. -/
structure OtpYaml where
  safeDump : OtpData → String
  load : String → Option OtpData

structure OtpNode where
  data : String
  acl : List ACE

abbrev OtpNodes := String → Option OtpNode

inductive OtpError where
  | notCreated
  | alreadyCreated
  | incorrectPadding
  | valueError
  | nodeExists
  | noNode
  | noAuth
  | yaml

structure OTPPrincipal where
  name : Option String
  password : Option String
  otpName : Option String
  otp : Option String
  path : String

/-- `OTPPrincipal.__init__`. -/
def newOTPPrincipal (path : String) : OTPPrincipal := ⟨none, none, none, none, path⟩

/-- The arguments of `create`, but for the name. -/
structure OtpArguments where
  password : Option String
  otpName : Option String
  otp : Option String

/-- What `_generate_string` gives in the place of each. -/
structure Generated where
  password : String
  otpName : String
  otp : String

/-- `given or generated`. -/
def orGenerated (given : Option String) (generated : String) : String :=
  match given with
  | none | some "" => generated
  | some given => given

/-- The identity that ZooKeeper gives a connection for credentials. -/
def digestIdentity (digest : String → String) (credentials : String) : String :=
  principalName credentials ++ ":" ++ digest credentials

def Readable (acl : List ACE) (identities : List String) : Prop :=
  ∃ ace ∈ acl, (ace.scheme = "world" ∨ ace.id ∈ identities) ∧ ace.Allows .read

instance (acl : List ACE) (identities : List String) : Decidable (Readable acl identities) :=
  inferInstanceAs (Decidable (∃ ace ∈ acl, _))

section otp

variable (yaml : OtpYaml) (digest : String → String)

/-- `_check`. -/
def OTPPrincipal.check (p : OTPPrincipal) : Except OtpError String :=
  match p.name with
  | none | some "" => .error .notCreated
  | some name => .ok name

/-- `OTPPrincipal.get_token`. -/
def OTPPrincipal.getToken (p : OTPPrincipal) : Except OtpError String := do
  let name ← p.check
  .ok (State.getToken digest name (p.password.getD "None"))

/-- `OTPPrincipal.create`. ZooKeeper puts a sequence number, which no node has, to the path. -/
def OTPPrincipal.create (p : OTPPrincipal) (name : String) (args : OtpArguments)
    (generated : Generated) (extraOtpAce : Option ACE) (sequence : String) (nodes : OtpNodes) :
    Except OtpError (OTPPrincipal × OtpNodes) :=
  if p.name.getD "" ≠ "" then .error .alreadyCreated
  else
    let password := orGenerated args.password generated.password
    let otpName := orGenerated args.otpName generated.otpName
    let otp := orGenerated args.otp generated.otp
    let acl := makeAce (State.getToken digest otpName otp) .read [] :: extraOtpAce.toList
    let path := p.path ++ sequence
    if (nodes path).isSome then .error .nodeExists
    else .ok (⟨some name, some password, some otpName, some otp, path⟩,
      Function.update nodes path (some ⟨yaml.safeDump ⟨name, args.password⟩, acl⟩))

/-- `OTPPrincipal.serialize`. -/
def OTPPrincipal.serialize (p : OTPPrincipal) : String :=
  b64encode (p.path ++ ":" ++ p.otpName.getD "None" ++ ":" ++ p.otp.getD "None")

/-- `OTPPrincipal.consume`, on a connection that has `identities`. The node it deletes is under one
that is open. -/
def consume (otpData : String) (identities : List String) (nodes : OtpNodes) :
    Except OtpError (String × Option String) × OtpNodes :=
  match b64decode otpData with
  | none => (.error .incorrectPadding, nodes)
  | some text =>
    match cutFirst ':' text.toList with
    | none => (.error .valueError, nodes)
    | some (path, credentials) =>
      let identities := digestIdentity digest (String.ofList credentials) :: identities
      match nodes (String.ofList path) with
      | none => (.error .noNode, nodes)
      | some node =>
        if Readable node.acl identities then
          match yaml.load node.data with
          | none => (.error .yaml, nodes)
          | some principalData => (.ok (principalData.name, principalData.password),
              Function.update nodes (String.ofList path) none)
        else (.error .noAuth, nodes)

/-- What is consumed is the password of the principal, and is consumed once. -/
def ConsumedOnce (p : OTPPrincipal) (name : String) (identities : List String) (nodes : OtpNodes) :
    Prop :=
  ∃ password, (consume yaml digest p.serialize identities nodes).1 = .ok (name, some password) ∧
    p.getToken digest = .ok (State.getToken digest name password) ∧
    (consume yaml digest p.serialize identities nodes).2 p.path = none ∧
    (consume yaml digest p.serialize identities
      (consume yaml digest p.serialize identities nodes).2).1 = .error .noNode

theorem getToken_digestIdentity (name password : String) :
    State.getToken digest name password = digestIdentity digest (name ++ ":" ++ password) :=
  getToken_eq digest name password

/-- The name of credentials ends at the first colon, wherever that is. -/
theorem principalName_credentials (name password : String) :
    principalName (name ++ ":" ++ password) = principalName name := by
  have htake (l rest : List Char) :
      (l ++ ':' :: rest).takeWhile (· ≠ ':') = l.takeWhile (· ≠ ':') := by
    induction l with
    | nil => simp
    | cons c l ih =>
      by_cases hc : c = ':'
      · simp [hc]
      · simpa [hc] using ih
  have hlist : (name ++ ":" ++ password).toList = name.toList ++ ':' :: password.toList := by simp
  rw [principalName, principalName, hlist, htake]

/-- Two passwords of a name have one token where they have one digest. -/
theorem getToken_password (name password password' : String) :
    State.getToken digest name password = State.getToken digest name password' ↔
      digest (name ++ ":" ++ password) = digest (name ++ ":" ++ password') := by
  rw [getToken_eq, getToken_eq, principalName_credentials, principalName_credentials]
  simp

theorem cutFirst_serialized (path otpName otp : String) (hpath : ':' ∉ path.toList) :
    cutFirst ':' (path ++ ":" ++ otpName ++ ":" ++ otp).toList =
      some (path.toList, (otpName ++ ":" ++ otp).toList) := by
  rw [cutFirst_eq_some]
  exact ⟨by simp, hpath⟩

theorem makeAce_readable (token : String) (identities : List String) (acl : List ACE)
    (h : token ∈ identities) : Readable (makeAce token .read [] :: acl) identities :=
  ⟨_, List.mem_cons_self, Or.inr h, makeAce_read token⟩

variable (name : String) (args : OtpArguments) (generated : Generated) (extraOtpAce : Option ACE)
  (sequence : String) (nodes nodes' : OtpNodes) (p₀ p : OTPPrincipal)

/-- What is created. -/
theorem create_ok (hcreate : p₀.create yaml digest name args generated extraOtpAce sequence nodes =
    .ok (p, nodes')) : ∃ otpName otp, p = ⟨some name, some (orGenerated args.password
        generated.password), some otpName, some otp, p.path⟩ ∧
      nodes' p.path = some ⟨yaml.safeDump ⟨name, args.password⟩,
        makeAce (State.getToken digest otpName otp) .read [] :: extraOtpAce.toList⟩ := by
  unfold OTPPrincipal.create at hcreate
  split at hcreate
  · cases hcreate
  · dsimp only at hcreate
    split at hcreate
    · cases hcreate
    · cases hcreate
      exact ⟨_, _, rfl, Function.update_self ..⟩

/-- The credentials that were serialized open the node, and what it says is returned. -/
theorem consume_created (hcreate : p₀.create yaml digest name args generated extraOtpAce sequence
      nodes = .ok (p, nodes')) (hpath : ':' ∉ p.path.toList)
    (hyaml : yaml.load (yaml.safeDump ⟨name, args.password⟩) = some ⟨name, args.password⟩)
    (identities : List String) :
    consume yaml digest p.serialize identities nodes' =
      (.ok (name, args.password), Function.update nodes' p.path none) := by
  obtain ⟨otpName, otp, hp, hnode⟩ := create_ok yaml digest name args generated extraOtpAce sequence
    nodes nodes' p₀ p hcreate
  have hserialize : p.serialize = b64encode (p.path ++ ":" ++ otpName ++ ":" ++ otp) := by
    rw [hp]
    rfl
  have hreadable : Readable
      (makeAce (State.getToken digest otpName otp) .read [] :: extraOtpAce.toList)
      (digestIdentity digest (otpName ++ ":" ++ otp) :: identities) := by
    apply makeAce_readable
    rw [getToken_digestIdentity]
    exact List.mem_cons_self
  simp only [consume, hserialize, b64decode_encode, cutFirst_serialized _ _ _ hpath,
    String.ofList_toList, hnode, if_pos hreadable, hyaml]

/-- The node is gone when it has been consumed. -/
theorem consume_again (hcreate : p₀.create yaml digest name args generated extraOtpAce sequence
      nodes = .ok (p, nodes')) (hpath : ':' ∉ p.path.toList) (identities : List String)
    (left : OtpNodes) (hleft : left p.path = none) :
    (consume yaml digest p.serialize identities left).1 = .error .noNode := by
  obtain ⟨otpName, otp, hp, -⟩ := create_ok yaml digest name args generated extraOtpAce sequence
    nodes nodes' p₀ p hcreate
  have hserialize : p.serialize = b64encode (p.path ++ ":" ++ otpName ++ ":" ++ otp) := by
    rw [hp]
    rfl
  simp only [consume, hserialize, b64decode_encode, cutFirst_serialized _ _ _ hpath,
    String.ofList_toList, hleft]

end otp

section foobar

/-- YAML, as far as it goes here. -/
def foobarYaml : OtpYaml where
  safeDump data := if data.password = none then "{name: foobar, password: null}\n"
    else "{name: foobar, password: secret}\n"
  load text := some ⟨"foobar",
    if text = "{name: foobar, password: null}\n" then none else some "secret"⟩

def foobarDigest (credentials : String) : String :=
  if credentials = "foobar:secret" then "rkSjgvIBRXS9RfmEL+ufZXL+u1o="
  else if credentials = "otp:once" then "l0Qu4uKgEbHKfjiMovaz6EmZrx4="
  else if credentials = "foobar:TkQxnUsFvLpAeYbz" then "3G1uNoEKHq/fitS5hon/I3iCZK8="
  else ""

def letters : Generated := ⟨"TkQxnUsFvLpAeYbz", "mWbZcRoHdIyJqGtK", "PuXaVhNeLsOfBgDi"⟩

def createFoobar (password : Option String) : Except OtpError (OTPPrincipal × OtpNodes) :=
  (newOTPPrincipal "/otp/otp-").create foobarYaml foobarDigest "foobar"
    ⟨password, some "otp", some "once"⟩ letters none "0000000000" fun _ => none

end foobar

end Juju.State

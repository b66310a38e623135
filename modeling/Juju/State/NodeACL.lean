import Juju.Base.Dict
import Juju.State.GroupPrincipal
import Mathlib.Data.List.TakeWhile

namespace Juju.State
open Juju.Base

/-- `make_identity`, where `digest` is the SHA-1 digest in base 64; `none` is its `SyntaxError`. -/
def makeIdentity (digest : String → String) (credentials : String) : Option String :=
  if ':' ∈ credentials.toList then
    some (principalName credentials ++ ":" ++ digest credentials)
  else none

/-- `Principal.get_token`. -/
def getToken (digest : String → String) (name password : String) : String :=
  (makeIdentity digest (name ++ ":" ++ password)).getD ""

/-- `ZOO_OPEN_AUTH_ACL_UNSAFE`. -/
def openAuthAce : ACE := ⟨"auth", "world", 31⟩

/-- `SecurityPolicy.__call__`, for what its rules return. -/
def policyAcl (rules : List (List ACE)) (adminToken : String) (ownerToken : Option String) :
    List ACE :=
  (if rules.flatten = [] then [openAuthAce] else rules.flatten) ++
    [makeAce adminToken .all []] ++ ownerToken.toList.map fun token => makeAce token .all []

/-- `_principal_index`. -/
def principalIndex (acl : List ACE) (name : String) : Option Nat :=
  acl.findIdx? fun ace => principalName ace.id = name

/-- The change functions of `grant` and of `prohibit`. -/
inductive AclChange where
  | add (name : String) (ace : ACE)
  | remove (name : String)

def AclChange.edit (acl : List ACE) : AclChange → List ACE
  | add name ace =>
    match principalIndex acl name with
    | some index => acl.modify index fun aclAce => { aclAce with perms := ace.perms ||| aclAce.perms }
    | none => acl ++ [ace]
  | remove name =>
    match principalIndex acl name with
    | some index => acl.eraseIdx index
    | none => acl

inductive AclError where
  | principalNotFound (name : String)
  | stateNotFound
  /-- Another exception of ZooKeeper's. -/
  | zookeeper

inductive AclCall where
  | grant (name : String) (permission : Permission) (more : List Permission)
  | prohibit (name : String)

inductive AclStage where
  | idle
  | findingToken (name : String) (permission : Permission) (more : List Permission)
  | reading (change : AclChange)
  /-- The reply of `set_acl` is to come, for the ACL that was read with its version. -/
  | setting (change : AclChange) (read : List ACE) (version : Nat)
  | ended (result : Except AclError Unit)

/-- A node's ACL with its version, the token database, and the calls of clients, named by `C`. -/
structure AclNode (C : Type) where
  acl : List ACE
  aversion : Nat
  tokens : Dict String String
  stages : C → AclStage

inductive AclEvent (C : Type) where
  | call (c : C) (call : AclCall)
  | getToken (c : C)
  | getAcl (c : C) (exists? : Bool)
  | setAcl (c : C)
  | fails (c : C)
  | addPrincipal (name password : String)
  | removePrincipal (name : String)
  /-- Someone else sets the ACL. -/
  | edited (acl : List ACE)

def AclCall.start : AclCall → AclStage
  | grant name permission more => .findingToken name permission more
  | prohibit name => .reading (.remove name)

variable {C : Type} [DecidableEq C] (digest : String → String)

namespace AclNode

variable (m : AclNode C)

def setStage (c : C) (stage : AclStage) : AclNode C :=
  { m with stages := Function.update m.stages c stage }

/-- `set_acl` with a version sets the ACL only where it has not been set since. -/
def step : AclEvent C → Option (AclNode C)
  | .call c call =>
    match m.stages c with
    | .idle | .ended _ => some (m.setStage c call.start)
    | _ => none
  | .getToken c =>
    match m.stages c with
    | .findingToken name permission more =>
      match m.tokens.lookup name with
      | none => some (m.setStage c (.ended (.error (.principalNotFound name))))
      | some token => some (m.setStage c (.reading (.add name (makeAce token permission more))))
    | _ => none
  | .getAcl c exists? =>
    match m.stages c with
    | .reading change =>
      if exists? then some (m.setStage c (.setting change m.acl m.aversion))
      else some (m.setStage c (.ended (.error .stateNotFound)))
    | _ => none
  | .setAcl c =>
    match m.stages c with
    | .setting change read version =>
      if version = m.aversion then
        some ({ m with acl := change.edit read, aversion := m.aversion + 1 }.setStage c
          (.ended (.ok ())))
      else some (m.setStage c (.reading change))
    | _ => none
  | .fails c =>
    match m.stages c with
    | .idle | .ended _ => none
    | _ => some (m.setStage c (.ended (.error .zookeeper)))
  | .addPrincipal name password =>
    some { m with tokens := m.tokens.insert name (State.getToken digest name password) }
  | .removePrincipal name => some { m with tokens := m.tokens.erase name }
  | .edited acl => some { m with acl := acl, aversion := m.aversion + 1 }

/-- A node with any ACL, before any principal is known and any call made. -/
structure Initial : Prop where
  tokens : m.tokens = ∅
  idle : ∀ c, m.stages c = .idle

/-- The entries of all principals but one. -/
def others (acl : List ACE) (name : String) : List ACE :=
  acl.filter fun ace => principalName ace.id ≠ name

/-- The call of `c` is committed next, by a change of the ACL that is there. -/
def Commits (c : C) (change : AclChange) (m' : AclNode C) : Prop :=
  (∃ read version, m.stages c = .setting change read version ∧ version = m.aversion) ∧
    m.step digest (.setAcl c) = some m'

end AclNode

section names

theorem principalName_append (name rest : String) (h : ':' ∉ name.toList) :
    principalName (name ++ ":" ++ rest) = name := by
  have htake : (name ++ ":" ++ rest).toList.takeWhile (· ≠ ':') = name.toList := by
    rw [String.toList_append, String.toList_append, List.append_assoc,
      List.takeWhile_append_of_pos fun c hc => by
        have hne : c ≠ ':' := fun he => h (he ▸ hc)
        simpa using hne]
    simp
  rw [principalName, htake, String.ofList_toList]

/-- No name has a colon. -/
theorem principalName_colon (identity : String) : ':' ∉ (principalName identity).toList := by
  intro hin
  rw [principalName, String.toList_ofList] at hin
  have hne := List.mem_takeWhile_imp hin
  simp at hne

theorem getToken_eq (name password : String) :
    getToken digest name password =
      principalName (name ++ ":" ++ password) ++ ":" ++ digest (name ++ ":" ++ password) := by
  have hcolon : ':' ∈ (name ++ ":" ++ password).toList := by simp
  rw [getToken, makeIdentity, if_pos hcolon]
  rfl

/-- The token of a principal bears its name, unless there is a colon in it. -/
theorem principalName_getToken (name password : String) :
    principalName (getToken digest name password) = name ↔ ':' ∉ name.toList := by
  rw [getToken_eq, principalName_append _ _ (principalName_colon _)]
  constructor
  · intro hname
    rw [← hname]
    exact principalName_colon _
  · exact principalName_append name password

end names

end Juju.State

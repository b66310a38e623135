import Juju.Base.Runs
import Mathlib.Logic.Function.Basic

namespace Juju.Charm
open Juju.Base

/-- What `under.quote` makes of one character. -/
def quoteChar (c : Char) : List Char :=
  if c.isAlphanum ∨ c = '.' ∨ c = '-' then [c]
  else '_' :: Nat.digitChar (c.toNat / 16) :: Nat.digitChar (c.toNat % 16) :: ['_']

def quote (unquoted : String) : String := String.ofList (unquoted.toList.flatMap quoteChar)

/-- `charm.as_bundle()`, with the serialization data of its configuration and its metadata. -/
structure Bundle (D : Type) where
  config : D
  metadata : D
  sha256 : String

/-- The content of a charm's node, and the state made from it. -/
structure CharmData (D : Type) where
  config : D
  metadata : D
  sha256 : String
  url : String

inductive PublishError where
  | nodeExists
  | noNode
  | charmStateNotFound (charmId : String)
  | stateChanged (message : String)
deriving DecidableEq

/-- What the two `get_sha256` return: a string, or a deferred that has it as its result. -/
inductive Sha256Value where
  | str (sha256 : String)
  | deferred (sha256 : String)
deriving DecidableEq

variable {D : Type}

def Bundle.getSha256 (bundle : Bundle D) : Sha256Value := .str bundle.sha256

def CharmData.getSha256 (state : CharmData D) : Sha256Value := .deferred state.sha256

/-- `add_charm_state`, over what the node holds. -/
def addCharmState (bundle : Bundle D) (url : String) :
    Option (CharmData D) → Except PublishError (CharmData D)
  | some _ => .error .nodeExists
  | none => .ok ⟨bundle.config, bundle.metadata, bundle.sha256, url⟩

/-- The client's `get`. -/
def getNode : Option (CharmData D) → Except PublishError (CharmData D)
  | some data => .ok data
  | none => .error .noNode

def getCharmState (charmId : String) (node : Option (CharmData D)) :
    Except PublishError (CharmData D) :=
  match getNode node with
  | .error .noNode => .error (.charmStateNotFound charmId)
  | .error e => .error e
  | .ok data => .ok data

/-- `_eb_verify_duplicate` of a `NodeExistsException`. It returns nothing, as Python's `None`. -/
def ebVerifyDuplicate (charmId : String) (bundle : Bundle D) (node : Option (CharmData D)) :
    Except PublishError (Option (CharmData D)) :=
  match getCharmState charmId node with
  | .error .noNode =>
    .error (.stateChanged "Charm removed concurrently during publish, please retry.")
  | .error e => .error e
  | .ok charmState =>
    if charmState.getSha256 ≠ bundle.getSha256 then
      .error (.stateChanged ("Concurrent upload of charm has different checksum " ++ charmId))
    else .ok none

def charmStorePath (charmId : String) (bundle : Bundle D) : String :=
  quote (charmId ++ ":" ++ bundle.sha256)

/-- A charm of a `publish`, with its bundle: waiting for the storage, for the creation of its
node, for the content of the node that was in its way, or done. -/
inductive Upload (D : Type) where
  | putting (bundle : Bundle D)
  | storing (bundle : Bundle D) (url : String)
  | verifying (bundle : Bundle D)
  | done (bundle : Bundle D) (value : Except PublishError (Option (CharmData D)))

namespace Upload

def bundle : Upload D → Bundle D
  | putting bundle => bundle
  | storing bundle _ => bundle
  | verifying bundle => bundle
  | done bundle _ => bundle

/-- `_publish_one`. -/
def publishOne (cache : Option (CharmData D)) (bundle : Bundle D) : Upload D :=
  match cache with
  | some state => done bundle (.ok (some state))
  | none => putting bundle

variable (charmId : String) (getUrl : String → String)

/-- What an upload waits for arrives: the upload then, and what the node then holds. -/
def reply (node : Option (CharmData D)) : Upload D → Option (Upload D × Option (CharmData D))
  | putting bundle => some (storing bundle (getUrl (charmStorePath charmId bundle)), node)
  | storing bundle url =>
    match addCharmState bundle url node with
    | .ok state => some (done bundle (.ok (some state)), some state)
    | .error .nodeExists => some (verifying bundle, node)
    | .error e => some (done bundle (.error e), node)
  | verifying bundle => some (done bundle (ebVerifyDuplicate charmId bundle node), node)
  | done _ _ => none

def failure? : Upload D → Option PublishError
  | done _ (.error e) => some e
  | _ => none

def value? : Upload D → Option (Option (CharmData D))
  | done _ (.ok value) => some value
  | _ => none

/-- How many replies are still to come, at most. -/
def remaining : Upload D → Nat
  | putting _ => 3
  | storing _ _ => 2
  | verifying _ => 1
  | done _ _ => 0

end Upload

/-- A call of `publish`, with the failure that fired its list first. -/
structure PublishRun (D : Type) where
  uploads : List (Upload D)
  failure : Option PublishError

namespace PublishRun

def start (cache : Option (CharmData D)) (bundles : List (Bundle D)) : PublishRun D :=
  ⟨bundles.map (Upload.publishOne cache), none⟩

def setUpload (run : PublishRun D) (i : Nat) (upload : Upload D) : PublishRun D :=
  ⟨run.uploads.set i upload, run.failure.or upload.failure?⟩

/-- What the call has returned or raised, if its list has fired. -/
def result (run : PublishRun D) : Option (Except PublishError (List (Option (CharmData D)))) :=
  match run.failure with
  | some e => some (.error e)
  | none => (run.uploads.mapM Upload.value?).map .ok

end PublishRun

/-- A publisher, with the length of its queue, the existence checks that the server has not seen,
and the answers that have not been read. -/
structure CharmPublisher (D : Type) where
  charmAddQueue : Nat
  checks : Nat
  answers : List (Except PublishError (CharmData D))
  charmStateCache : Option (CharmData D)

namespace CharmPublisher

/-- `add_charm` as far as its existence check. -/
def addCharm (p : CharmPublisher D) : CharmPublisher D :=
  if p.charmStateCache.isSome then { p with charmAddQueue := p.charmAddQueue + 1 }
  else { p with charmAddQueue := p.charmAddQueue + 1, checks := p.checks + 1 }

def check (charmId : String) (node : Option (CharmData D)) (p : CharmPublisher D) :
    Option (CharmPublisher D) :=
  if p.checks = 0 then none
  else some { p with
    checks := p.checks - 1, answers := p.answers ++ [getCharmState charmId node] }

/-- `add_charm` once its existence check is answered. -/
def answer (p : CharmPublisher D) : Option (CharmPublisher D) :=
  match p.answers with
  | [] => none
  | .ok state :: rest => some { p with answers := rest, charmStateCache := some state }
  | .error _ :: rest => some { p with answers := rest }

end CharmPublisher

/-- The node of one charm id, the publishers, named by `P`, and the calls of `publish`. -/
structure Publishing (P D : Type) where
  node : Option (CharmData D)
  publishers : P → CharmPublisher D
  runs : List (PublishRun D)

inductive PublishEvent (P D : Type) where
  | addCharm (p : P)
  | check (p : P)
  | answer (p : P)
  /-- `publish` of the queue, with the bundles as its charms now are. -/
  | publish (p : P) (bundles : List (Bundle D))
  | reply (k i : Nat)
  | remove

namespace Publishing

variable {P : Type} [DecidableEq P] (charmId : String) (getUrl : String → String)

def setPublisher (s : Publishing P D) (p : P) (publisher : CharmPublisher D) : Publishing P D :=
  { s with publishers := Function.update s.publishers p publisher }

def reply (s : Publishing P D) (k i : Nat) : Option (Publishing P D) := do
  let run ← s.runs[k]?
  let upload ← run.uploads[i]?
  let (upload', node') ← upload.reply charmId getUrl s.node
  return { s with node := node', runs := s.runs.set k (run.setUpload i upload') }

def step (s : Publishing P D) : PublishEvent P D → Option (Publishing P D)
  | .addCharm p => some (s.setPublisher p (s.publishers p).addCharm)
  | .check p => ((s.publishers p).check charmId s.node).map (s.setPublisher p)
  | .answer p => (s.publishers p).answer.map (s.setPublisher p)
  | .publish p bundles =>
    if bundles.length = (s.publishers p).charmAddQueue then
      some { s with runs := s.runs ++ [.start (s.publishers p).charmStateCache bundles] }
    else none
  | .reply k i => s.reply charmId getUrl k i
  | .remove => some { s with node := none }

/-- No charm is stored, and no publisher has done anything. -/
def Initial (s : Publishing P D) : Prop :=
  s.node = none ∧ (∀ p, s.publishers p = ⟨0, 0, [], none⟩) ∧ s.runs = []

end Publishing

end Juju.Charm

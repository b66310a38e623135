import Juju.State.SettingsPath
import Juju.State.UnitNameLookups
import Juju.State.YAMLState

namespace Juju.State
open Juju.Base
open Juju.Lib

inductive ContextError where
  | relation (e : UnitRelationError)
  | unitName (e : UnitNameError)
  | unitRelationStateNotFound (relationId : String) (unitName : String)
  | typeError
  | state (e : YAMLStateError)
  deriving DecidableEq

/-- What a call on the context returns, with the settings of a unit given as an `S`. -/
inductive ContextResult (S V : Type) where
  | settings (settings : S)
  | value (value : V)
  | done
  | raised (e : ContextError)

def ContextResult.map {S T V : Type} (f : S → T) : ContextResult S V → ContextResult T V
  | .settings s => .settings (f s)
  | .value v => .value v
  | .done => .done
  | .raised e => .raised e

/-- A unit is named as it is written, `none` for the context's own. -/
inductive ContextCall (K V : Type) where
  | get (unit : Option String)
  | getValue (unit : Option String) (key : K)
  /-- `none` stands for data that are not a dictionary. -/
  | set (data : Option (Dict K V))
  | setValue (key : K) (value : V)
  | deleteValue (key : K)

/-- A context with the relation settings nodes, by path: each has the `YAMLState` objects made
for it, by the name of the unit, as it is written, that they were made for. -/
structure RelationHookContext (K V : Type) where
  nodes : String → YAMLNode String Unit K V
  nodeCache : Dict String String
  needsFlushing : Bool
  /-- The node that `retry_change` is at work on, in a flush. -/
  flushing : Option String

/-- A new context over the nodes. -/
def newContext {K V : Type} (contents : String → Option (Dict K V)) : RelationHookContext K V :=
  ⟨fun path => newYAMLNode (contents path), ∅, false, none⟩

def RelationHookContext.contents {K V : Type} (x : RelationHookContext K V) (path : String) :
    Option (Dict K V) := (x.nodes path).node

def RelationHookContext.setNode {K V : Type} (x : RelationHookContext K V) (path : String)
    (m : YAMLNode String Unit K V) : RelationHookContext K V :=
  { x with nodes := Function.update x.nodes path m }

section names

variable (t : InternalTopology) (k : TextKind) (r : UnitRelationState)

/-- The unit meant by a name, where None is the context's own. -/
def resolveUnit : Option String → Except ContextError String
  | some unitName => .ok unitName
  | none =>
    match read t (InternalTopology.getServiceUnitNameFromId r.internalUnitId) with
    | .ok unitName => .ok unitName
    | .error e => .error (.relation e)

/-- The settings node of a unit; an unknown sequence number gives the id None. -/
def unitSettingsPath (unitName : String) : Except ContextError String :=
  match t.getServiceUnitIdFromName k unitName with
  | .error e => .error (.unitName e)
  | .ok unitId =>
    match relationContextPath t r (unitId.getD "None") with
    | .error e => .error (.relation e)
    | .ok path => .ok path

end names

section calls

variable {K V : Type} [DecidableEq K] [DecidableEq V] (t : InternalTopology) (k : TextKind)
  (r : UnitRelationState) (blank : V) (x : RelationHookContext K V)

/-- As `_setup_relation_state`; a new `YAMLState` is read, and kept if its node exists. -/
def setupRelationState (unit : Option String) :
    RelationHookContext K V × Except ContextError (String × String) :=
  match resolveUnit t r unit with
  | .error e => (x, .error e)
  | .ok unitName =>
    match x.nodeCache.lookup unitName with
    | some path => (x, .ok (unitName, path))
    | none =>
      match unitSettingsPath t k r unitName with
      | .error e => (x, .error e)
      | .ok path =>
        let relationData := (x.nodes path).setClient unitName newYAMLState
        match readFinish (readStart relationData unitName) unitName true with
        | (m, some (.raised _)) =>
          (x.setNode path m,
            .error (.unitRelationStateNotFound r.internalRelationId unitName))
        | (m, _) =>
          ({ x.setNode path m with nodeCache := x.nodeCache.insert unitName path },
            .ok (unitName, path))

def contextGet (unit : Option String) :
    RelationHookContext K V × Except ContextError (Dict K V) :=
  match setupRelationState t k r x unit with
  | (x, .error e) => (x, .error e)
  | (x, .ok (unitName, path)) => (x, .ok ((x.nodes path).clients unitName).mapping)

/-- A change of the own unit's buffered settings. -/
def contextEdit (f : YAMLNode String Unit K V → String → YAMLNode String Unit K V) :
    RelationHookContext K V × ContextResult (Dict K V) V :=
  match setupRelationState t k r { x with needsFlushing := true } none with
  | (x, .error e) => (x, .raised e)
  | (x, .ok (unitName, path)) => (x.setNode path (f (x.nodes path) unitName), .done)

def contextCall : ContextCall K V → RelationHookContext K V × ContextResult (Dict K V) V
  | .get unit =>
    match contextGet t k r x unit with
    | (x, .error e) => (x, .raised e)
    | (x, .ok settings) => (x, .settings settings)
  | .getValue unit key =>
    match contextGet t k r x unit with
    | (x, .error e) => (x, .raised e)
    | (x, .ok settings) =>
      (x, .value (if settings.entries = [] then blank else (settings.lookup key).getD blank))
  | .set none => (x, .raised .typeError)
  | .set (some data) =>
    contextEdit t k r x fun m unitName =>
      data.entries.foldl (fun m e => (setItem m unitName e.1 e.2).1) m
  | .setValue key value => contextEdit t k r x fun m unitName => (setItem m unitName key value).1
  -- a KeyError is passed over
  | .deleteValue key => contextEdit t k r x fun m unitName => (delItem m unitName key).1

/-- The start of `flush`, up to the first request of `retry_change`. The write of the service's
options that follows has no part in the relation settings. -/
def flushStart : RelationHookContext K V × ContextResult (Dict K V) V :=
  if x.needsFlushing then
    match setupRelationState t k r x none with
    | (x, .error e) => (x, .raised e)
    | (x, .ok (unitName, path)) =>
      ({ x.setNode path (writeStart (x.nodes path) unitName ()).1 with flushing := some path },
        .done)
  else (x, .done)

/-- What a flush under way does next: a round of `retry_change` reads, or writes. -/
inductive FlushStep where
  | attempt
  | commit

def flushStep : FlushStep → RelationHookContext K V
  | .attempt =>
    match x.flushing with
    | none => x
    | some path => x.setNode path (attemptWrite (x.nodes path) ())
  | .commit =>
    match x.flushing with
    | none => x
    | some path =>
      let (m, result) := commitWrite (x.nodes path) ()
      { x.setNode path m with flushing := if result.isSome then none else some path }

/-- Someone else changes a settings node, creates or removes it. -/
def changeNode (path : String) (content : Option (Dict K V)) : RelationHookContext K V :=
  let m := x.nodes path
  x.setNode path { m with node := content, version := m.version + 1 }

inductive ContextEvent (K V : Type) where
  | call (c : ContextCall K V)
  | changeNode (path : String) (content : Option (Dict K V))

/-- An event, and what it returns if it is a call. -/
def contextEvent : ContextEvent K V →
    RelationHookContext K V × Option (ContextResult (Dict K V) V)
  | .call c => ((contextCall t k r blank x c).1, some (contextCall t k r blank x c).2)
  | .changeNode path content => (changeNode x path content, none)

/-- The context after the events, and the results of the calls. -/
def contextRun : RelationHookContext K V → List (ContextEvent K V) →
    RelationHookContext K V × List (Option (ContextResult (Dict K V) V))
  | x, [] => (x, [])
  | x, e :: events =>
    let (x, result) := contextEvent t k r blank x e
    let (x, results) := contextRun x events
    (x, result :: results)

inductive FlushEvent (K V : Type) where
  | step (s : FlushStep)
  | changeNode (path : String) (content : Option (Dict K V))

def flushEvent : FlushEvent K V → RelationHookContext K V
  | .step s => flushStep x s
  | .changeNode path content => changeNode x path content

end calls

end Juju.State

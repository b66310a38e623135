import Juju.Lib.Text
import Juju.State.RelationHookContext

namespace Juju.Hooks
open Juju.Base Juju.Lib Juju.State

/-- What is known of a process that has exited. -/
structure ProcessReason where
  exitCode : Option Int
  signal : Option Nat

structure CharmInvocationError where
  path : String
  exitCode : Option Int
  signal : Option Nat

/-- `HookProtocol._process_reason` -/
def processReason (hookName : String) (reason : ProcessReason) : Except CharmInvocationError Int :=
  match reason.exitCode with
  | some code => if code = 0 then .ok code else .error ⟨hookName, some code, none⟩
  | none =>
    match reason.signal with
    | some (signal + 1) => .error ⟨hookName, none, some (signal + 1)⟩
    | _ => .error ⟨hookName, none, none⟩

/-- The relations that the invoker has contexts for, by their idents, and the one that the hook is
run for, if it is a hook of a relation that the unit is in. -/
structure HookRelations where
  relations : Dict String UnitRelationState
  own : Option String
  own_mem : ∀ ident ∈ own, ident ∈ relations

inductive HookCallError where
  | relationStateNotFound
  | notRelationContext
  | noSuchUnit (relationId : String) (unitName : String)
  | context (e : ContextError)

inductive HookReply where
  | settings (settings : Dict String String)
  | value (value : String)
  | done
  | raised (e : HookCallError)

/-- Where the flush of a context is. -/
inductive FlushPoint where
  | start
  | settings
  | config
  deriving DecidableEq

inductive HookResult where
  | exited (code : Int)
  | failed (e : CharmInvocationError)
  /-- A flush has raised. -/
  | raised (e : Option ContextError)

inductive HookStage where
  | running
  /-- `_cleanup_process` flushes the context of `ident`, with those of `left` still to come. -/
  | flushing (ident : String) (left : List String) (point : FlushPoint)
  | ended (result : HookResult)

/-- The contexts of an invoker, by ident. They share the settings nodes, of which each has the
`YAMLState` objects that it has made. -/
structure HookRun where
  contexts : String → RelationHookContext String String
  stage : HookStage

def newHookRun (contents : String → Option (Dict String String)) : HookRun :=
  ⟨fun _ => newContext contents, .running⟩

/-- The commands of a hook that are about the settings of a relation. -/
inductive HookCommand where
  | relationGet (relationId : String) (unit : String) (settingName : String)
  | relationSet (relationId : String) (data : Dict String String)

def HookCommand.relationId : HookCommand → String
  | .relationGet relationId _ _ => relationId
  | .relationSet relationId _ => relationId

/-- What the responder of `relation_get` asks of the context. -/
def getCall (unit : String) (settingName : String) : ContextCall String String :=
  if settingName ≠ "" then .getValue (some unit) settingName else .get (some unit)

/-- What the responder of `relation_set` does for an item. -/
def itemCall (item : Sigma fun _ : String => String) : ContextCall String String :=
  if TextKind.unicode.strip item.2.toList = [] then .deleteValue item.1
  else .setValue item.1 item.2

inductive CleanupStep where
  | start
  | attempt
  | commit
  /-- `retry_change` raises. -/
  | fail
  /-- The options of the service are read, and written. -/
  | config (ok : Bool)

inductive HookEvent where
  | command (c : HookCommand)
  /-- Someone else changes a settings node. -/
  | changeNode (path : String) (content : Option (Dict String String))
  | exited (reason : ProcessReason)
  | cleanup (step : CleanupStep)

/-- A change of a settings node: one of others, or one of a flush. -/
inductive NodeChange where
  | others (path : String) (content : Option (Dict String String))
  | flushed (ident path : String) (content : Option (Dict String String))

section commands

variable (t : InternalTopology) (k : TextKind) (h : HookRelations)

/-- The relation whose context a command is for. -/
def HookRelations.contextOf (relationId : String) : Except HookCallError String :=
  if relationId ≠ "" then
    if relationId ∈ h.relations then .ok relationId else .error .relationStateNotFound
  else
    match h.own with
    | some ident => .ok ident
    | none => .error .notRelationContext

def setItems (r : UnitRelationState) : RelationHookContext String String →
    List (Sigma fun _ : String => String) →
    RelationHookContext String String × Option ContextError
  | x, [] => (x, none)
  | x, item :: items =>
    match contextCall t k r "" x (itemCall item) with
    | (x, .raised e) => (x, some e)
    | (x, _) => setItems r x items

/-- What the hook is told that has asked for settings. -/
def settingsReply : ContextResult (Dict String String) String → HookReply
  | .settings settings => .settings settings
  | .value value => .value value
  | .done => .done
  | .raised (.unitRelationStateNotFound relationId unitName) =>
    .raised (.noSuchUnit relationId unitName)
  | .raised e => .raised (.context e)

/-- The part of the responders of `UnitAgentServer` that has the context. -/
def respond (r : UnitRelationState) (x : RelationHookContext String String) :
    HookCommand → RelationHookContext String String × HookReply
  | .relationGet _ unit settingName =>
    let (x, result) := contextCall t k r "" x (getCall unit settingName)
    (x, settingsReply result)
  | .relationSet _ data =>
    match setItems t k r x data.entries with
    | (x, none) => (x, .done)
    | (x, some e) => (x, .raised (.context e))

def hookCommand (s : HookRun) (c : HookCommand) : HookRun × HookReply :=
  match h.contextOf c.relationId with
  | .error e => (s, .raised e)
  | .ok ident =>
    match h.relations.lookup ident with
    | none => (s, .raised .relationStateNotFound)
    | some r =>
      let (x, reply) := respond t k r (s.contexts ident) c
      ({ s with contexts := Function.update s.contexts ident x }, reply)

end commands

section cleanup

variable (t : InternalTopology) (k : TextKind) (h : HookRelations) (hookName : String) (s : HookRun)

/-- The contexts after the node has been changed, by the context of `ident` if there is one. -/
def shareChange (contexts : String → RelationHookContext String String) (ident : Option String)
    (path : String) (content : Option (Dict String String)) :
    String → RelationHookContext String String := fun i =>
  if some i = ident then contexts i else changeNode (contexts i) path content

/-- The loop of `_cleanup_process` goes on to the next context. -/
def flushNext : List String → HookStage
  | [] => .ended (.exited 0)
  | ident :: left => .flushing ident left .start

def afterExit (reason : ProcessReason) : HookStage :=
  match processReason hookName reason with
  | .ok _ => flushNext h.relations.keys
  | .error e => .ended (.failed e)

/-- A step of the flush of the context of `ident`, of the relation `r`. -/
def flushContext (r : UnitRelationState) (ident : String) (left : List String) :
    FlushPoint → CleanupStep → HookRun × List NodeChange
  | .start, .start =>
    match flushStart t k r (s.contexts ident) with
    | (_, .raised e) => ({ s with stage := .ended (.raised (some e)) }, [])
    | (x, _) =>
      (⟨Function.update s.contexts ident x,
        .flushing ident left (if x.flushing = none then .config else .settings)⟩, [])
  | .settings, .attempt =>
    ({ s with contexts := Function.update s.contexts ident (flushStep (s.contexts ident) .attempt) },
      [])
  | .settings, .commit =>
    let x := flushStep (s.contexts ident) .commit
    let contexts := Function.update s.contexts ident x
    match (s.contexts ident).flushing, x.flushing with
    | some path, none =>
      (⟨shareChange contexts (some ident) path (x.contents path), .flushing ident left .config⟩,
        [.flushed ident path (x.contents path)])
    | _, _ => ({ s with contexts := contexts }, [])
  | .settings, .fail => ({ s with stage := .ended (.raised none) }, [])
  | .config, .config true => ({ s with stage := flushNext left }, [])
  | .config, .config false => ({ s with stage := .ended (.raised none) }, [])
  | _, _ => (s, [])

def hookStep : HookEvent → HookRun × List NodeChange
  -- the socket is served on until the cleanup is over
  | .command c => ((hookCommand t k h s c).1, [])
  | .changeNode path content =>
    ({ s with contexts := shareChange s.contexts none path content }, [.others path content])
  | .exited reason =>
    match s.stage with
    | .running => ({ s with stage := afterExit h hookName reason }, [])
    | _ => (s, [])
  | .cleanup step =>
    match s.stage with
    | .flushing ident left point =>
      match h.relations.lookup ident with
      | none => (s, [])
      | some r => flushContext t k s r ident left point step
    | _ => (s, [])

end cleanup

/-- The run of a hook, with the changes of the settings nodes. -/
def hookEvents (t : InternalTopology) (k : TextKind) (h : HookRelations) (hookName : String) :
    HookRun → List HookEvent → HookRun × List NodeChange
  | s, [] => (s, [])
  | s, e :: events =>
    let (s, changes) := hookStep t k h hookName s e
    let (s, rest) := hookEvents t k h hookName s events
    (s, changes ++ rest)

end Juju.Hooks

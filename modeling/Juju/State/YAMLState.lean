import Juju.Base.Dict
import Juju.Base.ThreeWay
import Mathlib.Logic.Function.Basic

namespace Juju.State
open Juju.Base

variable {K V : Type}

inductive ChangeItem (K V : Type) where
  | deleted (key : K) (old : V)
  | modified (key : K) (old new : V)
  | added (key : K) (new : V)
  deriving DecidableEq

def ChangeItem.key : ChangeItem K V → K
  | .deleted key _ => key
  | .modified key _ _ => key
  | .added key _ => key

inductive YAMLStateError where
  /-- `_check` before any `read`. -/
  | valueError
  | keyError
  | stateNotFound
  /-- `retry_change` gave up. -/
  | zookeeper
  deriving DecidableEq

/-- A `YAMLState`; `caches` are the dictionaries that `_cache` has been bound to, the current
one under the number `cache`. -/
structure YAMLState (K V : Type) where
  pristineCache : Option (Dict K V)
  cache : Nat
  caches : Nat → Dict K V
  reads : Nat

def newYAMLState : YAMLState K V := ⟨none, 0, fun _ => ∅, 0⟩

/-- The mapping that the object shows. -/
def YAMLState.mapping (s : YAMLState K V) : Dict K V := s.caches s.cache

def YAMLState.rebind (s : YAMLState K V) (cache : Dict K V) : YAMLState K V :=
  { s with cache := s.cache + 1, caches := Function.update s.caches (s.cache + 1) cache }

def YAMLState.edit (s : YAMLState K V) (f : Dict K V → Dict K V) : YAMLState K V :=
  { s with caches := Function.update s.caches s.cache (f (s.caches s.cache)) }

variable [DecidableEq K] [DecidableEq V]

/-- The body of the loop of `apply_changes`. -/
def applyChange (pristine cache : Dict K V) (acc : Dict K V × List (ChangeItem K V)) (key : K) :
    Dict K V × List (ChangeItem K V) :=
  match pristine.lookup key, cache.lookup key with
  | some old, some new =>
    if old = new then acc else (acc.1.insert key new, acc.2 ++ [.modified key old new])
  | none, some new => (acc.1.insert key new, acc.2 ++ [.added key new])
  | some old, none =>
    if key ∈ acc.1 then (acc.1.erase key, acc.2 ++ [.deleted key old]) else acc
  | none, none => acc

/-- The new content of the node, and `changes`. -/
def applyChanges (pristine cache current : Dict K V) : Dict K V × List (ChangeItem K V) :=
  (pristine.keys ∪ cache.keys).foldl (applyChange pristine cache) (current, [])

/-- What an attempt of `retry_change` has read, and made of it. -/
structure Attempt (K V : Type) where
  version : Nat
  current : Dict K V
  cache : Dict K V
  content : Dict K V
  changes : List (ChangeItem K V)

/-- A call of `write` under way: the two dictionaries it holds on to. -/
structure PendingWrite (C K V : Type) where
  client : C
  pristine : Dict K V
  cache : Nat
  attempt : Option (Attempt K V)

/-- A write that has been committed. -/
structure Commit (C K V : Type) where
  client : C
  pristine : Dict K V
  attempt : Attempt K V

/-- The node (`none` before it exists), its version, the objects named by `C`, the writes under
way named by `W`, and the writes committed so far. -/
structure YAMLNode (C W K V : Type) where
  node : Option (Dict K V)
  version : Nat
  clients : C → YAMLState K V
  writes : W → Option (PendingWrite C K V)
  commits : List (Commit C K V)

def YAMLNode.content {C W : Type} (m : YAMLNode C W K V) : Dict K V := m.node.getD ∅

inductive YAMLAction (C W K V : Type) where
  | readStart (c : C)
  | readFinish (c : C) (required : Bool)
  | setItem (c : C) (key : K) (value : V)
  | delItem (c : C) (key : K)
  | writeStart (c : C) (w : W)
  | attempt (w : W)
  | commit (w : W)
  | fail (w : W)

inductive YAMLResult (K V : Type) where
  | done
  | changes (changes : List (ChangeItem K V))
  | raised (e : YAMLStateError)

section steps

variable {C W : Type} [DecidableEq C] [DecidableEq W] (m : YAMLNode C W K V)

def YAMLNode.setClient (c : C) (s : YAMLState K V) : YAMLNode C W K V :=
  { m with clients := Function.update m.clients c s }

def YAMLNode.setWrite (w : W) (p : Option (PendingWrite C K V)) : YAMLNode C W K V :=
  { m with writes := Function.update m.writes w p }

/-- `read` up to its request. -/
def readStart (c : C) : YAMLNode C W K V :=
  let s := m.clients c
  m.setClient c ({ s with pristineCache := some ∅, reads := s.reads + 1 }.rebind ∅)

/-- `read` from the reply on. -/
def readFinish (c : C) (required : Bool) : YAMLNode C W K V × Option (YAMLResult K V) :=
  let s := m.clients c
  if s.reads = 0 then (m, none)
  else
    let s := { s with reads := s.reads - 1 }
    match m.node with
    | none =>
      (m.setClient c s, some (if required then .raised .stateNotFound else .done))
    | some data =>
      if data.entries = [] then (m.setClient c s, some .done)
      else (m.setClient c ({ s with pristineCache := some data }.rebind data), some .done)

def setItem (c : C) (key : K) (value : V) : YAMLNode C W K V × Option (YAMLResult K V) :=
  let s := m.clients c
  match s.pristineCache with
  | none => (m, some (.raised .valueError))
  | some _ => (m.setClient c (s.edit fun cache => cache.insert key value), some .done)

def delItem (c : C) (key : K) : YAMLNode C W K V × Option (YAMLResult K V) :=
  let s := m.clients c
  match s.pristineCache with
  | none => (m, some (.raised .valueError))
  | some _ =>
    if key ∈ s.mapping then (m.setClient c (s.edit fun cache => cache.erase key), some .done)
    else (m, some (.raised .keyError))

/-- `write` up to `retry_change`. -/
def writeStart (c : C) (w : W) : YAMLNode C W K V × Option (YAMLResult K V) :=
  let s := m.clients c
  match m.writes w, s.pristineCache with
  | some _, _ => (m, none)
  | none, none => (m, some (.raised .valueError))
  | none, some pristine =>
    ((m.setClient c { s with pristineCache := some s.mapping }).setWrite w
      (some ⟨c, pristine, s.cache, none⟩), none)

/-- `retry_change` reads the node and calls `apply_changes`. -/
def attemptWrite (w : W) : YAMLNode C W K V :=
  match m.writes w with
  | none => m
  | some p =>
    let cache := (m.clients p.client).caches p.cache
    let applied := applyChanges p.pristine cache m.content
    m.setWrite w (some { p with
      attempt := some ⟨m.version, m.content, cache, applied.1, applied.2⟩ })

/-- `retry_change` writes the node if its version is still the one read, else it starts over. -/
def commitWrite (w : W) : YAMLNode C W K V × Option (YAMLResult K V) :=
  match m.writes w with
  | none => (m, none)
  | some p =>
    match p.attempt with
    | none => (m, none)
    | some a =>
      if a.version = m.version then
        ({ m.setWrite w none with
            node := some a.content, version := m.version + 1,
            commits := m.commits ++ [⟨p.client, p.pristine, a⟩] },
          some (.changes a.changes))
      else (m.setWrite w (some { p with attempt := none }), none)

/-- `retry_change` raises. -/
def failWrite (w : W) : YAMLNode C W K V × Option (YAMLResult K V) :=
  match m.writes w with
  | none => (m, none)
  | some _ => (m.setWrite w none, some (.raised .zookeeper))

/-- One step, with what the call that it ends returns or raises. -/
def yamlStep : YAMLAction C W K V → YAMLNode C W K V × Option (YAMLResult K V)
  | .readStart c => (readStart m c, none)
  | .readFinish c required => readFinish m c required
  | .setItem c key value => setItem m c key value
  | .delItem c key => delItem m c key
  | .writeStart c w => writeStart m c w
  | .attempt w => (attemptWrite m w, none)
  | .commit w => commitWrite m w
  | .fail w => failWrite m w

def yamlRun (actions : List (YAMLAction C W K V)) : YAMLNode C W K V :=
  actions.foldl (fun m a => (yamlStep m a).1) m

end steps

/-- A node with the objects of clients that have not called anything yet. -/
def newYAMLNode {C W : Type} (node : Option (Dict K V)) : YAMLNode C W K V :=
  ⟨node, 0, fun _ => newYAMLState, fun _ => none, []⟩

end Juju.State

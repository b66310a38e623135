import Juju.State.TopologyWatches

namespace Juju.State
open Juju.Base

/-- What the firewall manager reads in the topology: the units of its service, those with a
machine of their own, the containers of the others, and the units that may be containers. -/
structure ServiceTopology (U P : Type) where
  units : List U
  assigned : U → Bool
  container : U → Option P
  principals : List P

/-- What `get_assigned_machine_id` of a unit reads next. -/
inductive Locating (P : Type) where
  | unit
  | container
  | principal (p : P)

inductive Located (P : Type) where
  | goesOn (next : Locating P)
  | found
  /-- `StateChanged`, for which `open_close_ports` raises `StopWatcher`. -/
  | stateChanged

/-- `cb_watch_service_exposed_flag`: its watch waits, or it has still to get the units, to open and
close the ports of these units, or to wait for the first call of a watch of the units. -/
inductive ExposedStage (U P : Type) where
  | attached
  | listing (exposed : Bool)
  | opening (exposed : Bool) (units : List U) (next : Locating P)
  | watching (r : Nat)
  | stopped

/-- What `cb_check_service_units` is at. -/
inductive UnitsStep (U : Type) where
  | between
  | finding (u : U)
  /-- It waits for the first call of a watch of ports. -/
  | watching (i : Nat)

/-- A call of `cb_check_service_units`, with the set that it has found in `_watched_services` and
the units that it has still to come to. -/
structure UnitsCall (U : Type) where
  set : Nat
  removed : List U
  added : List U
  doing : UnitsStep U

inductive PortStage (P : Type) where
  /-- The reply of the first `exists_and_watch` is to come. -/
  | starting
  | opening (next : Locating P)
  | attached
  | stopped

/-- A watch of a unit's ports. -/
structure PortWatch (U P : Type) where
  unit : U
  registered : Bool
  first : Bool
  stage : PortStage P

/-- One service with its exposed flag, the topology and the service state through which its units
are watched, the units that are gone, and the firewall manager's part: `watched` is its entry of
`_watched_services`, one of the `sets` made so far, or none for `NotExposed`. -/
structure FirewallWatches (U P : Type) where
  flag : Bool
  topology : TopologyWatches Nat (ServiceTopology U P)
  gone : List U
  exposed : ExposedStage U P
  flagRegistered : Bool
  watched : Option Nat
  sets : List (List U)
  calls : Nat → Option (UnitsCall U)
  ports : List (PortWatch U P)

inductive FirewallEvent (U P : Type) where
  | setFlag (exposed : Bool)
  | changeTopology (t : ServiceTopology U P)
  /-- A port of the unit is opened or closed. -/
  | changePorts (u : U)
  | invokeExposed
  | exposedGoesOn
  | existsReply (r : Nat)
  | getReply (r : Nat)
  | fire (r : Nat)
  | discard (r : Nat) (u : U)
  | watch (r : Nat) (u : U)
  | find (r : Nat)
  | goOn (r : Nat)
  | endCall (r : Nat)
  | startPorts (i : Nat)
  | invokePorts (i : Nat)
  | readPorts (i : Nat)

/-- Whether an event is one of the agent's own. -/
def FirewallEvent.internal {U P : Type} : FirewallEvent U P → Bool
  | setFlag _ => false
  | changeTopology _ => false
  | changePorts _ => false
  | _ => true

variable {U P : Type}

def unitNames : Option (ServiceTopology U P) → List U
  | none => []
  | some t => t.units

def sameUnits (old new : List U) : Prop := (∀ u ∈ old, u ∈ new) ∧ ∀ u ∈ new, u ∈ old

instance [DecidableEq U] (old new : List U) : Decidable (sameUnits old new) := by
  unfold sameUnits
  infer_instance

variable [DecidableEq U] [DecidableEq P]

def Locating.read (t : ServiceTopology U P) (u : U) : Locating P → Located P
  | unit =>
    if u ∉ t.units then .stateChanged
    else if t.assigned u then .found
    else .goesOn .container
  | container =>
    match t.container u with
    | none => .found
    | some p => if u ∈ t.units ∧ p ∈ t.principals then .goesOn (.principal p) else .found
  | principal p => if p ∈ t.principals then .found else .stateChanged

namespace FirewallWatches

variable (s : FirewallWatches U P)

/-- What a read of the topology finds. -/
def current : ServiceTopology U P :=
  s.topology.node.getD ⟨[], fun _ => false, fun _ => none, []⟩

/-- A callback of a unit's ports finds the unit watched. -/
def inWatched (u : U) : Bool :=
  match s.watched with
  | none => false
  | some k => u ∈ s.sets.getD k []

def changeFlag (exposed : Bool) : FirewallWatches U P :=
  if s.flag = exposed then s else { s with flag := exposed, flagRegistered := false }

/-- No name is given to a unit that another one has had. -/
def changeTopology (t : ServiceTopology U P) : Option (FirewallWatches U P) :=
  if ∃ u ∈ t.units, u ∈ s.gone then none
  else (s.topology.step (.change (some t))).map fun topology =>
    { s with
      topology := topology
      gone := s.gone ++ (unitNames s.topology.node).filter (· ∉ t.units) }

def changePorts (u : U) : FirewallWatches U P :=
  { s with ports := s.ports.map fun p => if p.unit = u then { p with registered := false } else p }

/-- The exposed flag has been found set, and the units are to be watched. -/
def watchUnits : Option (FirewallWatches U P) :=
  (s.topology.step (.register s.sets.length)).map fun topology =>
    { s with
      topology := topology
      watched := some s.sets.length
      sets := s.sets ++ [[]]
      exposed := .watching s.sets.length }

/-- The first call of a watch of the units is over. -/
def firstCallEnded (r : Nat) : Bool :=
  match s.topology.watches r with
  | .stopped => true
  | _ => r ∈ s.topology.returned.map Prod.fst

def exposedGoesOn : Option (FirewallWatches U P) :=
  match s.exposed with
  | .attached => none
  | .listing exposed => some { s with exposed := .opening exposed s.current.units .unit }
  | .opening exposed (u :: units) next =>
    match next.read s.current u with
    | .goesOn next => some { s with exposed := .opening exposed (u :: units) next }
    | .found => some { s with exposed := .opening exposed units .unit }
    | .stateChanged => some { s with exposed := .stopped }
  | .opening exposed [] _ =>
    if exposed then s.watchUnits else some { s with watched := none, exposed := .attached }
  | .watching r => if s.firstCallEnded r then some { s with exposed := .attached } else none
  | .stopped => none

def setCall (r : Nat) (call : Option (UnitsCall U)) : FirewallWatches U P :=
  { s with calls := Function.update s.calls r call }

/-- `__topology_changed` with the reply of `get_and_watch`. The callback is not called for the same
units, and stops the watch when the service is not exposed. -/
def getReply (r : Nat) : Option (FirewallWatches U P) :=
  (s.topology.step (.getReply r)).bind fun topology =>
    match s.topology.node with
    | none => some { s with topology := topology }
    | some new =>
      let old := unitNames s.topology.oldTopology
      if sameUnits old new.units then
        (topology.step (.callbackReturns r)).map fun topology => { s with topology := topology }
      else
        match s.watched with
        | none =>
          (topology.step (.callbackStops r)).map fun topology => { s with topology := topology }
        | some k =>
          let removed := old.filter (· ∉ new.units)
          let call : UnitsCall U := ⟨k, removed, new.units, .between⟩
          some ({ s with topology := topology }.setCall r (some call))

/-- What a call of `cb_check_service_units` does next. A unit that was removed is not found again. -/
def callGoesOn (r : Nat) (call : UnitsCall U) : FirewallEvent U P → Option (FirewallWatches U P)
  | .discard _ u =>
    match call.doing with
    | .between =>
      if u ∈ call.removed then
        some ({ s with sets := s.sets.modify call.set (List.filter (· ≠ u)) }.setCall r
          (some { call with removed := call.removed.filter (· ≠ u) }))
      else none
    | _ => none
  | .watch _ u =>
    match call.doing with
    | .between =>
      if call.removed = [] ∧ u ∈ call.added then
        let added := call.added.filter (· ≠ u)
        if u ∈ s.sets.getD call.set [] then
          some (s.setCall r (some { call with added := added }))
        else
          some ({ s with sets := s.sets.modify call.set (u :: ·) }.setCall r
            (some { call with added := added, doing := .finding u }))
      else none
    | _ => none
  | .find _ =>
    match call.doing with
    | .finding u =>
      if u ∈ s.current.units then
        let p : PortWatch U P := ⟨u, true, true, .starting⟩
        some ({ s with ports := s.ports ++ [p] }.setCall r
          (some { call with doing := .watching s.ports.length }))
      else some (s.setCall r (some { call with doing := .between }))
    | _ => none
  | .goOn _ =>
    match call.doing with
    | .watching i =>
      if (s.ports[i]?.map PortWatch.first) = some false then
        some (s.setCall r (some { call with doing := .between }))
      else none
    | _ => none
  | .endCall _ =>
    match call.doing with
    | .between =>
      if call.removed = [] ∧ call.added = [] then
        (s.topology.step (.callbackReturns r)).map fun topology =>
          { s with topology := topology }.setCall r none
      else none
    | _ => none
  | _ => none

def setPort (i : Nat) (p : PortWatch U P) : FirewallWatches U P :=
  { s with ports := s.ports.set i p }

/-- `cb_watch_ports` as far as `open_close_ports`. -/
def checkPorts (p : PortWatch U P) : PortWatch U P :=
  if s.inWatched p.unit then { p with stage := .opening .unit }
  else { p with first := false, stage := .stopped }

/-- `open_close_ports` of a callback of ports reads the topology. -/
def readPorts (p : PortWatch U P) (next : Locating P) : PortWatch U P :=
  match next.read s.current p.unit with
  | .goesOn next => { p with stage := .opening next }
  | .found => { p with first := false, stage := .attached }
  | .stateChanged => { p with first := false, stage := .stopped }

def portsGoOn (i : Nat) (p : PortWatch U P) : FirewallEvent U P → Option (FirewallWatches U P)
  | .startPorts _ =>
    match p.stage with
    | .starting => some (s.setPort i (s.checkPorts p))
    | _ => none
  | .invokePorts _ =>
    match p.stage with
    | .attached =>
      if p.registered then none
      else some (s.setPort i (s.checkPorts { p with registered := true }))
    | _ => none
  | .readPorts _ =>
    match p.stage with
    | .opening next => some (s.setPort i (s.readPorts p next))
    | _ => none
  | _ => none

def step (e : FirewallEvent U P) : Option (FirewallWatches U P) :=
  match e with
  | .setFlag exposed => some (s.changeFlag exposed)
  | .changeTopology t => s.changeTopology t
  | .changePorts u => some (s.changePorts u)
  | .invokeExposed =>
    match s.exposed with
    | .attached =>
      if s.flagRegistered then none
      else some { s with exposed := .listing s.flag, flagRegistered := true }
    | _ => none
  | .exposedGoesOn => s.exposedGoesOn
  | .existsReply r =>
    (s.topology.step (.existsReply r)).map fun topology => { s with topology := topology }
  | .getReply r => s.getReply r
  | .fire r => (s.topology.step (.fire r)).map fun topology => { s with topology := topology }
  | .discard r _ | .watch r _ | .find r | .goOn r | .endCall r =>
    (s.calls r).bind fun call => s.callGoesOn r call e
  | .startPorts i | .invokePorts i | .readPorts i =>
    (s.ports[i]?).bind fun p => s.portsGoOn i p e

/-- The manager has just come to a service, whose state object it has made, and calls
`watch_exposed_flag`. -/
structure Initial : Prop where
  topology : s.topology.Initial
  connected : s.topology.connected = true
  present : s.topology.node ≠ none
  gone : s.gone = []
  exposed : s.exposed = .attached
  flagRegistered : s.flagRegistered = false
  watched : s.watched = none
  sets : s.sets = []
  calls : ∀ r, s.calls r = none
  ports : s.ports = []

/-- The agent has nothing left to do. -/
def Quiescent : Prop := ∀ e : FirewallEvent U P, e.internal = true → s.step e = none

/-- On the next change of the unit's ports one of its watches comes to `open_close_ports`. -/
def OpensOnChange (u : U) : Prop :=
  ∃ i s' p, (s.changePorts u).step (.invokePorts i) = some s' ∧ s'.ports[i]? = some p ∧
    p.unit = u ∧ p.stage = .opening .unit

/-- Every unit of the service, if it is exposed, is under a watch of its ports. -/
def Watched : Prop := s.flag = true → ∀ u ∈ s.current.units, s.OpensOnChange u

/-- The set holds the unit, or will when a call has come to it. -/
def Covered (sets : List (List U)) (calls : Nat → Option (UnitsCall U)) (k : Nat) (u : U) : Prop :=
  u ∈ sets.getD k [] ∨ ∃ r call, calls r = some call ∧ call.set = k ∧ u ∈ call.added

/-- There is a watch of the unit's ports, or will be. -/
def HasPorts (calls : Nat → Option (UnitsCall U)) (ports : List (PortWatch U P)) (u : U) : Prop :=
  (∃ r call, calls r = some call ∧ call.doing = .finding u) ∨
    ∃ p ∈ ports, p.unit = u ∧ p.stage ≠ .stopped

/-- `open_close_ports` finds the unit gone, or the principal that it has just been given. -/
def Vanished (u : U) (next : Locating P) : Prop :=
  match next.read s.current u with
  | .stateChanged => True
  | _ => False

/-- The callback of the exposed flag finds no unit vanished while the service is not watched as
exposed, the first call that a new exposure waits for is given other units than the service state
remembers or only covered ones, and no watched unit loses its last watch of ports to a principal
that has vanished. -/
def Undisturbed : FirewallEvent U P → Prop
  | .exposedGoesOn => ∀ exposed u units next, s.exposed = .opening exposed (u :: units) next →
      s.Vanished u next → s.watched ≠ none
  | .getReply r => s.exposed = .watching r → s.topology.calls r = [] →
      sameUnits (unitNames s.topology.oldTopology) s.current.units →
      ∀ u ∈ s.current.units, Covered s.sets s.calls r u
  | .readPorts i => ∀ p next, s.ports[i]? = some p → p.stage = .opening next →
      s.Vanished p.unit next → p.unit ∈ s.current.units → s.inWatched p.unit = true →
      HasPorts s.calls (s.ports.eraseIdx i) p.unit
  | _ => True

end FirewallWatches

end Juju.State

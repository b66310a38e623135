import Juju.Base.Runs
import Mathlib.Data.List.Dedup
import Mathlib.Data.Finset.Dedup
import Mathlib.Logic.Function.Basic

namespace Juju.Agents
open Juju.Base

/-- The machines as ZooKeeper has them, by the number of their node. -/
structure MachineNodes (I : Type) where
  /-- The machines in the topology. -/
  topology : List Nat
  /-- The nodes of `add_machine_state` calls that have not changed the topology yet. -/
  adding : List Nat
  sequence : Nat
  /-- A machine's node, if there is one, with its "provider-machine-id". -/
  node : Nat → Option (Option I)

/-- Where a pass of `process_machines` waits. -/
inductive PassPoint (I : Type) where
  | getMachines
  | getMachineState (machine : Nat)
  | getInstanceId (machine : Nat)
  | startMachine (machine : Nat)
  | setInstanceIdRead (machine : Nat) (instanceId : I)
  | setInstanceIdWrite (machine : Nat) (instanceId : I)
  | firewall (instanceId : I)
  | shutdownMachine (instanceId : I)

/-- A pass: the machines given to it and those still to be processed, the instances that the
provider has listed, those in use, and those to be shut down. -/
structure Pass (I : Type) where
  currentMachines : List Nat
  remaining : List Nat
  providerMachines : List I
  instanceIds : List I
  unused : List I
  point : PassPoint I
  /-- The pass is one of `watch_machine_changes`. -/
  watched : Bool

/-- The watch of the topology: set, with the machines of a topology that has been read, with
those of one that its callback is at work on, or given up. -/
inductive MachineWatch where
  | set
  | read (newMachines : List Nat)
  | callback (newMachines : List Nat)
  | over

/-- The agent and its world; `none` for the current machines is the initial `()`, and for the
old ones a topology not seen yet. -/
structure ProvisioningAgent (I : Type) where
  nodes : MachineNodes I
  running : Bool
  currentMachines : Option (List Nat)
  oldMachines : Option (List Nat)
  watch : MachineWatch
  pass : Option (Pass I)

inductive ProvisioningEvent (I : Type) where
  -- other clients
  | createNode
  | addMachine (machine : Nat)
  | removeMachine (machine : Nat)
  | removeNode (machine : Nat)
  -- the watch of the topology
  | topologyRead
  | topologyChanged
  | watchFails
  -- the agent
  | periodicMachineCheck
  | stop
  -- the pass under way, where `none` is a ProviderError, and `passFails` any error not caught
  | machinesListed (instances : Option (List I))
  | machineStateRead
  | instanceIdRead
  | machineStarted (instanceId : Option I)
  | nodeRead
  | nodeWritten
  | firewallProcessed
  | machineShutDown
  | passFails

section agent

variable {I : Type} [DecidableEq I] (s : ProvisioningAgent I)

/-- `process_machines`, if the guard lets it start. -/
def processMachines (currentMachines : List Nat) (watched : Bool) : ProvisioningAgent I :=
  match s.pass with
  | some _ => s
  | none =>
    { s with pass := some ⟨currentMachines, currentMachines, [], [], [], .getMachines, watched⟩ }

/-- The end of a pass, on which the watch that has started it is set again. -/
def passEnds (p : Pass I) : ProvisioningAgent I :=
  match p.watched, s.watch with
  | true, .callback newMachines =>
    { s with pass := none, oldMachines := some newMachines, watch := .set }
  | _, _ => { s with pass := none }

/-- The loop that shuts down what is unused. -/
def shutDownNext (p : Pass I) : ProvisioningAgent I :=
  match p.unused with
  | [] => passEnds s p
  | instanceId :: unused =>
    { s with pass := some { p with unused := unused, point := .shutdownMachine instanceId } }

/-- The loop over the machines, up to its next request. -/
def processNext (p : Pass I) : ProvisioningAgent I :=
  match p.remaining with
  | [] =>
    shutDownNext s { p with
      unused := (p.providerMachines.filter fun i => i ∉ p.instanceIds).dedup }
  | machine :: remaining =>
    { s with pass := some { p with remaining := remaining, point := .getMachineState machine } }

def setPoint (p : Pass I) (point : PassPoint I) : ProvisioningAgent I :=
  { s with pass := some { p with point := point } }

/-- A reply that the pass under way waits for. -/
def passStep (p : Pass I) : PassPoint I → ProvisioningEvent I → Option (ProvisioningAgent I)
  | .getMachines, .machinesListed none => some (passEnds s p)
  | .getMachines, .machinesListed (some instances) =>
    some (processNext s { p with providerMachines := instances })
  | .getMachineState machine, .machineStateRead =>
    -- else MachineStateNotFound
    if machine ∈ s.nodes.topology then some (setPoint s p (.getInstanceId machine))
    else some (processNext s p)
  | .getInstanceId machine, .instanceIdRead =>
    match s.nodes.node machine with
    | none => some (processNext s p)
    | some none => some (setPoint s p (.startMachine machine))
    | some (some instanceId) =>
      if instanceId ∈ p.providerMachines then some (setPoint s p (.firewall instanceId))
      else some (setPoint s p (.startMachine machine))
  -- the constraints of a machine whose node is gone are not found either
  | .startMachine _, .machineStarted none => some (processNext s p)
  | .startMachine machine, .machineStarted (some instanceId) =>
    some (setPoint s p (.setInstanceIdRead machine instanceId))
  | .setInstanceIdRead machine instanceId, .nodeRead =>
    match s.nodes.node machine with
    | none => some (processNext s p)
    | some _ => some (setPoint s p (.setInstanceIdWrite machine instanceId))
  | .setInstanceIdWrite machine instanceId, .nodeWritten =>
    let nodes := { s.nodes with
      node := Function.update s.nodes.node machine (some (some instanceId)) }
    some (setPoint { s with nodes := nodes } p (.firewall instanceId))
  -- the firewall manager catches the errors of the provider and of the state
  | .firewall instanceId, .firewallProcessed =>
    some (processNext s { p with instanceIds := p.instanceIds ++ [instanceId] })
  | .shutdownMachine _, .machineShutDown => some (shutDownNext s p)
  | _, .passFails => some (passEnds s p)
  | _, _ => none

def setNodes (nodes : MachineNodes I) : ProvisioningAgent I := { s with nodes := nodes }

/-- The callback of the watch for a topology that has been read; machines are compared as a
set. -/
def topologyChanged (newMachines : List Nat) : ProvisioningAgent I :=
  if s.oldMachines.map List.toFinset = some newMachines.toFinset then
    { s with oldMachines := some newMachines, watch := .set }
  else if s.running then
    let s := { s with currentMachines := some newMachines }
    match s.pass with
    | some _ => { s with oldMachines := some newMachines, watch := .set }
    | none => processMachines { s with watch := .callback newMachines } newMachines true
  -- StopWatcher
  else { s with watch := .over }

/-- One event; `none` where it cannot happen. -/
def ProvisioningAgent.step : ProvisioningEvent I → Option (ProvisioningAgent I)
  | .createNode =>
    some (setNodes s { s.nodes with
      sequence := s.nodes.sequence + 1,
      adding := s.nodes.sequence :: s.nodes.adding,
      node := Function.update s.nodes.node s.nodes.sequence (some none) })
  | .addMachine machine =>
    if machine ∈ s.nodes.adding then
      some (setNodes s { s.nodes with
        topology := machine :: s.nodes.topology,
        adding := s.nodes.adding.filter (· ≠ machine) })
    else none
  | .removeMachine machine =>
    some (setNodes s { s.nodes with topology := s.nodes.topology.filter (· ≠ machine) })
  | .removeNode machine =>
    if machine ∈ s.nodes.topology ∨ machine ∈ s.nodes.adding then none
    else some (setNodes s { s.nodes with node := Function.update s.nodes.node machine none })
  | .topologyRead =>
    match s.watch with
    | .set => some { s with watch := .read s.nodes.topology }
    | _ => none
  | .topologyChanged =>
    match s.watch with
    | .read newMachines => some (topologyChanged s newMachines)
    | _ => none
  | .watchFails =>
    match s.watch with
    | .callback _ => none
    | _ => some { s with watch := .over }
  | .periodicMachineCheck =>
    some (processMachines s (s.currentMachines.getD []) false)
  | .stop => some { s with running := false }
  | e =>
    match s.pass with
    | none => none
    | some p => passStep s p p.point e

end agent

/-- A freshly started agent, in a world whose machine ids are those of the nodes created so far,
and where only machines of the topology have an instance. -/
structure FreshlyStarted {I : Type} (s : ProvisioningAgent I) : Prop where
  running : s.running = true
  current : s.currentMachines = none
  old : s.oldMachines = none
  watch : s.watch = .set
  pass : s.pass = none
  created : ∀ m, m ∈ s.nodes.topology ∨ m ∈ s.nodes.adding → m < s.nodes.sequence
  adding : ∀ m ∈ s.nodes.adding, m ∉ s.nodes.topology ∧ ∀ i, s.nodes.node m ≠ some (some i)

end Juju.Agents

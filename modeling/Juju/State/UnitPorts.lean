import Juju.Base.Dict
import Juju.Lib.SharedNode

namespace Juju.State
open Juju.Base Juju.Lib

/-- An entry of a unit's list of open ports. -/
structure PortProto where
  port : Nat
  proto : String
deriving DecidableEq

/-- A YAML codec for the ports nodes. A text may stand for None, and what is dumped is loaded. -/
structure PortsYaml (T : Type) where
  load : T → Option (Dict String (List PortProto))
  safeDump : Dict String (List PortProto) → T
  dump : Dict String (List PortProto) → T
  load_safeDump : ∀ data, load (safeDump data) = some data
  load_dump : ∀ data, load (dump data) = some data

section calls

variable {T : Type} (yaml : PortsYaml T)

def portsData (content : Option T) : Dict String (List PortProto) :=
  match content with
  | none => ∅
  | some content => (yaml.load content).getD ∅

def zkOpenPort (portProto : PortProto) (content : Option T) : Except Empty T :=
  let data := portsData yaml content
  let openPorts := (data.lookup "open").getD []
  .ok (yaml.safeDump
    (data.insert "open" (if portProto ∉ openPorts then openPorts ++ [portProto] else openPorts)))

def zkClosePort (portProto : PortProto) (content : Option T) : Except Empty T :=
  let data := portsData yaml content
  let openPorts := (data.lookup "open").getD []
  .ok (yaml.dump
    (data.insert "open" (if portProto ∈ openPorts then openPorts.erase portProto else openPorts)))

/-- A call about the ports of a unit. -/
inductive PortCall where
  | openPort (portProto : PortProto)
  | closePort (portProto : PortProto)
  | getOpenPorts

def PortCall.nodeCall : PortCall → NodeCall T Empty
  | .openPort portProto => .change (zkOpenPort yaml portProto)
  | .closePort portProto => .change (zkClosePort yaml portProto)
  | .getOpenPorts => .get

/-- What `get_open_ports` makes of the reply. -/
def getOpenPorts : NodeReply T Empty → List PortProto
  | .content content =>
    match yaml.load content with
    | none => []
    | some data => (data.lookup "open").getD []
  | _ => []

/-- The ports that a node lists as open. -/
def listedPorts (content : Option T) : List PortProto :=
  ((portsData yaml content).lookup "open").getD []

end calls

/-- What a call does to a list of open ports. -/
def PortCall.run (ports : List PortProto) : PortCall → List PortProto
  | .openPort portProto => if portProto ∈ ports then ports else ports ++ [portProto]
  | .closePort portProto => ports.erase portProto
  | .getOpenPorts => ports

/-- Whether a call opens the port or closes it, if it is about this port. -/
def PortCall.opens (portProto : PortProto) : PortCall → Option Bool
  | .openPort p => if p = portProto then some true else none
  | .closePort p => if p = portProto then some false else none
  | .getOpenPorts => none

/-- Whether the last call about a port opened it. -/
def lastOpens (portProto : PortProto) (calls : List PortCall) : Option Bool :=
  calls.reverse.findSome? (PortCall.opens portProto)

section ports

theorem run_nodup (ports : List PortProto) (call : PortCall) (h : ports.Nodup) :
    (call.run ports).Nodup := by
  cases call with
  | openPort portProto =>
    rw [PortCall.run]
    split
    · exact h
    · rename_i hnew
      rw [List.nodup_append]
      refine ⟨h, List.nodup_singleton portProto, fun a ha b hb => ?_⟩
      rw [List.mem_singleton.mp hb]
      exact fun he => hnew (he ▸ ha)
  | closePort portProto => exact h.erase portProto
  | getOpenPorts => exact h

theorem mem_run (ports : List PortProto) (call : PortCall) (portProto : PortProto)
    (h : ports.Nodup) :
    portProto ∈ call.run ports ↔ (call.opens portProto).getD (decide (portProto ∈ ports)) = true := by
  cases call with
  | openPort p =>
    by_cases hp : p = portProto
    · subst hp
      by_cases hin : p ∈ ports <;> simp [PortCall.run, PortCall.opens, hin]
    · have hne : portProto ≠ p := fun he => hp he.symm
      by_cases hin : p ∈ ports <;> simp [PortCall.run, PortCall.opens, hin, hp, hne]
  | closePort p =>
    simp only [PortCall.run, PortCall.opens, h.mem_erase_iff]
    by_cases hp : p = portProto
    · simp [hp]
    · have hne : portProto ≠ p := fun he => hp he.symm
      simp [hp, hne]
  | getOpenPorts => simp [PortCall.run, PortCall.opens]

/-- Calls keep the ports apart, and the last one about a port has the say. -/
theorem runs_ports (calls : List PortCall) (ports : List PortProto) (h : ports.Nodup) :
    (calls.foldl PortCall.run ports).Nodup ∧ ∀ portProto,
      portProto ∈ calls.foldl PortCall.run ports ↔
        (lastOpens portProto calls).getD (decide (portProto ∈ ports)) = true := by
  induction calls using List.reverseRecOn with
  | nil => exact ⟨h, fun portProto => by simp [lastOpens]⟩
  | append_singleton calls call ih =>
    rw [List.foldl_append]
    refine ⟨run_nodup _ call ih.1, fun portProto => ?_⟩
    rw [List.foldl_cons, List.foldl_nil, mem_run _ call portProto ih.1, lastOpens,
      List.reverse_append, List.reverse_singleton, List.singleton_append, List.findSome?_cons]
    cases call.opens portProto with
    | none =>
      rw [Option.getD_none, decide_eq_true_iff, ih.2 portProto]
      rfl
    | some opens => rfl

end ports

section nodes

variable {T : Type} (yaml : PortsYaml T)

theorem listedPorts_load (content : T) (data : Dict String (List PortProto))
    (h : yaml.load content = some data) :
    listedPorts yaml (some content) = (data.lookup "open").getD [] := by
  simp only [listedPorts, portsData, h, Option.getD_some]

/-- The list under "open" is the one that a call writes. -/
theorem listedPorts_apply (content : Option T) (call : PortCall) :
    listedPorts yaml ((call.nodeCall yaml).apply content).1 = call.run (listedPorts yaml content) := by
  cases call with
  | openPort portProto =>
    have hwritten := listedPorts_load yaml _ _ (yaml.load_safeDump
      ((portsData yaml content).insert "open" (if portProto ∉ listedPorts yaml content
        then listedPorts yaml content ++ [portProto] else listedPorts yaml content)))
    rw [Dict.lookup_insert, if_pos rfl, Option.getD_some] at hwritten
    exact hwritten.trans (ite_not _ _ _)
  | closePort portProto =>
    have hwritten := listedPorts_load yaml _ _ (yaml.load_dump
      ((portsData yaml content).insert "open" (if portProto ∈ listedPorts yaml content
        then (listedPorts yaml content).erase portProto else listedPorts yaml content)))
    rw [Dict.lookup_insert, if_pos rfl, Option.getD_some] at hwritten
    refine hwritten.trans ?_
    split
    · rfl
    · rename_i hout
      exact (List.erase_of_not_mem hout).symm
  | getOpenPorts => cases content <;> rfl

theorem listedPorts_calls (base : Option T) (calls : List PortCall) :
    listedPorts yaml (SharedNode.applyAll (PortCall.nodeCall yaml) base calls) =
      calls.foldl PortCall.run (listedPorts yaml base) := by
  induction calls generalizing base with
  | nil => rfl
  | cons call calls ih =>
    rw [List.foldl_cons, ← listedPorts_apply]
    exact ih _

theorem getOpenPorts_reply (content : Option T) :
    getOpenPorts yaml (NodeCall.apply content (.get : NodeCall T Empty)).2 =
      listedPorts yaml content := by
  cases content with
  | none => rfl
  | some content =>
    simp only [NodeCall.apply, getOpenPorts, listedPorts, portsData]
    cases yaml.load content with
    | none => rfl
    | some data => rfl

variable {W : Type} [DecidableEq W] [DecidableEq T]

/-- The ports of a unit under any number of clients: calls take effect one after the other, each
between its start and its return; no port is listed twice, a port is listed just when the last call
about it opened it, and `get_open_ports` returns what the calls before it leave. -/
theorem unit_ports_linearizable (base : Option T) (hbase : (listedPorts yaml base).Nodup)
    (m : SharedNode W PortCall T Empty)
    (h : Reachable (fun m => m.Initial base) (fun m e => m.step (PortCall.nodeCall yaml) e)
      (fun _ _ => True) m) :
    SharedNode.Linearizable (PortCall.nodeCall yaml) base m.history m.content ∧
      (listedPorts yaml m.content).Nodup ∧
      (∀ portProto, portProto ∈ listedPorts yaml m.content ↔
        (lastOpens portProto (SharedNode.appliedCalls m.history)).getD
          (decide (portProto ∈ listedPorts yaml base)) = true) ∧
      ∀ before w reply after, m.history = before ++ .applied w .getOpenPorts reply :: after →
        getOpenPorts yaml reply =
          (SharedNode.appliedCalls before).foldl PortCall.run (listedPorts yaml base) := by
  have hdelete (call : PortCall) : call.nodeCall yaml ≠ .delete := by
    cases call <;> simp [PortCall.nodeCall]
  have hlinear := SharedNode.undeleted_linearizable _ base hdelete m h
  have hcontent := congrArg (listedPorts yaml) (SharedNode.legal_content _ _ hlinear.legal)
  rw [listedPorts_calls] at hcontent
  obtain ⟨hnodup, hmem⟩ := runs_ports (SharedNode.appliedCalls m.history) _ hbase
  rw [← hcontent] at hnodup hmem
  refine ⟨hlinear, hnodup, hmem, fun before w reply after hhistory => ?_⟩
  have hreply := SharedNode.legal_reply before after m.content w .getOpenPorts reply
    (hhistory ▸ hlinear.legal)
  rw [hreply, ← listedPorts_calls]
  exact getOpenPorts_reply yaml _

end nodes

/-- A codec whose texts are the entries. -/
def entriesYaml : PortsYaml (List (Sigma fun _ : String => List PortProto)) where
  load entries := if h : (entries.map Sigma.fst).Nodup then some ⟨entries, h⟩ else none
  safeDump data := data.entries
  dump data := data.entries
  load_safeDump data := dif_pos data.nodupKeys
  load_dump data := dif_pos data.nodupKeys

def httpPort : PortProto := ⟨80, "tcp"⟩

/-- Two clients read a node that is not there yet, and the one that comes later has to try again:
both ports are listed. -/
theorem unit_ports_linearizable_both :
    ∃ m : SharedNode Bool PortCall (List (Sigma fun _ : String => List PortProto)) Empty,
      listedPorts entriesYaml m.content = [httpPort, ⟨443, "tcp"⟩] ∧
      (listedPorts entriesYaml m.content).Nodup ∧
      SharedNode.Linearizable (PortCall.nodeCall entriesYaml) none m.history m.content := by
  have hbase : (listedPorts entriesYaml none).Nodup := List.nodup_nil
  have hrun : Reachable (fun m => m.Initial none)
      (fun (m : SharedNode Bool PortCall _ Empty) e => m.step (PortCall.nodeCall entriesYaml) e)
      (fun _ _ => True) _ :=
    reachable_stepAll (fun _ _ => trivial)
      [.invoke false (.openPort httpPort), .invoke true (.openPort ⟨443, "tcp"⟩), .serve true,
        .serve false, .write false, .write true, .reply false, .serve true, .write true]
      ⟨none, fun _ => .idle, []⟩ _ (.init _ ⟨rfl, fun _ => rfl, rfl⟩) rfl
  have hports := unit_ports_linearizable entriesYaml none hbase _ hrun
  exact ⟨_, rfl, hports.2.1, hports.1⟩

end Juju.State

import Juju.Base.Runs
import Mathlib.Data.List.Induction
import Mathlib.Logic.Function.Basic

namespace Juju.Lib
open Juju.Base

/-- What a client does to a node of a store that keeps a version with each content. -/
inductive NodeCall (C E : Type) where
  /-- Change the content, from the one there is, if any; a change that raises changes nothing. -/
  | change (f : Option C → Except E C)
  | create (content : C)
  | get
  | delete

inductive NodeReply (C E : Type) where
  | done
  | raised (e : E)
  | nodeExists
  | noNode
  | content (content : C)

/-- What a call does, and how it ends, when it is carried out at once. -/
def NodeCall.apply {C E : Type} (node : Option C) : NodeCall C E → Option C × NodeReply C E
  | .change f =>
    match f node with
    | .error e => (node, .raised e)
    | .ok content => (some content, .done)
  | .create content =>
    match node with
    | none => (some content, .done)
    | some _ => (node, .nodeExists)
  | .get =>
    match node with
    | none => (none, .noNode)
    | some content => (node, .content content)
  | .delete =>
    match node with
    | none => (none, .noNode)
    | some _ => (none, .done)

/-- How far a client is with a call. -/
inductive NodeStage (A C E : Type) where
  | idle
  | called (a : A)
  /-- The node was read, with its version if it was there, and is to be written. -/
  | writing (a : A) (read : Option (C × Nat)) (content : C)
  | answered (a : A) (reply : NodeReply C E)

/-- How far a client has come with a call, by what can be told from outside. -/
inductive CallPhase (A C E : Type) where
  | idle
  | invoked (a : A)
  | applied (a : A) (reply : NodeReply C E)

def NodeStage.phase {A C E : Type} : NodeStage A C E → CallPhase A C E
  | .idle => .idle
  | .called a => .invoked a
  | .writing a _ _ => .invoked a
  | .answered a reply => .applied a reply

inductive HistoryEntry (W A C E : Type) where
  | invoked (w : W) (a : A)
  | applied (w : W) (a : A) (reply : NodeReply C E)
  | returned (w : W) (a : A) (reply : NodeReply C E)

def HistoryEntry.client {W A C E : Type} : HistoryEntry W A C E → W
  | .invoked w _ => w
  | .applied w _ _ => w
  | .returned w _ _ => w

def HistoryEntry.appliedCall {W A C E : Type} : HistoryEntry W A C E → Option A
  | .applied _ a _ => some a
  | _ => none

/-- A node with its version, the clients, named by `W`, with the calls that they make, named by
`A`, and all that has come about. -/
structure SharedNode (W A C E : Type) where
  node : Option (C × Nat)
  stages : W → NodeStage A C E
  history : List (HistoryEntry W A C E)

inductive NodeEvent (W A : Type) where
  | invoke (w : W) (a : A)
  /-- The store serves a client's first request. -/
  | serve (w : W)
  /-- It serves the request by which a change is written. -/
  | write (w : W)
  | reply (w : W)

namespace SharedNode

variable {W A C E : Type} [DecidableEq W]

section steps

variable (m : SharedNode W A C E)

def content : Option C := m.node.map Prod.fst

def setStage (w : W) (stage : NodeStage A C E) : SharedNode W A C E :=
  { m with stages := Function.update m.stages w stage }

def log (entry : HistoryEntry W A C E) : SharedNode W A C E :=
  { m with history := m.history ++ [entry] }

/-- A call takes effect. -/
def answer (w : W) (a : A) (reply : NodeReply C E) : SharedNode W A C E :=
  (m.setStage w (.answered a reply)).log (.applied w a reply)

variable [DecidableEq C]

/-- A change reads the node; a content that stays as it is is not written. -/
def read (w : W) (a : A) (f : Option C → Except E C) : SharedNode W A C E :=
  match f m.content with
  | .error e => m.answer w a (.raised e)
  | .ok content =>
    if m.content = some content then m.answer w a .done
    else m.setStage w (.writing a m.node content)

def serve (w : W) (a : A) : NodeCall C E → SharedNode W A C E
  | .change f => m.read w a f
  | .create content =>
    match m.node with
    | none => { m.answer w a .done with node := some (content, 0) }
    | some _ => m.answer w a .nodeExists
  | .get =>
    match m.node with
    | none => m.answer w a .noNode
    | some (content, _) => m.answer w a (.content content)
  | .delete =>
    match m.node with
    | none => m.answer w a .noNode
    | some _ => { m.answer w a .done with node := none }

/-- A node that was not there is created, and one that was there is set if it has the version
that was read. The versions of a node that is created again start again. -/
def write (w : W) (a : A) (read : Option (C × Nat)) (content : C) : SharedNode W A C E :=
  match read, m.node with
  | none, none => { m.answer w a .done with node := some (content, 0) }
  | some (_, version), some (_, current) =>
    if version = current then { m.answer w a .done with node := some (content, version + 1) }
    else m.setStage w (.called a)
  | _, _ => m.setStage w (.called a)

variable (op : A → NodeCall C E)

def step : NodeEvent W A → Option (SharedNode W A C E)
  | .invoke w a =>
    match m.stages w with
    | .idle => some ((m.setStage w (.called a)).log (.invoked w a))
    | _ => none
  | .serve w =>
    match m.stages w with
    | .called a => some (m.serve w a (op a))
    | _ => none
  | .write w =>
    match m.stages w with
    | .writing a read content => some (m.write w a read content)
    | _ => none
  | .reply w =>
    match m.stages w with
    | .answered a reply => some ((m.setStage w .idle).log (.returned w a reply))
    | _ => none

structure Initial (base : Option C) : Prop where
  content : m.content = base
  idle : ∀ w, m.stages w = .idle
  history : m.history = []

end steps

/-- The calls that are applied, one after the other, make the content and the replies. -/
inductive Legal (op : A → NodeCall C E) (base : Option C) :
    List (HistoryEntry W A C E) → Option C → Prop where
  | start : Legal op base [] base
  | invoked (history : List (HistoryEntry W A C E)) (content : Option C) (w : W) (a : A) :
      Legal op base history content → Legal op base (history ++ [.invoked w a]) content
  | applied (history : List (HistoryEntry W A C E)) (content : Option C) (w : W) (a : A) :
      Legal op base history content →
      Legal op base (history ++ [.applied w a ((op a).apply content).2]) ((op a).apply content).1
  | returned (history : List (HistoryEntry W A C E)) (content : Option C) (w : W) (a : A)
      (reply : NodeReply C E) : Legal op base history content →
      Legal op base (history ++ [.returned w a reply]) content

/-- A client's calls follow one another, and each is applied once between its start and its
return, and returns what it was answered. -/
inductive Traces (w : W) : List (HistoryEntry W A C E) → CallPhase A C E → Prop where
  | start : Traces w [] .idle
  | other (history : List (HistoryEntry W A C E)) (phase : CallPhase A C E)
      (entry : HistoryEntry W A C E) : entry.client ≠ w → Traces w history phase →
      Traces w (history ++ [entry]) phase
  | invoked (history : List (HistoryEntry W A C E)) (a : A) : Traces w history .idle →
      Traces w (history ++ [.invoked w a]) (.invoked a)
  | applied (history : List (HistoryEntry W A C E)) (a : A) (reply : NodeReply C E) :
      Traces w history (.invoked a) →
      Traces w (history ++ [.applied w a reply]) (.applied a reply)
  | returned (history : List (HistoryEntry W A C E)) (a : A) (reply : NodeReply C E) :
      Traces w history (.applied a reply) → Traces w (history ++ [.returned w a reply]) .idle

/-- The calls could have been carried out one after the other. -/
structure Linearizable (op : A → NodeCall C E) (base : Option C)
    (history : List (HistoryEntry W A C E)) (content : Option C) : Prop where
  legal : Legal op base history content
  traces : ∀ w, ∃ phase, Traces w history phase

section invariant

variable (op : A → NodeCall C E) (base : Option C)

/-- What holds while calls are under way. -/
structure Linear (m : SharedNode W A C E) : Prop where
  legal : Legal op base m.history m.content
  traces : ∀ w, Traces w m.history (m.stages w).phase
  writing : ∀ w a read content, m.stages w = .writing a read content →
    ∃ f, op a = .change f ∧ f (read.map Prod.fst) = .ok content

omit [DecidableEq W] in
theorem linear_linearizable (m : SharedNode W A C E) (h : Linear op base m) :
    Linearizable op base m.history m.content :=
  ⟨h.legal, fun w => ⟨_, h.traces w⟩⟩

/-- A change that is to be written sets the content that it read. -/
def TrueWrite (m : SharedNode W A C E) : NodeEvent W A → Prop
  | .write w => ∀ a content version new current,
      m.stages w = .writing a (some (content, version)) new → m.node = some (current, version) →
      current = content
  | _ => True

variable {op base} {m : SharedNode W A C E} (h : Linear op base m)
include h

/-- A stage of the same phase. -/
theorem setStage_linear (w : W) (stage : NodeStage A C E)
    (hphase : stage.phase = (m.stages w).phase)
    (hwriting : ∀ a read content, stage = .writing a read content →
      ∃ f, op a = .change f ∧ f (read.map Prod.fst) = .ok content) :
    Linear op base (m.setStage w stage) := by
  refine ⟨h.legal, fun w' => ?_, fun w' a read content hw' => ?_⟩
  · simp only [setStage, Function.update_apply]
    split
    · rename_i hw
      rw [hphase, ← hw]
      exact h.traces w'
    · exact h.traces w'
  · simp only [setStage, Function.update_apply] at hw'
    split at hw'
    · exact hwriting a read content hw'
    · exact h.writing w' a read content hw'

/-- An entry about a client is added, and the client goes on to the phase it tells of. -/
theorem entry_linear (w : W) (stage : NodeStage A C E) (entry : HistoryEntry W A C E)
    (node : Option (C × Nat)) (hclient : entry.client = w)
    (hlegal : Legal op base (m.history ++ [entry]) (node.map Prod.fst))
    (htraces : Traces w (m.history ++ [entry]) stage.phase)
    (hstage : ∀ a read content, stage ≠ .writing a read content) :
    Linear op base { (m.setStage w stage).log entry with node := node } := by
  refine ⟨hlegal, fun w' => ?_, fun w' a read content hw' => ?_⟩
  · simp only [log, setStage, Function.update_apply]
    split
    · rename_i hw
      rw [hw]
      exact htraces
    · rename_i hw
      exact .other _ _ entry (fun he => hw (he.symm.trans hclient)) (h.traces w')
  · simp only [log, setStage, Function.update_apply] at hw'
    split at hw'
    · exact absurd hw' (hstage a read content)
    · exact h.writing w' a read content hw'

theorem answer_linear (w : W) (a : A) (reply : NodeReply C E) (node : Option (C × Nat))
    (hphase : (m.stages w).phase = .invoked a)
    (happly : (op a).apply m.content = (node.map Prod.fst, reply)) :
    Linear op base { m.answer w a reply with node := node } := by
  have hlegal := Legal.applied m.history m.content w a h.legal
  rw [happly] at hlegal
  have htraces := h.traces w
  rw [hphase] at htraces
  exact entry_linear h w (.answered a reply) _ node rfl hlegal (.applied _ a reply htraces)
    (by simp)

variable [DecidableEq C]

theorem read_linear (w : W) (a : A) (f : Option C → Except E C) (hop : op a = .change f)
    (hphase : (m.stages w).phase = .invoked a) : Linear op base (m.read w a f) := by
  unfold read
  split
  · rename_i e he
    refine answer_linear h w a _ m.node hphase ?_
    rw [hop, NodeCall.apply, he]
    rfl
  · rename_i new hnew
    split
    · rename_i hsame
      refine answer_linear h w a _ m.node hphase ?_
      rw [hop, NodeCall.apply, hnew]
      exact congrArg (·, NodeReply.done) hsame.symm
    · refine setStage_linear h w _ hphase.symm fun b read content hb => ?_
      cases hb
      exact ⟨f, hop, hnew⟩

theorem serve_linear (w : W) (a : A) (hphase : (m.stages w).phase = .invoked a) :
    Linear op base (m.serve w a (op a)) := by
  cases hop : op a with
  | change f => exact read_linear h w a f hop hphase
  | create new =>
    rw [serve]
    split
    · rename_i hnode
      exact answer_linear h w a .done (some (new, 0)) hphase
        (by simp [hop, NodeCall.apply, content, hnode])
    · rename_i c hnode
      exact answer_linear h w a .nodeExists m.node hphase
        (by simp [hop, NodeCall.apply, content, hnode])
  | get =>
    rw [serve]
    split
    · rename_i hnode
      exact answer_linear h w a .noNode m.node hphase
        (by simp [hop, NodeCall.apply, content, hnode])
    · rename_i c version hnode
      exact answer_linear h w a (.content c) m.node hphase
        (by simp [hop, NodeCall.apply, content, hnode])
  | delete =>
    rw [serve]
    split
    · rename_i hnode
      exact answer_linear h w a .noNode m.node hphase
        (by simp [hop, NodeCall.apply, content, hnode])
    · rename_i c hnode
      exact answer_linear h w a .done none hphase (by simp [hop, NodeCall.apply, content, hnode])

omit [DecidableEq C] in
theorem write_linear (w : W) (a : A) (read : Option (C × Nat)) (new : C)
    (hstage : m.stages w = .writing a read new) (htrue : TrueWrite m (.write w : NodeEvent W A)) :
    Linear op base (m.write w a read new) := by
  have hphase : (m.stages w).phase = .invoked a := by rw [hstage]; rfl
  obtain ⟨f, hop, hf⟩ := h.writing w a read new hstage
  have hagain : Linear op base (m.setStage w (.called a)) :=
    setStage_linear h w _ hphase.symm fun b read content hb => by cases hb
  unfold write
  split
  · rename_i hnode
    refine answer_linear h w a .done (some (new, 0)) hphase ?_
    have hnone : m.content = none := by rw [content, hnode]; rfl
    have hread : f none = .ok new := hf
    rw [hop, NodeCall.apply, hnone, hread]
    rfl
  · rename_i seen version current k hnode
    split
    · rename_i hversion
      subst hversion
      have hread : f (some seen) = .ok new := hf
      have hsame := htrue a seen version new current hstage hnode
      refine answer_linear h w a .done (some (new, version + 1)) hphase ?_
      have hcontent : m.content = some seen := by rw [content, hnode, hsame]; rfl
      rw [hop, NodeCall.apply, hcontent, hread]
      rfl
    · exact hagain
  · exact hagain

theorem step_linear (m' : SharedNode W A C E) (e : NodeEvent W A) (htrue : TrueWrite m e)
    (hstep : step m op e = some m') : Linear op base m' := by
  cases e with
  | invoke w a =>
    simp only [step] at hstep
    split at hstep
    · rename_i hidle
      obtain rfl := Option.some.inj hstep
      have htraces := h.traces w
      rw [hidle] at htraces
      exact entry_linear h w (.called a) _ m.node rfl (.invoked _ _ w a h.legal)
        (.invoked _ a htraces) (by simp)
    · cases hstep
  | serve w =>
    simp only [step] at hstep
    split at hstep
    · rename_i a hstage
      obtain rfl := Option.some.inj hstep
      exact serve_linear h w a (by rw [hstage]; rfl)
    · cases hstep
  | write w =>
    simp only [step] at hstep
    split at hstep
    · rename_i a read new hstage
      obtain rfl := Option.some.inj hstep
      exact write_linear h w a read new hstage htrue
    · cases hstep
  | reply w =>
    simp only [step] at hstep
    split at hstep
    · rename_i a reply hstage
      obtain rfl := Option.some.inj hstep
      have htraces := h.traces w
      rw [hstage] at htraces
      exact entry_linear h w .idle _ m.node rfl (.returned _ _ w a reply h.legal)
        (.returned _ a reply htraces) (by simp)
    · cases hstep

end invariant

section runs

variable [DecidableEq C] (op : A → NodeCall C E) (base : Option C)

omit [DecidableEq W] [DecidableEq C] in
theorem initial_linear (m : SharedNode W A C E) (h : m.Initial base) : Linear op base m := by
  refine ⟨?_, fun w => ?_, fun w a read content hw => ?_⟩
  · rw [h.history, h.content]
    exact .start
  · rw [h.history, h.idle]
    exact .start
  · rw [h.idle] at hw
    cases hw

/-- A content that a change has read is still there, or has gone with its version. -/
structure Versioned (m : SharedNode W A C E) : Prop where
  writing : ∀ w a c version new, m.stages w = .writing a (some (c, version)) new →
    ∃ current k, m.node = some (current, k) ∧ version ≤ k ∧ (version = k → current = c)

section versions

variable {op base} {m : SharedNode W A C E} (h : Versioned m)
include h

omit [DecidableEq W] [DecidableEq C] in
theorem versioned_trueWrite (e : NodeEvent W A) : TrueWrite m e := by
  cases e with
  | write w =>
    intro a c version new current hstage hnode
    obtain ⟨current', k, hnode', -, hsame⟩ := h.writing w a c version new hstage
    rw [hnode] at hnode'
    obtain ⟨rfl, rfl⟩ := Prod.mk.inj (Option.some.inj hnode')
    exact hsame rfl
  | _ => trivial

omit [DecidableEq C] in
/-- The node is left as it is, or gets a later version. -/
theorem setStage_versioned (w : W) (stage : NodeStage A C E) (node : Option (C × Nat))
    (history : List (HistoryEntry W A C E))
    (hnode : ∀ current k, m.node = some (current, k) →
      ∃ current' k', node = some (current', k') ∧ (k < k' ∨ current' = current ∧ k' = k))
    (hstage : ∀ a read new, stage = .writing a read new → read = node) :
    Versioned { m.setStage w stage with node := node, history := history } := by
  refine ⟨fun w' a c version new hw' => ?_⟩
  simp only [setStage, Function.update_apply] at hw'
  split at hw'
  · exact ⟨c, version, (hstage a _ new hw').symm, Nat.le_refl _, fun _ => rfl⟩
  · obtain ⟨current, k, hold, hle, hsame⟩ := h.writing w' a c version new hw'
    obtain ⟨current', k', hnew, hlater | ⟨rfl, rfl⟩⟩ := hnode current k hold
    · exact ⟨current', k', hnew, by omega, fun he => by omega⟩
    · exact ⟨current', k', hnew, hle, hsame⟩

theorem step_versioned (hdelete : ∀ a, op a ≠ .delete) (m' : SharedNode W A C E)
    (e : NodeEvent W A) (hstep : step m op e = some m') : Versioned m' := by
  have hsame (current : C) (k : Nat) (hnode : m.node = some (current, k)) :
      ∃ current' k', m.node = some (current', k') ∧
        (k < k' ∨ current' = current ∧ k' = k) := ⟨current, k, hnode, Or.inr ⟨rfl, rfl⟩⟩
  have hnone (hnode : m.node = none) (node : Option (C × Nat)) (current : C) (k : Nat)
      (hsome : m.node = some (current, k)) : ∃ current' k', node = some (current', k') ∧
        (k < k' ∨ current' = current ∧ k' = k) := by rw [hnode] at hsome; cases hsome
  cases e with
  | invoke w a =>
    simp only [step] at hstep
    split at hstep
    · obtain rfl := Option.some.inj hstep
      exact setStage_versioned h w _ m.node _ hsame (by simp)
    · cases hstep
  | serve w =>
    simp only [step] at hstep
    split at hstep
    · rename_i a hstage
      obtain rfl := Option.some.inj hstep
      have hanswer (reply : NodeReply C E) : Versioned (m.answer w a reply) :=
        setStage_versioned h w _ m.node _ hsame (by simp)
      cases hop : op a with
      | change f =>
        rw [serve, read]
        split
        · exact hanswer _
        · split
          · exact hanswer _
          · refine setStage_versioned h w _ m.node m.history hsame fun b read new hb => ?_
            cases hb
            rfl
      | create new =>
        rw [serve]
        split
        · rename_i hnode
          exact setStage_versioned h w _ _ _ (hnone hnode _) (by simp)
        · exact hanswer _
      | get =>
        rw [serve]
        split
        · exact hanswer _
        · exact hanswer _
      | delete => exact absurd hop (hdelete a)
    · cases hstep
  | write w =>
    simp only [step] at hstep
    split at hstep
    · obtain rfl := Option.some.inj hstep
      unfold write
      split
      · rename_i hnode _
        exact setStage_versioned h w _ _ _ (hnone hnode _) (by simp)
      · rename_i version current k hnode _
        split
        · refine setStage_versioned h w _ _ _ (fun current' k' hnode' => ?_) (by simp)
          rw [hnode] at hnode'
          obtain ⟨rfl, rfl⟩ := Prod.mk.inj (Option.some.inj hnode')
          exact ⟨_, _, rfl, Or.inl (by omega)⟩
        · exact setStage_versioned h w _ m.node m.history hsame (by simp)
      · exact setStage_versioned h w _ m.node m.history hsame (by simp)
    · cases hstep
  | reply w =>
    simp only [step] at hstep
    split at hstep
    · obtain rfl := Option.some.inj hstep
      exact setStage_versioned h w _ m.node _ hsame (by simp)
    · cases hstep

end versions

/-- Calls that never delete the node are linearizable. -/
theorem undeleted_linearizable (hdelete : ∀ a, op a ≠ .delete) (m : SharedNode W A C E)
    (h : Reachable (fun m => m.Initial base) (fun m e => step m op e) (fun _ _ => True) m) :
    Linearizable op base m.history m.content := by
  have hinv := reachable_invariant (fun m => Linear op base m ∧ Versioned m)
    (fun m hm => ⟨initial_linear op base m hm, ⟨fun w a c version new hw => by
      rw [hm.idle] at hw
      cases hw⟩⟩)
    (fun m m' e hm _ hs => ⟨step_linear hm.1 m' e (versioned_trueWrite hm.2 e) hs,
      step_versioned hm.2 hdelete m' e hs⟩) m h
  exact linear_linearizable op base m hinv.1

/-- Calls that only ever write contents of a kind, and none of them over another. -/
structure WriteOnce (op : A → NodeCall C E) (kind : C → Prop) : Prop where
  change : ∀ a f, op a = .change f → ∀ node content, (∀ c, node = some c → kind c) →
    f node = .ok content → kind content ∧ ∀ c, node = some c → content = c
  create : ∀ a content, op a = .create content → kind content

omit [DecidableEq W] [DecidableEq C] in
variable {op} in
theorem writeOnce_apply {kind : C → Prop} (honce : WriteOnce op kind) (node : Option C)
    (hnode : ∀ c, node = some c → kind c) (a : A) (c : C)
    (hc : ((op a).apply node).1 = some c) : kind c := by
  cases hop : op a with
  | change f =>
    simp only [hop, NodeCall.apply] at hc
    split at hc
    · exact hnode c hc
    · rename_i content hf
      cases hc
      exact (honce.change a f hop node c hnode hf).1
  | create content =>
    simp only [hop, NodeCall.apply] at hc
    split at hc
    · cases hc
      exact honce.create a c hop
    · exact hnode c hc
  | get =>
    simp only [hop, NodeCall.apply] at hc
    split at hc
    · cases hc
    · exact hnode c hc
  | delete =>
    simp only [hop, NodeCall.apply] at hc
    split at hc
    · cases hc
    · cases hc

/-- The contents are of the kind, and nothing is about to be written over one. -/
structure Creating (kind : C → Prop) (m : SharedNode W A C E) : Prop where
  node : ∀ c version, m.node = some (c, version) → kind c
  writing : ∀ w a read new, m.stages w = .writing a read new → read = none ∧ kind new

omit [DecidableEq C] in
theorem setStage_creating {kind : C → Prop} {m : SharedNode W A C E} (h : Creating kind m) (w : W)
    (stage : NodeStage A C E) (node : Option (C × Nat)) (history : List (HistoryEntry W A C E))
    (hnode : ∀ c version, node = some (c, version) → kind c)
    (hstage : ∀ a read new, stage = .writing a read new → read = none ∧ kind new) :
    Creating kind { m.setStage w stage with node := node, history := history } := by
  refine ⟨hnode, fun w' a read new hw' => ?_⟩
  simp only [setStage, Function.update_apply] at hw'
  split at hw'
  · exact hstage a read new hw'
  · exact h.writing w' a read new hw'

variable {op} in
theorem serve_creating {kind : C → Prop} (honce : WriteOnce op kind) (m : SharedNode W A C E)
    (h : Creating kind m) (w : W) (a : A) : Creating kind (m.serve w a (op a)) := by
  have hanswer (reply : NodeReply C E) : Creating kind (m.answer w a reply) :=
    setStage_creating h w _ m.node _ h.node (by simp)
  cases hop : op a with
  | change f =>
    rw [serve, read]
    split
    · exact hanswer _
    · rename_i new hnew
      split
      · exact hanswer _
      · rename_i hchanged
        have hkind (c : C) (hc : m.content = some c) : kind c := by
          obtain ⟨p, hp, rfl⟩ := Option.map_eq_some_iff.mp hc
          exact h.node p.1 p.2 hp
        obtain ⟨hnewKind, hkept⟩ := honce.change a f hop m.content new hkind hnew
        refine setStage_creating h w _ m.node m.history h.node fun b read content hb => ?_
        cases hb
        refine ⟨?_, hnewKind⟩
        -- A content that is there would be kept, and not written.
        cases hnode : m.node with
        | none => rfl
        | some c =>
          have hcontent : m.content = some c.1 := by rw [SharedNode.content, hnode]; rfl
          exact absurd (hcontent.trans (congrArg some (hkept c.1 hcontent).symm)) hchanged
  | create new =>
    rw [serve]
    split
    · refine setStage_creating h w _ _ _ (fun c version hc => ?_) (by simp)
      cases hc
      exact honce.create a _ hop
    · exact hanswer _
  | get =>
    rw [serve]
    split
    · exact hanswer _
    · exact hanswer _
  | delete =>
    rw [serve]
    split
    · exact hanswer _
    · exact setStage_creating h w _ none _ (by simp) (by simp)

variable {op} in
theorem step_creating {kind : C → Prop} (honce : WriteOnce op kind) (m m' : SharedNode W A C E)
    (h : Creating kind m) (e : NodeEvent W A) (hstep : step m op e = some m') :
    Creating kind m' := by
  have hsame (w : W) (stage : NodeStage A C E) (history : List (HistoryEntry W A C E))
      (hstage : ∀ a read new, stage ≠ .writing a read new) :
      Creating kind { m.setStage w stage with history := history } :=
    setStage_creating h w stage m.node history h.node
      fun a read new he => absurd he (hstage a read new)
  cases e with
  | invoke w a =>
    simp only [step] at hstep
    split at hstep
    · obtain rfl := Option.some.inj hstep
      exact hsame w _ _ (by simp)
    · cases hstep
  | serve w =>
    simp only [step] at hstep
    split at hstep
    · rename_i a _
      obtain rfl := Option.some.inj hstep
      exact serve_creating honce m h w a
    · cases hstep
  | write w =>
    simp only [step] at hstep
    split at hstep
    · rename_i a read new hstage
      obtain rfl := Option.some.inj hstep
      obtain ⟨rfl, hnew⟩ := h.writing w a read new hstage
      unfold write
      split
      · refine setStage_creating h w _ _ _ (fun c version hc => ?_) (by simp)
        cases hc
        exact hnew
      · rename_i hread _
        cases hread
      · exact hsame w _ m.history (by simp)
    · cases hstep
  | reply w =>
    simp only [step] at hstep
    split at hstep
    · obtain rfl := Option.some.inj hstep
      exact hsame w _ _ (by simp)
    · cases hstep

/-- Calls that may delete the node are linearizable when none writes over a content. -/
theorem writeOnce_linearizable (kind : C → Prop) (honce : WriteOnce op kind)
    (hbase : ∀ c, base = some c → kind c) (m : SharedNode W A C E)
    (h : Reachable (fun m => m.Initial base) (fun m e => step m op e) (fun _ _ => True) m) :
    Linearizable op base m.history m.content := by
  have hinv := reachable_invariant (fun m => Linear op base m ∧ Creating kind m)
    (fun m hm => by
      refine ⟨initial_linear op base m hm, fun c version hc => ?_, fun w a read new hw => ?_⟩
      · exact hbase c (hm.content.symm.trans (congrArg (Option.map Prod.fst) hc))
      · rw [hm.idle] at hw
        cases hw)
    (fun m m' e hm _ hs => by
      have htrue : TrueWrite m e := by
        cases e with
        | write w =>
          intro a c version new current hstage
          cases (hm.2.writing w a _ new hstage).1
        | _ => trivial
      exact ⟨step_linear hm.1 m' e htrue hs, step_creating honce m m' hm.2 e hs⟩) m h
  exact linear_linearizable op base m hinv.1

end runs

section legal

variable (op : A → NodeCall C E) (base : Option C)

/-- The calls that a history applies, in order. -/
def appliedCalls (history : List (HistoryEntry W A C E)) : List A := 
  history.filterMap HistoryEntry.appliedCall

/-- What calls make of a content, one after the other. -/
def applyAll (calls : List A) : Option C := calls.foldl (fun c a => ((op a).apply c).1) base

variable {op base}

omit [DecidableEq W] in
@[simp] theorem appliedCalls_append (h₁ h₂ : List (HistoryEntry W A C E)) :
    appliedCalls (h₁ ++ h₂) = appliedCalls h₁ ++ appliedCalls h₂ := List.filterMap_append

@[simp] theorem applyAll_append (calls₁ calls₂ : List A) :
    applyAll op base (calls₁ ++ calls₂) = applyAll op (applyAll op base calls₁) calls₂ :=
  List.foldl_append

omit [DecidableEq W] in
/-- What there is comes from the calls that were applied. -/
theorem legal_content (history : List (HistoryEntry W A C E)) (content : Option C)
    (h : Legal op base history content) : content = applyAll op base (appliedCalls history) := by
  induction h with
  | start => rfl
  | invoked history content w a _ ih =>
    have hcall : appliedCalls [(.invoked w a : HistoryEntry W A C E)] = [] := rfl
    rw [appliedCalls_append, hcall, List.append_nil, ih]
  | returned history content w a reply _ ih =>
    have hcall : appliedCalls [HistoryEntry.returned w a reply] = [] := rfl
    rw [appliedCalls_append, hcall, List.append_nil, ih]
  | applied history content w a _ ih =>
    have hcall : appliedCalls [HistoryEntry.applied w a ((op a).apply content).2] = [a] := rfl
    rw [appliedCalls_append, hcall, applyAll_append, ← ih]
    rfl

omit [DecidableEq W] in
/-- The part of a history up to an entry. -/
theorem legal_before (before after : List (HistoryEntry W A C E)) (content : Option C)
    (h : Legal op base (before ++ after) content) : ∃ c, Legal op base before c := by
  induction after using List.reverseRecOn generalizing content with
  | nil => exact ⟨content, by simpa using h⟩
  | append_singleton after entry ih =>
    rw [← List.append_assoc] at h
    generalize hhistory : before ++ after ++ [entry] = history at h
    cases h with
    | start => simp at hhistory
    | invoked history content w a hrest =>
      exact ih _ ((List.append_inj_left' hhistory rfl) ▸ hrest)
    | applied history content w a hrest =>
      exact ih _ ((List.append_inj_left' hhistory rfl) ▸ hrest)
    | returned history content w a reply hrest =>
      exact ih _ ((List.append_inj_left' hhistory rfl) ▸ hrest)

omit [DecidableEq W] in
/-- A call is answered as the calls before it have it. -/
theorem legal_reply (before after : List (HistoryEntry W A C E)) (content : Option C) (w : W)
    (a : A) (reply : NodeReply C E)
    (h : Legal op base (before ++ .applied w a reply :: after) content) :
    reply = ((op a).apply (applyAll op base (appliedCalls before))).2 := by
  have hassoc : before ++ HistoryEntry.applied w a reply :: after =
      before ++ [HistoryEntry.applied w a reply] ++ after := by simp
  rw [hassoc] at h
  obtain ⟨c, hc⟩ := legal_before _ _ _ h
  generalize hhistory : before ++ [HistoryEntry.applied w a reply] = history at hc
  cases hc with
  | start => simp at hhistory
  | invoked history content w' a' _ => cases (List.append_inj' hhistory rfl).2
  | applied history content w' a' hrest =>
    obtain ⟨rfl, hentry⟩ := List.append_inj' hhistory rfl
    cases hentry
    rw [legal_content _ _ hrest]
  | returned history content w' a' reply' _ => cases (List.append_inj' hhistory rfl).2

end legal

end SharedNode

end Juju.Lib

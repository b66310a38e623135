import Juju.Base.Dict
import Juju.Base.ListEdit
import Juju.Base.Runs

namespace Juju.Unit
open Juju.Base

/-- A map of internal relation ids to retry settings. -/
abbrev RelationMap := Dict String Nat

def retryHooks : Nat := 1000

def noHooks : Nat := 1001

inductive ResolveError where
  | valueError (text : String)
  | relationResolvedAlreadyEnabled
  deriving DecidableEq

/-- The values of both that disagree. -/
def mergeConflict (d1 d2 : RelationMap) : Bool :=
  d1.entries.any fun e => (d2.lookup e.1).any fun v => decide (e.2 ≠ v)

/-- `dict_merge`, where `none` stands for `StateChanged`. -/
def dictMerge (d1 d2 : RelationMap) : Option RelationMap :=
  if mergeConflict d1 d2 then none else some (Dict.update d1 d2)

/-- The relation-resolved node. Its version starts again when it is created again; how much had come
about when it was created tells it from the one that was deleted. -/
structure ResolvedNode where
  content : RelationMap
  version : Nat
  created : Nat

/-- What `retry_change` is about to write: a new node, or a content over the node it read. -/
inductive Write where
  | create (content : RelationMap)
  | set (read : ResolvedNode) (content : RelationMap)

/-- A client's `set_relation_resolved`. -/
inductive ResolveCall where
  | idle
  | reading (relationMap : RelationMap)
  | writing (relationMap : RelationMap) (write : Write)
  | ended (result : Except ResolveError Unit)

/-- The agent's `_process_relation_resolved_changes`, under the run lock; `seen` is how much had
come about when it read the node. -/
inductive Handling where
  | idle
  | read (relationResolved : RelationMap) (seen : Nat)
  | cleared (relationResolved : RelationMap)

/-- What has come about: a request was accepted, or the relations of those marked were processed
that the lifecycle knew. -/
inductive ResolveEntry where
  | accepted (relationMap : RelationMap)
  | processed (marked relations : List String)

/-- `set(relation_resolved).intersection(self._relations)`. -/
def processedKeys (marked relations : List String) : List String :=
  marked.filter fun id => id ∈ relations

/-- The relation-resolved node, the agent and the clients, named by `C`; and all that has come
about, in order. -/
structure RelationResolves (C : Type) where
  node : Option ResolvedNode
  handling : Handling
  calls : C → ResolveCall
  log : List ResolveEntry

inductive ResolveEvent (C : Type) where
  | start (c : C) (relationMap : RelationMap)
  /-- A client reads the node, and has the new content at once. -/
  | get (c : C)
  | write (c : C)
  | getRelationResolved
  | clearRelationResolved
  /-- The transitions of the relations that were marked, of those that the lifecycle knows. -/
  | process (relations : List String)

variable {C : Type} [DecidableEq C]

namespace RelationResolves

def setCall (s : RelationResolves C) (c : C) (call : ResolveCall) : RelationResolves C :=
  { s with calls := Function.update s.calls c call }

/-- A request takes effect, and its call returns. -/
def accept (s : RelationResolves C) (c : C) (relationMap : RelationMap) : RelationResolves C :=
  { s.setCall c (.ended (.ok ())) with log := s.log ++ [.accepted relationMap] }

def start (s : RelationResolves C) (c : C) (relationMap : RelationMap) : RelationResolves C :=
  if relationMap.entries.all fun e => e.2 = retryHooks ∨ e.2 = noHooks then
    s.setCall c (.reading relationMap)
  else s.setCall c (.ended (.error (.valueError "Invalid setting for retry hook")))

/-- `update_relation_resolved` on what was read; a content that stays as it is is not written. -/
def get (s : RelationResolves C) (c : C) (relationMap : RelationMap) : RelationResolves C :=
  match s.node with
  | none => s.setCall c (.writing relationMap (.create relationMap))
  | some node =>
    match dictMerge node.content relationMap with
    | none => s.setCall c (.ended (.error .relationResolvedAlreadyEnabled))
    | some merged =>
      if ∀ e ∈ merged.entries, node.content.lookup e.1 = some e.2 then s.accept c relationMap
      else s.setCall c (.writing relationMap (.set node merged))

/-- A node is created, or set if it has the version that was read. -/
def write (s : RelationResolves C) (c : C) (relationMap : RelationMap) : Write → RelationResolves C
  | .create content =>
    match s.node with
    | none => { s.accept c relationMap with node := some ⟨content, 0, s.log.length⟩ }
    | some _ => s.setCall c (.reading relationMap)
  | .set read content =>
    match s.node with
    | none => s.setCall c (.reading relationMap)
    | some node =>
      if read.version = node.version then
        { s.accept c relationMap with node := some ⟨content, node.version + 1, node.created⟩ }
      else s.setCall c (.reading relationMap)

def step (s : RelationResolves C) : ResolveEvent C → Option (RelationResolves C)
  | .start c relationMap =>
    match s.calls c with
    | .idle | .ended _ => some (s.start c relationMap)
    | _ => none
  | .get c =>
    match s.calls c with
    | .reading relationMap => some (s.get c relationMap)
    | _ => none
  | .write c =>
    match s.calls c with
    | .writing relationMap write => some (s.write c relationMap write)
    | _ => none
  | .getRelationResolved =>
    match s.handling, s.node with
    | .idle, none => some s
    | .idle, some node => some { s with handling := .read node.content s.log.length }
    | _, _ => none
  | .clearRelationResolved =>
    match s.handling with
    | .read relationResolved _ => some { s with node := none, handling := .cleared relationResolved }
    | _ => none
  | .process relations =>
    match s.handling with
    | .cleared relationResolved => some { s with
        handling := .idle
        log := s.log ++ [.processed relationResolved.keys relations] }
    | _ => none

/-- Nothing requested, and nothing recorded but by these calls. -/
structure Initial (s : RelationResolves C) : Prop where
  node : s.node = none
  handling : s.handling = .idle
  calls : ∀ c, s.calls c = .idle
  log : s.log = []

end RelationResolves

/-- A relation id of an accepted request that was in no map the agent has handled since. -/
def Owed (log : List ResolveEntry) (id : String) : Prop :=
  ∃ before relationMap after, log = before ++ .accepted relationMap :: after ∧ id ∈ relationMap ∧
    ∀ marked relations, .processed marked relations ∈ after → id ∉ marked

/-- The agent has deleted the node and has yet to process what it had read. -/
def AboutToProcess (s : RelationResolves C) (id : String) : Prop :=
  ∃ relationResolved, s.handling = .cleared relationResolved ∧ id ∈ relationResolved

/-- What is owed is recorded in the node, or about to be processed. -/
def Kept (s : RelationResolves C) : Prop :=
  ∀ id, Owed s.log id → (∃ node, s.node = some node ∧ id ∈ node.content) ∨ AboutToProcess s id

/-- A request that is accepted between the agent's read and its delete asks for nothing new. A
client that writes over a node that was created again since its read, and has the same version,
writes what the requests accepted since then ask for, where it is not being handled. -/
def NotOvertaken (s : RelationResolves C) : ResolveEvent C → Prop
  | .clearRelationResolved => ∀ relationResolved seen, s.handling = .read relationResolved seen →
      ∀ relationMap, .accepted relationMap ∈ s.log.drop seen →
        ∀ id ∈ relationMap, id ∈ relationResolved
  | .write c => ∀ relationMap read content node,
      s.calls c = .writing relationMap (.set read content) → s.node = some node →
      read.version = node.version → read.created ≠ node.created →
      ∀ id, Owed (s.log.drop node.created) id → id ∈ content ∨ AboutToProcess s id
  | _ => True

section log

theorem owed_accepted (log : List ResolveEntry) (relationMap : RelationMap) (id : String) :
    Owed (log ++ [.accepted relationMap]) id ↔ Owed log id ∨ id ∈ relationMap := by
  constructor
  · rintro ⟨before, map, after, hlog, hid, hafter⟩
    rcases snoc_cut log before after _ _ hlog with ⟨-, hentry, -⟩ | ⟨after', rfl, hcut⟩
    · injection hentry with hmap
      exact .inr (hmap ▸ hid)
    · refine .inl ⟨before, map, after', hcut, hid, fun marked relations hin => ?_⟩
      exact hafter marked relations (List.mem_append_left _ hin)
  · rintro (⟨before, map, after, rfl, hid, hafter⟩ | hid)
    · refine ⟨before, map, after ++ [.accepted relationMap], by simp, hid, fun marked relations h => ?_⟩
      rcases List.mem_append.mp h with hold | hnew
      · exact hafter marked relations hold
      · cases List.mem_singleton.mp hnew
    · exact ⟨log, relationMap, [], rfl, hid, nofun⟩

theorem not_owed_nil (id : String) : ¬ Owed [] id := by
  rintro ⟨before, map, after, hlog, -⟩
  cases before <;> cases hlog

/-- What is owed to later requests is owed. -/
theorem owed_append (log log' : List ResolveEntry) (id : String) (h : Owed log' id) :
    Owed (log ++ log') id := by
  obtain ⟨before, map, after, rfl, hid, hafter⟩ := h
  exact ⟨log ++ before, map, after, by simp, hid, hafter⟩

theorem owed_drop (log : List ResolveEntry) (n : Nat) (id : String) (h : Owed (log.drop n) id) :
    Owed log id := by
  have howed := owed_append (log.take n) _ id h
  rwa [List.take_append_drop] at howed

/-- Nothing was handled since a part of the log, so that what is owed was owed then or was asked for
since. -/
theorem owed_unhandled (log log' : List ResolveEntry)
    (h : ∀ marked relations, .processed marked relations ∉ log') (id : String) :
    Owed (log ++ log') id ↔
      Owed log id ∨ ∃ relationMap, .accepted relationMap ∈ log' ∧ id ∈ relationMap := by
  constructor
  · rintro ⟨before, map, after, hlog, hid, hafter⟩
    rcases List.append_eq_append_iff.mp hlog with ⟨rest, rfl, hrest⟩ | ⟨rest, hsplit, hrest⟩
    · refine .inr ⟨map, ?_, hid⟩
      rw [hrest]
      exact List.mem_append_right _ List.mem_cons_self
    · cases rest with
      | nil =>
        rw [List.nil_append] at hrest
        refine .inr ⟨map, ?_, hid⟩
        rw [← hrest]
        exact List.mem_cons_self
      | cons entry rest =>
        obtain ⟨rfl, rfl⟩ := List.cons.inj hrest
        exact .inl ⟨before, map, rest, hsplit, hid, fun marked relations hin =>
          hafter marked relations (List.mem_append_left _ hin)⟩
  · rintro (⟨before, map, after, rfl, hid, hafter⟩ | ⟨map, hin, hid⟩)
    · refine ⟨before, map, after ++ log', by simp, hid, fun marked relations hin => ?_⟩
      rcases List.mem_append.mp hin with hold | hnew
      · exact hafter marked relations hold
      · exact absurd hnew (h marked relations)
    · obtain ⟨before, after, rfl⟩ := List.append_of_mem hin
      exact ⟨log ++ before, map, after, by simp, hid, fun marked relations hmem =>
        absurd (List.mem_append_right _ (List.mem_cons_of_mem _ hmem)) (h marked relations)⟩

theorem owed_processed (log : List ResolveEntry) (marked relations : List String) (id : String) :
    Owed (log ++ [.processed marked relations]) id ↔ Owed log id ∧ id ∉ marked := by
  constructor
  · rintro ⟨before, map, after, hlog, hid, hafter⟩
    rcases snoc_cut log before after _ _ hlog with ⟨-, hentry, -⟩ | ⟨after', rfl, hcut⟩
    · cases hentry
    · refine ⟨⟨before, map, after', hcut, hid, fun marked' relations' hin => ?_⟩, ?_⟩
      · exact hafter marked' relations' (List.mem_append_left _ hin)
      · exact hafter marked relations (List.mem_append_right _ List.mem_cons_self)
  · rintro ⟨⟨before, map, after, rfl, hid, hafter⟩, hmarked⟩
    refine ⟨before, map, after ++ [.processed marked relations], by simp, hid,
      fun marked' relations' h => ?_⟩
    rcases List.mem_append.mp h with hold | hnew
    · exact hafter marked' relations' hold
    · injection List.mem_singleton.mp hnew with hsame
      exact hsame ▸ hmarked

end log

section merge

theorem dictMerge_mem (d1 d2 merged : RelationMap) (h : dictMerge d1 d2 = some merged)
    (id : String) : id ∈ merged ↔ id ∈ d1 ∨ id ∈ d2 := by
  unfold dictMerge at h
  split at h
  · cases h
  · obtain rfl := Option.some.inj h
    simp only [Dict.mem_iff_lookup, Dict.lookup_update]
    cases d2.lookup id <;> simp

/-- A merge that adds nothing has had all of the request. -/
theorem unchanged_mem (content relationMap merged : RelationMap)
    (hmerge : dictMerge content relationMap = some merged)
    (hsame : ∀ e ∈ merged.entries, content.lookup e.1 = some e.2) (id : String)
    (hid : id ∈ relationMap) : id ∈ content := by
  have hin := (dictMerge_mem content relationMap merged hmerge id).mpr (.inr hid)
  obtain ⟨v, hv⟩ := (Dict.mem_iff_lookup _ _).mp hin
  have hlookup := hsame ⟨id, v⟩ ((Dict.mem_entries_iff merged ⟨id, v⟩).mpr hv)
  exact (Dict.mem_iff_lookup _ _).mpr ⟨v, hlookup⟩

end merge

section steps

variable (s : RelationResolves C)

/-- What is written is what was read and what is requested. -/
def Write.Merged (relationMap : RelationMap) : Write → Prop
  | .create content => content = relationMap
  | .set read content => ∀ id, id ∈ content ↔ id ∈ read.content ∨ id ∈ relationMap

/-- A client about to write writes all that it has read and requests. -/
def WritesRequested : Prop :=
  ∀ c relationMap write, s.calls c = .writing relationMap write → write.Merged relationMap

theorem setCall_writes (c : C) (call : ResolveCall) (h : WritesRequested s)
    (hcall : ∀ relationMap write, call = .writing relationMap write → write.Merged relationMap) :
    WritesRequested (s.setCall c call) := by
  intro c' relationMap write hc'
  by_cases hc : c' = c
  · subst hc
    rw [RelationResolves.setCall] at hc'
    dsimp only at hc'
    rw [Function.update_self] at hc'
    exact hcall relationMap write hc'
  · rw [RelationResolves.setCall] at hc'
    dsimp only at hc'
    rw [Function.update_of_ne hc] at hc'
    exact h c' relationMap write hc'

theorem get_writes (c : C) (relationMap : RelationMap) (h : WritesRequested s) :
    WritesRequested (s.get c relationMap) := by
  unfold RelationResolves.get
  split
  · refine setCall_writes s c _ h fun map write hcall => ?_
    injection hcall with hmap hwrite
    subst hmap hwrite
    rfl
  · split
    · exact setCall_writes s c _ h nofun
    · rename_i merged hmerge
      split
      · exact setCall_writes s c _ h nofun
      · refine setCall_writes s c _ h fun map write hcall => ?_
        injection hcall with hmap hwrite
        subst hmap hwrite
        exact dictMerge_mem _ _ _ hmerge

theorem write_writes (c : C) (relationMap : RelationMap) (write : Write) (h : WritesRequested s) :
    WritesRequested (s.write c relationMap write) := by
  unfold RelationResolves.write
  split
  · split
    · exact setCall_writes s c _ h nofun
    · exact setCall_writes s c _ h nofun
  · split
    · exact setCall_writes s c _ h nofun
    · split
      · exact setCall_writes s c _ h nofun
      · exact setCall_writes s c _ h nofun

theorem step_writes (s' : RelationResolves C) (e : ResolveEvent C) (h : WritesRequested s)
    (hs : s.step e = some s') : WritesRequested s' := by
  cases e with
  | start c relationMap =>
    unfold RelationResolves.step at hs
    dsimp only at hs
    have hstart : WritesRequested (s.start c relationMap) := by
      unfold RelationResolves.start
      split
      · exact setCall_writes s c _ h nofun
      · exact setCall_writes s c _ h nofun
    split at hs
    · exact Option.some.inj hs ▸ hstart
    · exact Option.some.inj hs ▸ hstart
    · cases hs
  | get c =>
    unfold RelationResolves.step at hs
    dsimp only at hs
    split at hs
    · exact Option.some.inj hs ▸ get_writes s c _ h
    · cases hs
  | write c =>
    unfold RelationResolves.step at hs
    dsimp only at hs
    split at hs
    · exact Option.some.inj hs ▸ write_writes s c _ _ h
    · cases hs
  | getRelationResolved =>
    unfold RelationResolves.step at hs
    dsimp only at hs
    split at hs
    · exact Option.some.inj hs ▸ h
    · obtain rfl := Option.some.inj hs
      exact h
    · cases hs
  | clearRelationResolved =>
    unfold RelationResolves.step at hs
    dsimp only at hs
    split at hs
    · obtain rfl := Option.some.inj hs
      exact h
    · cases hs
  | process relations =>
    unfold RelationResolves.step at hs
    dsimp only at hs
    split at hs
    · obtain rfl := Option.some.inj hs
      exact h
    · cases hs

/-- What is known of a node by when it was created and its version. -/
structure Recorded : Prop where
  /-- What a client has read was created before now; as long as it was not created again, it has not
  gone back in its version, and with the same version it is what was read. -/
  read : ∀ c relationMap read content, s.calls c = .writing relationMap (.set read content) →
    read.created < s.log.length ∧
    ∀ node, s.node = some node → read.created = node.created →
      read.version ≤ node.version ∧ (read.version = node.version → read = node)
  /-- What was owed before the node was created is being handled. -/
  created : ∀ node, s.node = some node → node.created < s.log.length ∧
    ∀ id, Owed s.log id → Owed (s.log.drop node.created) id ∨ AboutToProcess s id
  /-- The agent has read what was owed then, and has handled nothing since. -/
  seen : ∀ relationResolved n, s.handling = .read relationResolved n →
    n ≤ s.log.length ∧ (∀ id, Owed (s.log.take n) id → id ∈ relationResolved) ∧
    ∀ marked relations, .processed marked relations ∉ s.log.drop n

/-- What a step does, by what it makes of the node. -/
inductive Stepped : ResolveEvent C → RelationResolves C → Prop where
  | calls (e : ResolveEvent C) (c : C) (call : ResolveCall)
      (hcall : ∀ relationMap read content, call ≠ .writing relationMap (.set read content))
      (hnot : NotOvertaken s e) : Stepped e (s.setCall c call)
  | reads (c : C) (relationMap content : RelationMap) (node : ResolvedNode)
      (hnode : s.node = some node) :
      Stepped (.get c) (s.setCall c (.writing relationMap (.set node content)))
  | agrees (c : C) (relationMap : RelationMap) (node : ResolvedNode) (hnode : s.node = some node)
      (hin : ∀ id ∈ relationMap, id ∈ node.content) : Stepped (.get c) (s.accept c relationMap)
  | creates (c : C) (relationMap : RelationMap)
      (hcall : s.calls c = .writing relationMap (.create relationMap)) (hnode : s.node = none) :
      Stepped (.write c)
        { s.accept c relationMap with node := some ⟨relationMap, 0, s.log.length⟩ }
  | sets (c : C) (relationMap content : RelationMap) (read node : ResolvedNode)
      (hcall : s.calls c = .writing relationMap (.set read content)) (hnode : s.node = some node)
      (hversion : read.version = node.version)
      (hmerged : ∀ id, id ∈ content ↔ id ∈ read.content ∨ id ∈ relationMap) :
      Stepped (.write c)
        { s.accept c relationMap with node := some ⟨content, node.version + 1, node.created⟩ }
  | findsNone : Stepped .getRelationResolved s
  | finds (node : ResolvedNode) (hnode : s.node = some node) (hidle : s.handling = .idle) :
      Stepped .getRelationResolved { s with handling := .read node.content s.log.length }
  | clears (relationResolved : RelationMap) (seen : Nat)
      (hread : s.handling = .read relationResolved seen) :
      Stepped .clearRelationResolved { s with node := none, handling := .cleared relationResolved }
  | processes (relationResolved : RelationMap) (relations : List String)
      (hcleared : s.handling = .cleared relationResolved) :
      Stepped (.process relations) { s with
        handling := .idle
        log := s.log ++ [.processed relationResolved.keys relations] }

theorem get_stepped (c : C) (relationMap : RelationMap) :
    Stepped s (.get c) (s.get c relationMap) := by
  unfold RelationResolves.get
  split
  · exact .calls _ c _ (by simp) trivial
  · rename_i node hnode
    split
    · exact .calls _ c _ (by simp) trivial
    · rename_i merged hmerge
      split
      · rename_i hsame
        exact .agrees c relationMap node hnode
          (unchanged_mem node.content relationMap merged hmerge hsame)
      · exact .reads c relationMap merged node hnode

theorem write_stepped (c : C) (relationMap : RelationMap) (write : Write)
    (hmerged : write.Merged relationMap) (hc : s.calls c = .writing relationMap write) :
    Stepped s (.write c) (s.write c relationMap write) := by
  cases write with
  | create content =>
    obtain rfl : content = relationMap := hmerged
    have hnot : NotOvertaken s (.write c) := by
      intro map read written node hcall
      rw [hc] at hcall
      cases hcall
    dsimp only [RelationResolves.write]
    split
    · rename_i hnode
      exact .creates c content hc hnode
    · exact .calls _ c _ (by simp) hnot
  | set read content =>
    dsimp only [RelationResolves.write]
    split
    · rename_i hnode
      refine .calls _ c _ (by simp) fun map read' written node _ hsome => ?_
      rw [hnode] at hsome
      cases hsome
    · rename_i node hnode
      split
      · rename_i hversion
        exact .sets c relationMap content read node hc hnode hversion hmerged
      · rename_i hversion
        refine .calls _ c _ (by simp) fun map read' written node' hcall hsome hsame => ?_
        rw [hc] at hcall
        rw [hnode] at hsome
        cases hcall
        cases hsome
        exact absurd hsame hversion

theorem step_stepped (s' : RelationResolves C) (e : ResolveEvent C) (h : WritesRequested s)
    (hs : s.step e = some s') : Stepped s e s' := by
  cases e with
  | start c relationMap =>
    have hstart : Stepped s (.start c relationMap) (s.start c relationMap) := by
      unfold RelationResolves.start
      split <;> exact .calls _ c _ (by simp) trivial
    unfold RelationResolves.step at hs
    dsimp only at hs
    split at hs
    · exact Option.some.inj hs ▸ hstart
    · exact Option.some.inj hs ▸ hstart
    · cases hs
  | get c =>
    unfold RelationResolves.step at hs
    dsimp only at hs
    split at hs
    · exact Option.some.inj hs ▸ get_stepped s c _
    · cases hs
  | write c =>
    unfold RelationResolves.step at hs
    dsimp only at hs
    split at hs
    · rename_i relationMap write hc
      exact Option.some.inj hs ▸ write_stepped s c _ _ (h c relationMap write hc) hc
    · cases hs
  | getRelationResolved =>
    unfold RelationResolves.step at hs
    dsimp only at hs
    split at hs
    · exact Option.some.inj hs ▸ .findsNone
    · rename_i node hidle hnode
      exact Option.some.inj hs ▸ .finds node hnode hidle
    · cases hs
  | clearRelationResolved =>
    unfold RelationResolves.step at hs
    dsimp only at hs
    split at hs
    · rename_i relationResolved seen hread
      exact Option.some.inj hs ▸ .clears relationResolved seen hread
    · cases hs
  | process relations =>
    unfold RelationResolves.step at hs
    dsimp only at hs
    split at hs
    · rename_i relationResolved hcleared
      exact Option.some.inj hs ▸ .processes relationResolved relations hcleared
    · cases hs

variable {s}

/-- A call that is about to write in the next state was so before, or is the one that has read. -/
theorem setCall_writing (c c' : C) (call : ResolveCall) (relationMap : RelationMap)
    (read : ResolvedNode) (content : RelationMap)
    (h : (s.setCall c call).calls c' = .writing relationMap (.set read content)) :
    s.calls c' = .writing relationMap (.set read content) ∨
      call = .writing relationMap (.set read content) := by
  dsimp only [RelationResolves.setCall] at h
  by_cases hc : c' = c
  · subst hc
    rw [Function.update_self] at h
    exact .inr h
  · rw [Function.update_of_ne hc] at h
    exact .inl h

theorem accepted_writing (c c' : C) (map relationMap : RelationMap) (read : ResolvedNode)
    (content : RelationMap)
    (h : (s.accept c map).calls c' = .writing relationMap (.set read content)) :
    s.calls c' = .writing relationMap (.set read content) := by
  rcases setCall_writing c c' _ relationMap read content h with hold | hended
  · exact hold
  · cases hended

omit [DecidableEq C] in
/-- What is owed once more has come about was owed since the node was created, or is asked for. -/
theorem accepted_created (relationMap : RelationMap) (n : Nat) (hn : n ≤ s.log.length) (id : String)
    (h : Owed s.log id → Owed (s.log.drop n) id ∨ AboutToProcess s id)
    (howed : Owed (s.log ++ [.accepted relationMap]) id) :
    Owed ((s.log ++ [ResolveEntry.accepted relationMap]).drop n) id ∨ AboutToProcess s id := by
  rw [List.drop_append_of_le_length hn, owed_accepted]
  rcases (owed_accepted s.log relationMap id).mp howed with hold | hnew
  · rcases h hold with hsince | hpending
    · exact .inl (.inl hsince)
    · exact .inr hpending
  · exact .inl (.inr hnew)

theorem accepted_seen (c : C) (relationMap relationResolved : RelationMap) (n : Nat)
    (h : Recorded s) (hread : s.handling = .read relationResolved n) :
    n ≤ (s.accept c relationMap).log.length ∧
      (∀ id, Owed ((s.accept c relationMap).log.take n) id → id ∈ relationResolved) ∧
      ∀ marked relations, .processed marked relations ∉ (s.accept c relationMap).log.drop n := by
  obtain ⟨hn, hids, hnone⟩ := h.seen relationResolved n hread
  refine ⟨?_, fun id howed => hids id ?_, fun marked relations hin => ?_⟩
  · rw [RelationResolves.accept, List.length_append]
    exact Nat.le_add_right_of_le hn
  · rw [RelationResolves.accept, List.take_append_of_le_length hn] at howed
    exact howed
  · rw [RelationResolves.accept, List.drop_append_of_le_length hn] at hin
    rcases List.mem_append.mp hin with hold | hnew
    · exact hnone marked relations hold
    · cases List.mem_singleton.mp hnew

theorem accepted_length (c : C) (relationMap : RelationMap) :
    (s.accept c relationMap).log.length = s.log.length + 1 := by
  rw [RelationResolves.accept, List.length_append]
  rfl

theorem stepped_recorded (s' : RelationResolves C) (e : ResolveEvent C) (hkept : Kept s)
    (h : Recorded s) (hs : Stepped s e s') : Recorded s' := by
  cases hs with
  | calls e c call hcall hnot =>
    refine ⟨fun c' map read content hc' => ?_, h.created, h.seen⟩
    rcases setCall_writing c c' call map read content hc' with hold | hnew
    · exact h.read c' map read content hold
    · exact absurd hnew (hcall map read content)
  | reads c relationMap content node hnode =>
    refine ⟨fun c' map read written hc' => ?_, h.created, h.seen⟩
    rcases setCall_writing c c' _ map read written hc' with hold | hnew
    · exact h.read c' map read written hold
    · cases hnew
      refine ⟨(h.created node hnode).1, fun node' hnode' _ => ?_⟩
      obtain rfl : node = node' := Option.some.inj (hnode.symm.trans hnode')
      exact ⟨le_rfl, fun _ => rfl⟩
  | agrees c relationMap node hnode hin =>
    refine ⟨fun c' map read content hc' => ?_, fun node' hnode' => ?_,
      fun map n => accepted_seen c relationMap map n h⟩
    · obtain ⟨hlt, hsame⟩ := h.read c' map read content (accepted_writing c c' relationMap map read content hc')
      exact ⟨(accepted_length c relationMap).symm ▸ Nat.lt_succ_of_lt hlt, hsame⟩
    · obtain ⟨hlt, howed⟩ := h.created node' hnode'
      exact ⟨(accepted_length c relationMap).symm ▸ Nat.lt_succ_of_lt hlt, fun id hid =>
        accepted_created relationMap node'.created (Nat.le_of_lt hlt) id (howed id) hid⟩
  | creates c relationMap hcall hnode =>
    refine ⟨fun c' map read content hc' => ?_, fun node' hnode' => ?_,
      fun map n => accepted_seen c relationMap map n h⟩
    · obtain ⟨hlt, -⟩ := h.read c' map read content (accepted_writing c c' relationMap map read content hc')
      refine ⟨(accepted_length c relationMap).symm ▸ Nat.lt_succ_of_lt hlt,
        fun node' hnode' hsame => ?_⟩
      obtain rfl := Option.some.inj hnode'
      exact absurd hsame (Nat.ne_of_lt hlt)
    · obtain rfl := Option.some.inj hnode'
      refine ⟨(accepted_length c relationMap).symm ▸ Nat.lt_succ_self _, fun id hid => ?_⟩
      refine accepted_created relationMap s.log.length le_rfl id (fun hold => .inr ?_) hid
      rcases hkept id hold with ⟨node, hsome, -⟩ | hpending
      · rw [hnode] at hsome
        cases hsome
      · exact hpending
  | sets c relationMap content read node hcall hnode hversion hmerged =>
    refine ⟨fun c' map read' content' hc' => ?_, fun node' hnode' => ?_,
      fun map n => accepted_seen c relationMap map n h⟩
    · obtain ⟨hlt, hsame⟩ :=
        h.read c' map read' content' (accepted_writing c c' relationMap map read' content' hc')
      refine ⟨(accepted_length c relationMap).symm ▸ Nat.lt_succ_of_lt hlt,
        fun node' hnode' hcreated => ?_⟩
      obtain rfl := Option.some.inj hnode'
      have hle := (hsame node hnode hcreated).1
      exact ⟨Nat.le_succ_of_le hle, fun heq => absurd heq (Nat.ne_of_lt (Nat.lt_succ_of_le hle))⟩
    · obtain rfl := Option.some.inj hnode'
      obtain ⟨hlt, howed⟩ := h.created node hnode
      exact ⟨(accepted_length c relationMap).symm ▸ Nat.lt_succ_of_lt hlt, fun id hid =>
        accepted_created relationMap node.created (Nat.le_of_lt hlt) id (howed id) hid⟩
  | findsNone => exact h
  | finds node hnode hidle =>
    have hnone : ∀ id, ¬ AboutToProcess s id := by
      rintro id ⟨map, hcleared, -⟩
      rw [hidle] at hcleared
      cases hcleared
    refine ⟨h.read, fun node' hnode' => ?_, fun map n hread => ?_⟩
    · obtain ⟨hlt, howed⟩ := h.created node' hnode'
      exact ⟨hlt, fun id hid => .inl ((howed id hid).resolve_right (hnone id))⟩
    · cases hread
      refine ⟨le_rfl, fun id howed => ?_, fun marked relations hin => ?_⟩
      · rw [List.take_length] at howed
        rcases hkept id howed with ⟨node', hnode', hin⟩ | hpending
        · obtain rfl : node = node' := Option.some.inj (hnode.symm.trans hnode')
          exact hin
        · exact absurd hpending (hnone id)
      · rw [List.drop_length] at hin
        exact absurd hin List.not_mem_nil
  | clears relationResolved seen hread =>
    refine ⟨fun c map read content hc => ⟨(h.read c map read content hc).1, fun node hnode => ?_⟩,
      fun node hnode => ?_, fun map n hread => ?_⟩
    · cases hnode
    · cases hnode
    · cases hread
  | processes relationResolved relations hcleared =>
    have hlength : ∀ n, n < s.log.length → n < (s.log ++
        [ResolveEntry.processed relationResolved.keys relations]).length := by
      intro n hn
      rw [List.length_append]
      exact Nat.lt_add_right _ hn
    refine ⟨fun c map read content hc => ?_, fun node hnode => ?_, fun map n hread => ?_⟩
    · obtain ⟨hlt, hsame⟩ := h.read c map read content hc
      exact ⟨hlength _ hlt, hsame⟩
    · obtain ⟨hlt, howed⟩ := h.created node hnode
      refine ⟨hlength _ hlt, fun id hid => .inl ?_⟩
      obtain ⟨hold, hmarked⟩ := (owed_processed s.log _ relations id).mp hid
      rw [List.drop_append_of_le_length (Nat.le_of_lt hlt), owed_processed]
      refine ⟨(howed id hold).resolve_right ?_, hmarked⟩
      rintro ⟨map, hmap, hin⟩
      rw [hcleared] at hmap
      cases hmap
      exact hmarked (AList.mem_keys.mp hin)
    · cases hread

/-- A client that writes over the node it has read writes what is recorded, and more. -/
theorem sets_kept_iff (c : C) (relationMap content : RelationMap) (read node : ResolvedNode)
    (hkept : Kept s) (h : Recorded s)
    (hcall : s.calls c = .writing relationMap (.set read content)) (hnode : s.node = some node)
    (hversion : read.version = node.version)
    (hmerged : ∀ id, id ∈ content ↔ id ∈ read.content ∨ id ∈ relationMap) :
    Kept { s.accept c relationMap with
      node := some ⟨content, node.version + 1, node.created⟩ } ↔ NotOvertaken s (.write c) := by
  constructor
  · intro hafter map read' content' node' hcall' hnode' _ _ id howed
    rw [hcall] at hcall'
    rw [hnode] at hnode'
    cases hcall'
    cases hnode'
    have hlater := (owed_accepted s.log relationMap id).mpr (.inl (owed_drop _ _ id howed))
    rcases hafter id hlater with ⟨written, hwritten, hin⟩ | hpending
    · obtain rfl := Option.some.inj hwritten
      exact .inl hin
    · exact .inr hpending
  · intro hnot id howed
    rcases (owed_accepted s.log relationMap id).mp howed with hold | hnew
    · by_cases hcreated : read.created = node.created
      · rcases hkept id hold with ⟨node', hnode', hin⟩ | hpending
        · obtain rfl : node = node' := Option.some.inj (hnode.symm.trans hnode')
          obtain rfl := ((h.read c _ _ _ hcall).2 node hnode hcreated).2 hversion
          exact .inl ⟨_, rfl, (hmerged id).mpr (.inl hin)⟩
        · exact .inr hpending
      · rcases (h.created node hnode).2 id hold with hsince | hpending
        · rcases hnot relationMap read content node hcall hnode hversion hcreated id hsince with
            hin | hpending
          · exact .inl ⟨_, rfl, hin⟩
          · exact .inr hpending
        · exact .inr hpending
    · exact .inl ⟨_, rfl, (hmerged id).mpr (.inr hnew)⟩

omit [DecidableEq C] in
theorem clears_kept_iff (relationResolved : RelationMap) (seen : Nat) (h : Recorded s)
    (hread : s.handling = .read relationResolved seen) :
    Kept { s with node := none, handling := .cleared relationResolved } ↔
      NotOvertaken s .clearRelationResolved := by
  obtain ⟨hn, hids, hnone⟩ := h.seen relationResolved seen hread
  have howed (id : String) : Owed s.log id ↔ Owed (s.log.take seen) id ∨
      ∃ relationMap, ResolveEntry.accepted relationMap ∈ s.log.drop seen ∧ id ∈ relationMap := by
    have hsplit := owed_unhandled (s.log.take seen) (s.log.drop seen) hnone id
    rwa [List.take_append_drop] at hsplit
  constructor
  · intro hkept map n hmap relationMap hin id hid
    rw [hread] at hmap
    cases hmap
    rcases hkept id ((howed id).mpr (.inr ⟨relationMap, hin, hid⟩)) with
      ⟨node, hnode, -⟩ | ⟨map, hcleared, hhandled⟩
    · cases hnode
    · cases hcleared
      exact hhandled
  · intro hnot id hid
    refine .inr ⟨relationResolved, rfl, ?_⟩
    rcases (howed id).mp hid with hbefore | ⟨relationMap, hin, hnew⟩
    · exact hids id hbefore
    · exact hnot relationResolved seen hread relationMap hin id hnew

/-- A step keeps what is owed just when nothing overtakes it. -/
theorem step_kept_iff (s' : RelationResolves C) (e : ResolveEvent C) (hkept : Kept s)
    (h : Recorded s) (hwrites : WritesRequested s) (hs : s.step e = some s') :
    Kept s' ↔ NotOvertaken s e := by
  cases step_stepped s s' e hwrites hs with
  | calls e c call hcall hnot => exact iff_of_true hkept hnot
  | reads c relationMap content node hnode => exact iff_of_true hkept trivial
  | agrees c relationMap node hnode hin =>
    refine iff_of_true (fun id hid => ?_) trivial
    rcases (owed_accepted s.log relationMap id).mp hid with hold | hnew
    · exact hkept id hold
    · exact .inl ⟨node, hnode, hin id hnew⟩
  | creates c relationMap hcall hnode =>
    refine iff_of_true (fun id hid => ?_) fun map read content node hc => ?_
    · rcases (owed_accepted s.log relationMap id).mp hid with hold | hnew
      · rcases hkept id hold with ⟨node, hsome, -⟩ | hpending
        · rw [hnode] at hsome
          cases hsome
        · exact .inr hpending
      · exact .inl ⟨_, rfl, hnew⟩
    · rw [hcall] at hc
      cases hc
  | sets c relationMap content read node hcall hnode hversion hmerged =>
    exact sets_kept_iff c relationMap content read node hkept h hcall hnode hversion hmerged
  | findsNone => exact iff_of_true hkept trivial
  | finds node hnode hidle =>
    refine iff_of_true (fun id hid => ?_) trivial
    rcases hkept id hid with hrecorded | ⟨map, hcleared, -⟩
    · exact .inl hrecorded
    · rw [hidle] at hcleared
      cases hcleared
  | clears relationResolved seen hread => exact clears_kept_iff relationResolved seen h hread
  | processes relationResolved relations hcleared =>
    refine iff_of_true (fun id hid => ?_) trivial
    obtain ⟨hold, hmarked⟩ := (owed_processed s.log _ relations id).mp hid
    rcases hkept id hold with hrecorded | ⟨map, hmap, hin⟩
    · exact .inl hrecorded
    · rw [hcleared] at hmap
      cases hmap
      exact absurd (AList.mem_keys.mp hin) hmarked

end steps

/-- An accepted request is kept as long as nothing overtakes it: each of its relation ids is
processed after it was accepted, if the lifecycle knows it, or recorded, or about to be processed;
and only a step that overtakes what is owed loses it. -/
theorem accepted_requests_kept (s : RelationResolves C)
    (h : Reachable RelationResolves.Initial RelationResolves.step NotOvertaken s) :
    (∀ before relationMap after, s.log = before ++ .accepted relationMap :: after →
      ∀ id ∈ relationMap,
        (∃ marked relations, .processed marked relations ∈ after ∧ id ∈ marked ∧
          (id ∈ relations → id ∈ processedKeys marked relations)) ∨
        (∃ node, s.node = some node ∧ id ∈ node.content) ∨
        AboutToProcess s id) ∧
    ∀ e s', s.step e = some s' → (Kept s' ↔ NotOvertaken s e) := by
  have hinv := reachable_invariant
    (fun s : RelationResolves C => Kept s ∧ Recorded s ∧ WritesRequested s)
    (fun s hinit => by
      refine ⟨fun id hid => ?_, ⟨fun c map read content hc => ?_, fun node hnode => ?_,
        fun map n hread => ?_⟩, fun c relationMap write hc => ?_⟩
      · rw [hinit.log] at hid
        exact absurd hid (not_owed_nil id)
      · rw [hinit.calls c] at hc
        cases hc
      · rw [hinit.node] at hnode
        cases hnode
      · rw [hinit.handling] at hread
        cases hread
      · rw [hinit.calls c] at hc
        cases hc)
    (fun s s' e hi he hs =>
      ⟨(step_kept_iff s' e hi.1 hi.2.1 hi.2.2 hs).mpr he,
        stepped_recorded s' e hi.1 hi.2.1 (step_stepped s s' e hi.2.2 hs),
        step_writes s s' e hi.2.2 hs⟩) s h
  refine ⟨fun before relationMap after hlog id hid => ?_,
    fun e s' hs => step_kept_iff s' e hinv.1 hinv.2.1 hinv.2.2 hs⟩
  by_cases hprocessed : ∃ marked relations, .processed marked relations ∈ after ∧ id ∈ marked
  · obtain ⟨marked, relations, hin, hmarked⟩ := hprocessed
    refine .inl ⟨marked, relations, hin, hmarked, fun hknown => ?_⟩
    exact List.mem_filter.mpr ⟨hmarked, decide_eq_true hknown⟩
  · refine .inr (hinv.1 id ⟨before, relationMap, after, hlog, hid, ?_⟩)
    exact fun marked relations hin hmarked => hprocessed ⟨marked, relations, hin, hmarked⟩

def nothingRequested : RelationResolves Bool := ⟨none, .idle, fun _ => .idle, []⟩

theorem nothingRequested_initial : nothingRequested.Initial := ⟨rfl, rfl, fun _ => rfl, rfl⟩

def retryFirst : RelationMap := AList.singleton "relation-0" retryHooks

def retrySecond : RelationMap := AList.singleton "relation-1" retryHooks

theorem accepted_requests_kept_processed :
    ∃ s : RelationResolves Bool,
      Reachable RelationResolves.Initial RelationResolves.step NotOvertaken s ∧
      s.log = [.accepted retryFirst, .processed ["relation-0"] ["relation-0", "relation-1"]] ∧
      ∃ marked relations, "relation-0" ∈ marked ∧
        ("relation-0" ∈ relations → "relation-0" ∈ processedKeys marked relations) := by
  have hstarted : Reachable RelationResolves.Initial RelationResolves.step NotOvertaken _ :=
    .step nothingRequested _ (ResolveEvent.start false retryFirst) (.init _ nothingRequested_initial)
      trivial rfl
  have hread : Reachable RelationResolves.Initial RelationResolves.step NotOvertaken _ :=
    .step _ _ (ResolveEvent.get false) hstarted trivial rfl
  have hwritten : Reachable RelationResolves.Initial RelationResolves.step NotOvertaken _ :=
    .step _ _ (ResolveEvent.write false) hread nofun rfl
  have hgot : Reachable RelationResolves.Initial RelationResolves.step NotOvertaken _ :=
    .step _ _ ResolveEvent.getRelationResolved hwritten trivial rfl
  have hcleared : Reachable RelationResolves.Initial RelationResolves.step NotOvertaken _ :=
    .step _ _ ResolveEvent.clearRelationResolved hgot
      (fun _ _ hread relationMap hin => by
        cases hread
        cases hin) rfl
  have hprocessed : Reachable RelationResolves.Initial RelationResolves.step NotOvertaken _ :=
    .step _ _ (ResolveEvent.process ["relation-0", "relation-1"]) hcleared trivial rfl
  refine ⟨_, hprocessed, rfl, ?_⟩
  rcases (accepted_requests_kept _ hprocessed).1 [] retryFirst _ rfl "relation-0" (by decide) with
    ⟨marked, relations, -, hmarked, hkeys⟩ | ⟨_, hnode, -⟩ | ⟨_, hcleared, -⟩
  · exact ⟨marked, relations, hmarked, hkeys⟩
  · cases hnode
  · cases hcleared

/-- A request accepted between the agent's get and its delete is gone. -/
theorem request_deleted_unread :
    ∃ s : RelationResolves Bool,
      Reachable RelationResolves.Initial RelationResolves.step (fun _ _ => True) s ∧
      s.log = [.accepted retryFirst, .accepted retrySecond,
        .processed ["relation-0"] ["relation-0", "relation-1"]] ∧
      "relation-1" ∈ retrySecond ∧
      "relation-1" ∉ processedKeys ["relation-0"] ["relation-0", "relation-1"] ∧
      s.node = none ∧ s.handling = .idle := by
  let events : List (ResolveEvent Bool) := [.start false retryFirst, .get false, .write false,
    .getRelationResolved, .start true retrySecond, .get true, .write true, .clearRelationResolved,
    .process ["relation-0", "relation-1"]]
  have hrun : Reachable RelationResolves.Initial RelationResolves.step
      (fun (_ : RelationResolves Bool) _ => True) _ :=
    reachable_stepAll (fun _ _ => trivial) events nothingRequested _
      (.init _ nothingRequested_initial) rfl
  exact ⟨_, hrun, rfl, by decide, by decide, rfl, rfl⟩

end Juju.Unit

import Juju.Unit.AgentTasks
import Juju.Unit.SingleLoop

namespace Juju.Unit
open Juju.Base

namespace AgentTasks

variable {R : Type}

/-- Each call has one place in a line, and an upgrade comes for the run lock with the workflow
lock. -/
structure LocksInv (s : AgentTasks R) : Prop where
  upgrades : s.workflowLock.Nodup
  upgradesBelow : ∀ n ∈ s.workflowLock, n < s.nextTask
  tasks : (s.runLock.map UnitTask.activity).Nodup
  callbacksBelow : ∀ n, .callback n ∈ s.runLock.map UnitTask.activity → n < s.nextTask
  upgrading : ∀ n, .upgradeCharm n ∈ s.runLock →
    s.upgrading = true ∧ ∃ line, s.workflowLock = n :: line
  free : s.runLock = [] → s.takenUp = false
  idle : s.takenUp = false → s.ops = [] ∧ s.awaiting = none

/-- What the holder of the run lock has to do: an upgrade, with the executor alone; another call,
never with the executor and, while that is stopped, in no relation that is to depart. -/
structure WorkInv (s : AgentTasks R) : Prop where
  onExecutor : ∀ n line, s.runLock = .upgradeCharm n :: line →
    s.awaiting = none ∧ ∀ op ∈ s.ops, op = .stopExecutor ∨ op = .startExecutor
  inRelations : ∀ task line, s.runLock = task :: line → .stopExecutor ∈ s.ops →
    ∃ n, task = .upgradeCharm n
  stopped : s.executorRunning = false → (∀ r, s.awaiting = some r → r ∉ s.departed) ∧
    ∀ r, .stopRelation r ∉ s.ops ∧ .departRelation r ∉ s.ops
  leaving : ∀ r, .stopRelation r ∈ s.ops ∨ .departRelation r ∈ s.ops → r ∈ s.departed
  staying : ∀ r, .resolveRelation r ∈ s.ops ∨ .addRelation r ∈ s.ops → r ∉ s.departed
  popped : ∀ r ∈ s.known, r ∈ s.departed → .departRelation r ∈ s.ops

/-- A relation has the call that the holder of the run lock awaits there, if any, and one loop
unless it is to depart. -/
structure RelationInv (s : AgentTasks R) (r : R) (tasks : RelationTasks Unit) : Prop where
  tracked : Tracked tasks
  inTurn : RelationTasks.InTurn tasks
  numbered : RelationTasks.Numbered tasks
  one : tasks.callers.length ≤ 1
  awaited : tasks.callers ≠ [] → s.awaiting = some r
  single : r ∉ s.departed → RelationTasks.SingleLoop tasks

/-- A call that comes for the run lock. -/
theorem callback_locks (s : AgentTasks R) (task : UnitTask R) (h : LocksInv s)
    (htask : task.activity = .callback s.nextTask) :
    LocksInv { s with nextTask := s.nextTask + 1, runLock := s.runLock ++ [task] } := by
  refine ⟨h.upgrades, fun n hn => (h.upgradesBelow n hn).trans (Nat.lt_succ_self _), ?_, ?_, ?_,
    fun hnil => absurd hnil (by simp), h.idle⟩
  · simp only [List.map_append, List.map_cons, List.map_nil, htask]
    refine List.Nodup.append h.tasks (List.nodup_singleton _) ?_
    intro a ha hlast
    obtain rfl := List.mem_singleton.mp hlast
    have hless := h.callbacksBelow _ ha
    omega
  · intro n hn
    simp only [List.map_append, List.map_cons, List.map_nil, htask, List.mem_append,
      List.mem_singleton] at hn
    rcases hn with hn | hn
    · exact (h.callbacksBelow n hn).trans (Nat.lt_succ_self _)
    · injection hn with hn
      rw [hn]
      exact Nat.lt_succ_self _
  · intro n hn
    rcases List.mem_append.mp hn with hn | hn
    · exact h.upgrading n hn
    · rw [← List.mem_singleton.mp hn] at htask
      cases htask

/-- The holder of the run lock has done with it. -/
theorem release_locks (s : AgentTasks R) (task : UnitTask R) (line : List (UnitTask R))
    (h : LocksInv s) (hline : s.runLock = task :: line) :
    LocksInv { s with runLock := line, takenUp := false, ops := [], awaiting := none } := by
  have htasks := h.tasks
  rw [hline, List.map_cons] at htasks
  refine ⟨h.upgrades, h.upgradesBelow, htasks.of_cons, fun n hn => ?_, fun n hn => ?_, fun _ => rfl,
    fun _ => ⟨rfl, rfl⟩⟩
  · apply h.callbacksBelow n
    rw [hline]
    exact List.mem_cons_of_mem _ hn
  · apply h.upgrading n
    rw [hline]
    exact List.mem_cons_of_mem _ hn

/-- The holder of the run lock goes on with it. -/
theorem held_locks (s s' : AgentTasks R) (h : LocksInv s) (hheld : s.runLock ≠ [])
    (hnext : s'.nextTask = s.nextTask) (hlock : s'.workflowLock = s.workflowLock)
    (hupgrading : s'.upgrading = s.upgrading) (hrun : s'.runLock = s.runLock)
    (htaken : s'.takenUp = true) : LocksInv s' := by
  constructor
  · exact hlock ▸ h.upgrades
  · rw [hlock, hnext]
    exact h.upgradesBelow
  · exact hrun ▸ h.tasks
  · rw [hrun, hnext]
    exact h.callbacksBelow
  · rw [hrun, hupgrading, hlock]
    exact h.upgrading
  · intro hfree
    exact absurd (hrun ▸ hfree) hheld
  · rw [htaken]
    nofun

theorem joined_work (s : AgentTasks R) (task : UnitTask R) (n : Nat) (upgrading : Bool)
    (hlocks : LocksInv s) (h : WorkInv s) :
    WorkInv { s with
      nextTask := n, upgrading := upgrading, runLock := s.runLock ++ [task] } := by
  cases hrun : s.runLock with
  | nil =>
    obtain ⟨hops, hawaiting⟩ := hlocks.idle (hlocks.free hrun)
    refine ⟨fun _ _ _ => ⟨hawaiting, ?_⟩, fun _ _ _ hmem => ?_, h.stopped, h.leaving, h.staying,
      h.popped⟩
    · dsimp only
      rw [hops]
      nofun
    · dsimp only at hmem
      rw [hops] at hmem
      cases hmem
  | cons holder line =>
    refine ⟨fun m rest hline => ?_, fun other rest hline => ?_, h.stopped, h.leaving, h.staying,
      h.popped⟩
    · obtain ⟨rfl, -⟩ := List.cons.inj hline
      exact h.onExecutor m line hrun
    · obtain ⟨rfl, -⟩ := List.cons.inj hline
      exact h.inRelations _ line hrun

theorem released_work (s : AgentTasks R) (line : List (UnitTask R)) (h : WorkInv s)
    (hops : ∀ r, .departRelation r ∉ s.ops) :
    WorkInv { s with runLock := line, takenUp := false, ops := [], awaiting := none } := by
  refine ⟨fun _ _ _ => ⟨rfl, nofun⟩, fun _ _ _ => nofun, fun hstopped => ⟨nofun, ?_⟩, fun r hr => ?_,
    fun r hr => ?_, fun r hknown hdeparted => ?_⟩
  · exact fun r => ⟨nofun, nofun⟩
  · rcases hr with hr | hr <;> cases hr
  · rcases hr with hr | hr <;> cases hr
  · exact absurd (h.popped r hknown hdeparted) (hops r)

variable [DecidableEq R]

/-- What an operation of the holder of the run lock leaves alone. -/
structure SameLocks (s s' : AgentTasks R) : Prop where
  nextTask : s'.nextTask = s.nextTask
  workflowLock : s'.workflowLock = s.workflowLock
  upgrading : s'.upgrading = s.upgrading
  runLock : s'.runLock = s.runLock
  takenUp : s'.takenUp = s.takenUp
  ops : s'.ops = s.ops
  departed : s'.departed = s.departed

theorem deliver_spec (s s' : AgentTasks R) (r : R) (e : RelationEvent Unit)
    (hs : s.deliver r e = some s') :
    ∃ tasks tasks', s.relations r = some tasks ∧ tasks.step e = some tasks' ∧
      s' = { s with
        relations := Function.update s.relations r (some tasks')
        awaiting := some r } := by
  obtain ⟨tasks, htasks, hstep⟩ := Option.bind_eq_some_iff.mp hs
  obtain ⟨tasks', hstep', rfl⟩ := Option.map_eq_some_iff.mp hstep
  exact ⟨tasks, tasks', htasks, hstep', rfl⟩

theorem perform_sameLocks (s s' : AgentTasks R) (op : UnitOp R) (hs : s.perform op = some s') :
    SameLocks s s' := by
  cases op with
  | stopRelation r =>
    obtain ⟨_, _, _, _, rfl⟩ := deliver_spec _ _ _ _ hs
    exact ⟨rfl, rfl, rfl, rfl, rfl, rfl, rfl⟩
  | departRelation r =>
    obtain ⟨_, _, _, _, rfl⟩ := deliver_spec _ _ _ _ hs
    exact ⟨rfl, rfl, rfl, rfl, rfl, rfl, rfl⟩
  | addRelation r =>
    obtain rfl := Option.some.inj hs
    exact ⟨rfl, rfl, rfl, rfl, rfl, rfl, rfl⟩
  | resolveRelation r =>
    obtain ⟨_, _, _, _, rfl⟩ := deliver_spec _ _ _ _ hs
    exact ⟨rfl, rfl, rfl, rfl, rfl, rfl, rfl⟩
  | stopExecutor =>
    obtain rfl := Option.some.inj hs
    exact ⟨rfl, rfl, rfl, rfl, rfl, rfl, rfl⟩
  | startExecutor =>
    obtain rfl := Option.some.inj hs
    exact ⟨rfl, rfl, rfl, rfl, rfl, rfl, rfl⟩

/-- What the work taken up leaves alone. -/
theorem takeUp_frame (s s' : AgentTasks R) (task : UnitTask R) (hs : s.takeUp task = some s') :
    s'.nextTask = s.nextTask ∧ s'.workflowLock = s.workflowLock ∧ s'.upgrading = s.upgrading ∧
      s'.runLock = s.runLock ∧ s'.takenUp = true ∧ s'.awaiting = s.awaiting ∧
      s'.executorRunning = s.executorRunning ∧ s'.known = s.known ∧
      s'.relations = s.relations := by
  cases task with
  | upgradeCharm n =>
    obtain rfl := Option.some.inj hs
    exact ⟨rfl, rfl, rfl, rfl, rfl, rfl, rfl, rfl, rfl⟩
  | serviceRelationChanges n newRelations =>
    simp only [takeUp] at hs
    split at hs
    · cases hs
    · obtain rfl := Option.some.inj hs
      exact ⟨rfl, rfl, rfl, rfl, rfl, rfl, rfl, rfl, rfl⟩
  | relationResolvedChanges n resolved =>
    obtain rfl := Option.some.inj hs
    exact ⟨rfl, rfl, rfl, rfl, rfl, rfl, rfl, rfl, rfl⟩

theorem takeUp_departed (s s' : AgentTasks R) (task : UnitTask R) (hs : s.takeUp task = some s') :
    s.departed ⊆ s'.departed := by
  cases task with
  | upgradeCharm n =>
    obtain rfl := Option.some.inj hs
    exact List.Subset.refl _
  | serviceRelationChanges n newRelations =>
    simp only [takeUp] at hs
    split at hs
    · cases hs
    · obtain rfl := Option.some.inj hs
      exact List.subset_append_left _ _
  | relationResolvedChanges n resolved =>
    obtain rfl := Option.some.inj hs
    exact List.Subset.refl _

theorem relation_spec (s s' : AgentTasks R) (r : R) (e : RelationEvent Unit)
    (hs : s.step (.relation r e) = some s') :
    ∃ tasks tasks', s.relations r = some tasks ∧ tasks.step e = some tasks' ∧
      e.internal = true ∧
      s' = { s with relations := Function.update s.relations r (some tasks') } := by
  simp only [step] at hs
  split at hs
  · rename_i he
    obtain ⟨tasks, htasks, hstep⟩ := Option.bind_eq_some_iff.mp hs
    obtain ⟨tasks', hstep', rfl⟩ := Option.map_eq_some_iff.mp hstep
    exact ⟨tasks, tasks', htasks, hstep', he.1, rfl⟩
  · cases hs

theorem step_locks (s s' : AgentTasks R) (e : AgentEvent R) (h : LocksInv s)
    (hs : s.step e = some s') : LocksInv s' := by
  cases e with
  | requestUpgrade =>
    obtain rfl := Option.some.inj hs
    refine ⟨?_, ?_, h.tasks, fun n hn => (h.callbacksBelow n hn).trans (Nat.lt_succ_self _), ?_,
      h.free, h.idle⟩
    · refine List.Nodup.append h.upgrades (List.nodup_singleton _) ?_
      intro n hn hlast
      obtain rfl := List.mem_singleton.mp hlast
      have hless := h.upgradesBelow _ hn
      omega
    · intro n hn
      rcases List.mem_append.mp hn with hn | hn
      · have hless := h.upgradesBelow n hn
        dsimp only
        omega
      · rw [List.mem_singleton.mp hn]
        exact Nat.lt_succ_self _
    · intro n hn
      obtain ⟨hupgrading, line, hline⟩ := h.upgrading n hn
      exact ⟨hupgrading, line ++ [s.nextTask], by simp [hline]⟩
  | upgradeCharm =>
    simp only [step] at hs
    split at hs
    · cases hs
    · rename_i n line hline
      split at hs
      · cases hs
      · rename_i hnot
        obtain rfl := Option.some.inj hs
        have hnone (m : Nat) : .upgradeCharm m ∉ s.runLock :=
          fun hm => hnot (h.upgrading m hm).1
        refine ⟨h.upgrades, h.upgradesBelow, ?_, ?_, ?_, fun hnil => absurd hnil (by simp), h.idle⟩
        · simp only [List.map_append, List.map_cons, List.map_nil]
          refine List.Nodup.append h.tasks (List.nodup_singleton _) ?_
          intro a ha hlast
          obtain rfl := List.mem_singleton.mp hlast
          obtain ⟨task, htask, hactivity⟩ := List.mem_map.mp ha
          cases task with
          | upgradeCharm m => exact hnone m htask
          | _ => cases hactivity
        · intro m hm
          simp only [List.map_append, List.map_cons, List.map_nil, List.mem_append,
            List.mem_singleton] at hm
          rcases hm with hm | hm
          · exact h.callbacksBelow m hm
          · cases hm
        · intro m hm
          rcases List.mem_append.mp hm with hm | hm
          · exact absurd hm (hnone m)
          · obtain rfl := UnitTask.upgradeCharm.inj (List.mem_singleton.mp hm)
            exact ⟨rfl, line, hline⟩
  | finishUpgrade =>
    simp only [step] at hs
    split at hs
    · cases hs
    · rename_i n line hline
      split at hs
      · cases hs
      · rename_i hnone
        obtain rfl := Option.some.inj hs
        have hupgrades := h.upgrades
        rw [hline] at hupgrades
        refine ⟨hupgrades.of_cons, fun m hm => ?_, h.tasks, h.callbacksBelow, ?_, h.free, h.idle⟩
        · exact h.upgradesBelow m (by rw [hline]; exact List.mem_cons_of_mem n hm)
        · intro m hm
          obtain ⟨-, line', hline'⟩ := h.upgrading m hm
          rw [hline] at hline'
          obtain rfl := (List.cons.inj hline').1
          refine absurd ?_ hnone
          rw [List.any_eq_true]
          exact ⟨_, hm, by simp⟩
  | serviceRelationChanges newRelations =>
    obtain rfl := Option.some.inj hs
    exact callback_locks s _ h rfl
  | relationResolvedChanges resolved =>
    obtain rfl := Option.some.inj hs
    exact callback_locks s _ h rfl
  | goOn =>
    simp only [step] at hs
    split at hs
    · cases hs
    · rename_i task line hline
      split at hs
      · cases hs
      · have hheld : s.runLock ≠ [] := by rw [hline]; nofun
        split at hs
        · rename_i htaken
          split at hs
          · rename_i hops
            obtain rfl := Option.some.inj hs
            have hreleased := release_locks s task line h hline
            rw [← hops] at hreleased
            exact hreleased
          · obtain ⟨hnext, hlock, hupgrading, hrun, htaken', -, -⟩ := perform_sameLocks _ _ _ hs
            exact held_locks s s' h hheld hnext hlock hupgrading hrun (htaken'.trans htaken)
        · obtain ⟨hnext, hlock, hupgrading, hrun, htaken, -⟩ := takeUp_frame _ _ _ hs
          exact held_locks s s' h hheld hnext hlock hupgrading hrun htaken
  | failUpgrade =>
    simp only [step] at hs
    split at hs
    · rename_i hline hops
      obtain rfl := Option.some.inj hs
      exact release_locks s _ _ h hline
    · cases hs
  | relation r e =>
    obtain ⟨_, _, _, _, _, rfl⟩ := relation_spec s s' r e hs
    exact ⟨h.upgrades, h.upgradesBelow, h.tasks, h.callbacksBelow, h.upgrading, h.free, h.idle⟩

theorem mem_removed (s : AgentTasks R) (newRelations : List R) (r : R) :
    r ∈ s.removed newRelations ↔ r ∈ s.known ∧ r ∉ newRelations := by
  simp [removed]

theorem mem_added (s : AgentTasks R) (newRelations : List R) (r : R) :
    r ∈ s.added newRelations ↔ r ∈ newRelations ∧ r ∉ s.known := by
  simp [added]

theorem takeUp_work (s s' : AgentTasks R) (task : UnitTask R) (line : List (UnitTask R))
    (hlocks : LocksInv s) (h : WorkInv s) (hline : s.runLock = task :: line)
    (hidle : s.takenUp = false) (hfine : RemovesRunning s .goOn) (hs : s.takeUp task = some s') :
    WorkInv s' := by
  obtain ⟨hops, hawaiting⟩ := hlocks.idle hidle
  have hpopped (r : R) (hr : r ∈ s.known) : r ∉ s.departed := by
    intro hdeparted
    have hmem := h.popped r hr hdeparted
    rw [hops] at hmem
    cases hmem
  cases task with
  | upgradeCharm n =>
    obtain rfl := Option.some.inj hs
    refine ⟨fun _ _ _ => ⟨hawaiting, by simp⟩, ?_, fun _ => ⟨by simp [hawaiting], by simp⟩, by simp,
      by simp, fun r hknown hdeparted => absurd hdeparted (hpopped r hknown)⟩
    intro task rest hrest _
    rw [hline] at hrest
    exact ⟨n, (List.cons.inj hrest).1.symm⟩
  | serviceRelationChanges n newRelations =>
    simp only [takeUp] at hs
    split at hs
    · cases hs
    · rename_i hfresh
      obtain rfl := Option.some.inj hs
      refine ⟨?_, fun _ _ _ hmem => ?_, ?_, fun r hr => ?_, fun r hr => ?_, fun r hknown hdeparted => ?_⟩
      · intro m rest hrest
        rw [hline] at hrest
        cases hrest
      · simp at hmem
      · intro hstopped
        have hnone := hfine hstopped hidle n newRelations line hline
        exact ⟨by simp [hawaiting], by simp [hnone]⟩
      · have hremoved : r ∈ s.removed newRelations := by simpa using hr
        exact List.mem_append_right _ hremoved
      · have hnew : r ∈ s.added newRelations := by simpa using hr
        obtain ⟨hnew, -⟩ := (mem_added s newRelations r).mp hnew
        intro hdeparted
        rcases List.mem_append.mp hdeparted with hdeparted | hremoved
        · exact hfresh ⟨r, hnew, hdeparted⟩
        · exact ((mem_removed s newRelations r).mp hremoved).2 hnew
      · have hremoved := (List.mem_append.mp hdeparted).resolve_left (hpopped r hknown)
        simpa using hremoved
  | relationResolvedChanges n resolved =>
    obtain rfl := Option.some.inj hs
    refine ⟨?_, fun _ _ _ hmem => ?_, fun _ => ⟨by simp [hawaiting], by simp⟩, by simp, fun r hr => ?_,
      fun r hknown hdeparted => absurd hdeparted (hpopped r hknown)⟩
    · intro m rest hrest
      rw [hline] at hrest
      cases hrest
    · simp at hmem
    · have hkeys : r ∈ resolved ∧ r ∈ s.known := by simpa using hr
      exact hpopped r hkeys.2

/-- What an operation does to the executor, the relations that the agent knows and the relation
awaited. -/
theorem perform_spec (s s' : AgentTasks R) (op : UnitOp R) (hs : s.perform op = some s') :
    match op with
    | .stopRelation r => s'.executorRunning = s.executorRunning ∧ s'.known = s.known ∧
        s'.awaiting = some r
    | .departRelation r => s'.executorRunning = s.executorRunning ∧
        s'.known = s.known.filter (· ≠ r) ∧ s'.awaiting = some r
    | .addRelation r => s'.executorRunning = s.executorRunning ∧ s'.known = s.known ++ [r] ∧
        s'.awaiting = some r
    | .resolveRelation r => s'.executorRunning = s.executorRunning ∧ s'.known = s.known ∧
        s'.awaiting = some r
    | _ => s'.known = s.known ∧ s'.awaiting = s.awaiting := by
  cases op with
  | stopRelation r =>
    obtain ⟨_, _, _, _, rfl⟩ := deliver_spec _ _ _ _ hs
    exact ⟨rfl, rfl, rfl⟩
  | departRelation r =>
    obtain ⟨_, _, _, _, rfl⟩ := deliver_spec _ _ _ _ hs
    exact ⟨rfl, rfl, rfl⟩
  | addRelation r =>
    obtain rfl := Option.some.inj hs
    exact ⟨rfl, rfl, rfl⟩
  | resolveRelation r =>
    obtain ⟨_, _, _, _, rfl⟩ := deliver_spec _ _ _ _ hs
    exact ⟨rfl, rfl, rfl⟩
  | stopExecutor =>
    obtain rfl := Option.some.inj hs
    exact ⟨rfl, rfl⟩
  | startExecutor =>
    obtain rfl := Option.some.inj hs
    exact ⟨rfl, rfl⟩

theorem perform_work (s s' : AgentTasks R) (op : UnitOp R) (ops : List (UnitOp R)) (h : WorkInv s)
    (hheld : s.runLock ≠ []) (hops : s.ops = op :: ops)
    (hs : { s with ops := ops, awaiting := none }.perform op = some s') : WorkInv s' := by
  obtain ⟨-, -, -, hrun, -, hrest, hdeparted⟩ := perform_sameLocks _ _ _ hs
  have hmem : op ∈ s.ops := hops ▸ List.mem_cons_self
  have hlater (other : UnitOp R) (hother : other ∈ s'.ops) : other ∈ s.ops := by
    rw [hrest] at hother
    exact hops ▸ List.mem_cons_of_mem op hother
  have hstill (r : R) (hknown : r ∈ s.known) (hr : r ∈ s.departed) (hop : op ≠ .departRelation r) :
      .departRelation r ∈ s'.ops := by
    have hpopped := h.popped r hknown hr
    rw [hops] at hpopped
    rw [hrest]
    exact (List.mem_cons.mp hpopped).resolve_left hop.symm
  have hspec := perform_spec _ _ _ hs
  refine ⟨fun n rest hline => ?_, fun task rest hline hstop => ?_, fun hstopped => ?_, fun r hr => ?_,
    fun r hr => ?_, fun r hknown hr => ?_⟩
  · obtain ⟨-, hexecutor⟩ := h.onExecutor n rest (hrun.symm.trans hline)
    refine ⟨?_, fun other hother => hexecutor other (hlater other hother)⟩
    rcases hexecutor op hmem with rfl | rfl
    · exact hspec.2
    · exact hspec.2
  · exact h.inRelations task rest (hrun.symm.trans hline) (hlater _ hstop)
  · rw [hdeparted]
    have hinside (r : R) (hsame : s'.executorRunning = s.executorRunning)
        (hawaiting : s'.awaiting = some r)
        (hstay : (∀ r, op ≠ .stopRelation r ∧ op ≠ .departRelation r) → r ∉ s.departed) :
        (∀ r, s'.awaiting = some r → r ∉ s.departed) ∧
          ∀ r, .stopRelation r ∉ s'.ops ∧ .departRelation r ∉ s'.ops := by
      obtain ⟨-, hnone⟩ := h.stopped (hsame ▸ hstopped)
      refine ⟨fun other hother => ?_, fun other =>
        ⟨fun hop => (hnone other).1 (hlater _ hop), fun hop => (hnone other).2 (hlater _ hop)⟩⟩
      obtain rfl := Option.some.inj (hawaiting.symm.trans hother)
      exact hstay fun other =>
        ⟨fun hop => (hnone other).1 (hop ▸ hmem), fun hop => (hnone other).2 (hop ▸ hmem)⟩
    cases op with
    | stopRelation r => exact hinside r hspec.1 hspec.2.2 fun hop => absurd rfl (hop r).1
    | departRelation r => exact hinside r hspec.1 hspec.2.2 fun hop => absurd rfl (hop r).2
    | addRelation r => exact hinside r hspec.1 hspec.2.2 fun _ => h.staying r (Or.inr hmem)
    | resolveRelation r => exact hinside r hspec.1 hspec.2.2 fun _ => h.staying r (Or.inl hmem)
    | stopExecutor =>
      obtain ⟨task, line, hline⟩ := List.exists_cons_of_ne_nil hheld
      obtain ⟨n, rfl⟩ := h.inRelations task line hline hmem
      obtain ⟨-, hexecutor⟩ := h.onExecutor n line hline
      refine ⟨fun r hr => ?_, fun r => ⟨fun hop => ?_, fun hop => ?_⟩⟩
      · rw [hspec.2] at hr
        cases hr
      · rcases hexecutor _ (hlater _ hop) with hop | hop <;> cases hop
      · rcases hexecutor _ (hlater _ hop) with hop | hop <;> cases hop
    | startExecutor =>
      obtain rfl := Option.some.inj hs
      cases hstopped
  · rw [hdeparted]
    exact h.leaving r (hr.imp (hlater _) (hlater _))
  · rw [hdeparted]
    exact h.staying r (hr.imp (hlater _) (hlater _))
  · rw [hdeparted] at hr
    dsimp only at hr
    cases op with
    | departRelation other =>
      rw [hspec.2.1] at hknown
      obtain ⟨hknown, hne⟩ := List.mem_filter.mp hknown
      have hne : r ≠ other := of_decide_eq_true hne
      exact hstill r hknown hr fun hop => hne (UnitOp.departRelation.inj hop).symm
    | addRelation other =>
      rw [hspec.2.1] at hknown
      rcases List.mem_append.mp hknown with hknown | hnew
      · exact hstill r hknown hr nofun
      · obtain rfl := List.mem_singleton.mp hnew
        exact absurd hr (h.staying r (Or.inr hmem))
    | stopRelation other => exact hstill r (hspec.2.1 ▸ hknown) hr nofun
    | resolveRelation other => exact hstill r (hspec.2.1 ▸ hknown) hr nofun
    | stopExecutor => exact hstill r (hspec.1 ▸ hknown) hr nofun
    | startExecutor => exact hstill r (hspec.1 ▸ hknown) hr nofun

theorem step_work (s s' : AgentTasks R) (e : AgentEvent R) (hlocks : LocksInv s) (h : WorkInv s)
    (hfine : RemovesRunning s e) (hs : s.step e = some s') : WorkInv s' := by
  cases e with
  | requestUpgrade =>
    obtain rfl := Option.some.inj hs
    exact ⟨h.onExecutor, h.inRelations, h.stopped, h.leaving, h.staying, h.popped⟩
  | upgradeCharm =>
    simp only [step] at hs
    split at hs
    · cases hs
    · split at hs
      · cases hs
      · obtain rfl := Option.some.inj hs
        exact joined_work s _ s.nextTask true hlocks h
  | finishUpgrade =>
    simp only [step] at hs
    split at hs
    · cases hs
    · split at hs
      · cases hs
      · obtain rfl := Option.some.inj hs
        exact ⟨h.onExecutor, h.inRelations, h.stopped, h.leaving, h.staying, h.popped⟩
  | serviceRelationChanges newRelations =>
    obtain rfl := Option.some.inj hs
    exact joined_work s _ (s.nextTask + 1) s.upgrading hlocks h
  | relationResolvedChanges resolved =>
    obtain rfl := Option.some.inj hs
    exact joined_work s _ (s.nextTask + 1) s.upgrading hlocks h
  | goOn =>
    simp only [step] at hs
    split at hs
    · cases hs
    · rename_i task line hline
      split at hs
      · cases hs
      · split at hs
        · split at hs
          · rename_i hops
            obtain rfl := Option.some.inj hs
            have hreleased := released_work s line h (by rw [hops]; nofun)
            rw [← hops] at hreleased
            exact hreleased
          · rename_i hops
            exact perform_work s s' _ _ h (by rw [hline]; nofun) hops hs
        · rename_i hidle
          exact takeUp_work s s' _ _ hlocks h hline (Bool.eq_false_iff.mpr hidle) hfine hs
  | failUpgrade =>
    simp only [step] at hs
    split at hs
    · rename_i hline hops
      obtain rfl := Option.some.inj hs
      refine released_work s _ h fun r hr => ?_
      rcases (h.onExecutor _ _ hline).2 _ hr with hop | hop <;> cases hop
    · cases hs
  | relation r e =>
    obtain ⟨_, _, _, _, _, rfl⟩ := relation_spec s s' r e hs
    exact ⟨h.onExecutor, h.inRelations, h.stopped, h.leaving, h.staying, h.popped⟩

/-- Every relation. -/
def RelationsInv (s : AgentTasks R) : Prop :=
  ∀ r tasks, s.relations r = some tasks → RelationInv s r tasks

omit [DecidableEq R] in
theorem relationsInv_mono (s s' : AgentTasks R) (h : RelationsInv s)
    (hrelations : s'.relations = s.relations)
    (hawaiting : ∀ r tasks, s.relations r = some tasks → tasks.callers ≠ [] →
      s'.awaiting = some r)
    (hdeparted : ∀ r, r ∉ s'.departed → r ∉ s.departed) : RelationsInv s' := by
  intro r tasks htasks
  rw [hrelations] at htasks
  obtain ⟨htracked, hturn, hnumbered, hone, -, hsingle⟩ := h r tasks htasks
  exact ⟨htracked, hturn, hnumbered, hone, hawaiting r tasks htasks,
    fun hr => hsingle (hdeparted r hr)⟩

omit [DecidableEq R] in
theorem callers_nil (s : AgentTasks R) (h : RelationsInv s) (hcalling : ¬ s.calling = true) (r : R)
    (tasks : RelationTasks Unit) (htasks : s.relations r = some tasks) : tasks.callers = [] := by
  by_contra hne
  have hawaiting := (h r tasks htasks).awaited hne
  apply hcalling
  simp only [calling, hawaiting, Option.bind_some, htasks]
  cases hcallers : tasks.callers with
  | nil => exact absurd hcallers hne
  | cons caller rest => rfl

/-- A relation among the others that has changed. -/
theorem updated_relations (s : AgentTasks R) (r : R) (tasks : RelationTasks Unit)
    (h : RelationsInv s) (hinv : RelationInv s r tasks) :
    RelationsInv { s with relations := Function.update s.relations r (some tasks) } := by
  intro other tasks' htasks
  dsimp only at htasks
  by_cases hother : other = r
  · subst hother
    rw [Function.update_self] at htasks
    obtain rfl := Option.some.inj htasks
    exact ⟨hinv.tracked, hinv.inTurn, hinv.numbered, hinv.one, hinv.awaited, hinv.single⟩
  · rw [Function.update_of_ne hother] at htasks
    obtain ⟨htracked, hturn, hnumbered, hone, hawaited, hsingle⟩ := h other tasks' htasks
    exact ⟨htracked, hturn, hnumbered, hone, hawaited, hsingle⟩

theorem deliver_relations (s s' : AgentTasks R) (r : R) (e : RelationEvent Unit)
    (h : RelationsInv s)
    (hnone : ∀ r tasks, s.relations r = some tasks → tasks.callers = [])
    (he : r ∉ s.departed → ∃ caller, e = .resolved caller) (hs : s.deliver r e = some s') :
    RelationsInv s' := by
  obtain ⟨tasks, tasks', htasks, hstep, rfl⟩ := deliver_spec s s' r e hs
  obtain ⟨htracked, hturn, hnumbered, -, -, hsingle⟩ := h r tasks htasks
  refine updated_relations { s with awaiting := some r } r tasks' ?_ ⟨?_, ?_, ?_, ?_, fun _ => rfl, ?_⟩
  · refine relationsInv_mono s _ h rfl (fun other tasks hother hne => ?_) fun _ => id
    exact absurd (hnone other tasks hother) hne
  · exact RelationTasks.step_tracked tasks tasks' e htracked hstep
  · exact RelationTasks.step_inTurn tasks tasks' e hturn htracked.idle hstep
  · exact RelationTasks.step_numbered tasks tasks' e hnumbered hstep
  · have hcallers := RelationTasks.step_callers_succ tasks tasks' e hstep
    rw [hnone r tasks htasks] at hcallers
    exact hcallers
  · intro hr
    exact RelationTasks.step_single tasks tasks' e (Or.inr (he hr)) htracked hturn (hsingle hr) hstep

omit [DecidableEq R] in
theorem addedRelation_inv (s : AgentTasks R) (r : R) (hawaiting : s.awaiting = some r) :
    RelationInv s r addedRelation := by
  have hmem : synchronizeRelation none none ∈ startPrograms := by decide
  refine ⟨RelationTasks.synchronizing_tracked _ (.begun () none none nofun), ⟨by decide, by decide⟩,
    ⟨List.nodup_nil, nofun⟩, Nat.le_refl 1, fun _ => hawaiting, fun _ => ?_⟩
  exact ⟨rfl, nofun, rfl, Nat.zero_le 1, fun _ => Or.inl rfl, fun _ => ⟨rfl, rfl⟩,
    Or.inr ⟨_, hmem, List.suffix_rfl⟩, rfl⟩

theorem perform_relations (s s' : AgentTasks R) (op : UnitOp R) (ops : List (UnitOp R))
    (hwork : WorkInv s) (h : RelationsInv s)
    (hnone : ∀ r tasks, s.relations r = some tasks → tasks.callers = []) (hops : s.ops = op :: ops)
    (hs : { s with ops := ops, awaiting := none }.perform op = some s') : RelationsInv s' := by
  have hmem : op ∈ s.ops := hops ▸ List.mem_cons_self
  have hfree (known : List R) (awaiting : Option R) :
      RelationsInv { s with ops := ops, awaiting := awaiting, known := known } := by
    refine relationsInv_mono s _ h rfl (fun r tasks htasks hne => ?_) fun _ => id
    exact absurd (hnone r tasks htasks) hne
  cases op with
  | stopRelation r =>
    exact deliver_relations _ s' r _ (hfree s.known none) hnone
      (fun hr => absurd (hwork.leaving r (Or.inl hmem)) hr) hs
  | departRelation r =>
    exact deliver_relations _ s' r _ (hfree _ none) hnone
      (fun hr => absurd (hwork.leaving r (Or.inr hmem)) hr) hs
  | addRelation r =>
    obtain rfl := Option.some.inj hs
    exact updated_relations { s with
      ops := ops, awaiting := some r, known := s.known ++ [r] } r addedRelation
      (hfree _ (some r)) (addedRelation_inv _ r rfl)
  | resolveRelation r =>
    exact deliver_relations _ s' r _ (hfree s.known none) hnone (fun _ => ⟨(), rfl⟩) hs
  | stopExecutor =>
    obtain rfl := Option.some.inj hs
    exact relationsInv_mono _ _ (hfree s.known none) rfl
      (fun r tasks htasks hne => absurd (hnone r tasks htasks) hne) fun _ => id
  | startExecutor =>
    obtain rfl := Option.some.inj hs
    exact relationsInv_mono _ _ (hfree s.known none) rfl
      (fun r tasks htasks hne => absurd (hnone r tasks htasks) hne) fun _ => id

theorem step_relations (s s' : AgentTasks R) (e : AgentEvent R) (hwork : WorkInv s)
    (h : RelationsInv s) (hs : s.step e = some s') : RelationsInv s' := by
  have hsame (s' : AgentTasks R) (hrelations : s'.relations = s.relations)
      (hawaiting : s'.awaiting = s.awaiting) (hdeparted : s'.departed = s.departed) :
      RelationsInv s' :=
    relationsInv_mono s s' h hrelations
      (fun r tasks htasks hne => hawaiting.trans ((h r tasks htasks).awaited hne))
      fun r hr => hdeparted ▸ hr
  cases e with
  | requestUpgrade =>
    obtain rfl := Option.some.inj hs
    exact hsame _ rfl rfl rfl
  | upgradeCharm =>
    simp only [step] at hs
    split at hs
    · cases hs
    · split at hs
      · cases hs
      · obtain rfl := Option.some.inj hs
        exact hsame _ rfl rfl rfl
  | finishUpgrade =>
    simp only [step] at hs
    split at hs
    · cases hs
    · split at hs
      · cases hs
      · obtain rfl := Option.some.inj hs
        exact hsame _ rfl rfl rfl
  | serviceRelationChanges newRelations =>
    obtain rfl := Option.some.inj hs
    exact hsame _ rfl rfl rfl
  | relationResolvedChanges resolved =>
    obtain rfl := Option.some.inj hs
    exact hsame _ rfl rfl rfl
  | goOn =>
    simp only [step] at hs
    split at hs
    · cases hs
    · split at hs
      · cases hs
      · rename_i hcalling
        have hnone := callers_nil s h hcalling
        split at hs
        · split at hs
          · obtain rfl := Option.some.inj hs
            exact relationsInv_mono s _ h rfl
              (fun r tasks htasks hne => absurd (hnone r tasks htasks) hne) fun _ => id
          · rename_i hops
            exact perform_relations s s' _ _ hwork h hnone hops hs
        · obtain ⟨-, -, -, -, -, hawaiting, -, -, hrelations⟩ := takeUp_frame _ _ _ hs
          exact relationsInv_mono s _ h hrelations
            (fun r tasks htasks hne => absurd (hnone r tasks htasks) hne)
            fun r hr hdeparted => hr (takeUp_departed s s' _ hs hdeparted)
  | failUpgrade =>
    simp only [step] at hs
    split at hs
    · rename_i hline hops
      obtain rfl := Option.some.inj hs
      refine relationsInv_mono s _ h rfl (fun r tasks htasks hne => ?_) fun _ => id
      rw [(hwork.onExecutor _ _ hline).1.symm.trans ((h r tasks htasks).awaited hne)]
    · cases hs
  | relation r e =>
    obtain ⟨tasks, tasks', htasks, hstep, hinternal, rfl⟩ := relation_spec s s' r e hs
    obtain ⟨htracked, hturn, hnumbered, hone, hawaited, hsingle⟩ := h r tasks htasks
    have hcallers := RelationTasks.step_callers tasks tasks' e hinternal hstep
    refine updated_relations s r tasks' h ⟨?_, ?_, ?_, hcallers.trans hone, fun hne => ?_, fun hr => ?_⟩
    · exact RelationTasks.step_tracked tasks tasks' e htracked hstep
    · exact RelationTasks.step_inTurn tasks tasks' e hturn htracked.idle hstep
    · exact RelationTasks.step_numbered tasks tasks' e hnumbered hstep
    · apply hawaited
      rintro hnil
      rw [hnil] at hcallers
      exact hne (List.eq_nil_of_length_eq_zero (Nat.le_zero.mp hcallers))
    · exact RelationTasks.step_single tasks tasks' e (Or.inl hinternal) htracked hturn (hsingle hr)
        hstep

end AgentTasks

end Juju.Unit

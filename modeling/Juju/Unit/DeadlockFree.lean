import Juju.Unit.AgentLocks

namespace Juju.Unit
open Juju.Base
open scoped List

namespace RelationTasks

variable {C : Type}

/-- A loop has one place: it is not twice in the line for the workflow lock, nor in that for the
run lock, nor in both. -/
theorem error_once (s : RelationTasks C) (h : Numbered s) (k : Nat) (line : List (WorkflowTask C))
    (hline : s.workflowLock = .error k :: line) : .error k ∉ line := by
  intro hmem
  have hnodup := (List.nodup_append.mp h.nodup).2.1
  rw [hline] at hnodup
  exact (List.nodup_cons.mp hnodup).1 (List.mem_filterMap.mpr ⟨_, hmem, rfl⟩)

theorem hook_once (s : RelationTasks C) (h : Numbered s) (k : Nat) (line : List (RunTask C))
    (hline : s.runLock = .hook k :: line) : .hook k ∉ line := by
  intro hmem
  have hnodup := (List.nodup_append.mp (List.nodup_append.mp h.nodup).1).2.1
  rw [hline] at hnodup
  exact (List.nodup_cons.mp hnodup).1 (List.mem_filterMap.mpr ⟨_, hmem, rfl⟩)

theorem error_notHooked (s : RelationTasks C) (h : Numbered s) (k : Nat)
    (herror : .error k ∈ s.workflowLock) : .hook k ∉ s.runLock := by
  intro hmem
  have hdisjoint := (List.nodup_append.mp h.nodup).2.2
  have hhook : k ∈ hookLoops s.runLock := List.mem_filterMap.mpr ⟨_, hmem, rfl⟩
  have hk : k ∈ errorLoops s.workflowLock := List.mem_filterMap.mpr ⟨_, herror, rfl⟩
  exact hdisjoint k (List.mem_append_right _ hhook) k hk rfl

/-- So has the holder of the workflow lock in the line for the run lock. -/
theorem workflow_once (s : RelationTasks C) (h : InTurn s) (line : List (RunTask C))
    (hline : s.runLock = .workflow :: line) : .workflow ∉ line := by
  intro hmem
  have honce := h.once
  have hmore : 0 < line.countP RunTask.isWorkflow := List.countP_pos_iff.mpr ⟨_, hmem, rfl⟩
  rw [hline, List.countP_cons_of_pos rfl] at honce
  omega

/-- So has a caller, with at most one of them at work. -/
theorem workflowCaller_once (s : RelationTasks C) (hone : s.callers.length ≤ 1)
    (task holder : WorkflowTask C) (line : List (WorkflowTask C)) (c c' : C)
    (hline : s.workflowLock = holder :: line) (hholder : holder.caller = some c)
    (hmem : task ∈ line) : task.caller ≠ some c' := by
  intro htask
  have hmore := List.length_pos_of_mem (List.mem_filterMap.mpr ⟨task, hmem, htask⟩)
  simp only [callers, hline, List.filterMap_cons, hholder, List.length_append,
    List.length_cons] at hone
  omega

theorem runCaller_once (s : RelationTasks C) (hone : s.callers.length ≤ 1)
    (task holder : RunTask C) (line : List (RunTask C)) (c c' : C)
    (hline : s.runLock = holder :: line) (hholder : holder.caller = some c) (hmem : task ∈ line) :
    task.caller ≠ some c' := by
  intro htask
  have hmore := List.length_pos_of_mem (List.mem_filterMap.mpr ⟨task, hmem, htask⟩)
  simp only [callers, hline, List.filterMap_cons, hholder, List.length_append,
    List.length_cons] at hone
  omega

theorem caller_once (s : RelationTasks C) (hone : s.callers.length ≤ 1) (task : WorkflowTask C)
    (run : RunTask C) (c c' : C) (htask : task ∈ s.workflowLock) (hcaller : task.caller = some c)
    (hrun : run ∈ s.runLock) : run.caller ≠ some c' := by
  intro hother
  have hwork := List.length_pos_of_mem (List.mem_filterMap.mpr ⟨task, htask, hcaller⟩)
  have hmore := List.length_pos_of_mem (List.mem_filterMap.mpr ⟨run, hrun, hother⟩)
  simp only [callers, List.length_append] at hone
  omega

theorem workflowCaller_mem (s : RelationTasks C) (task : WorkflowTask C) (c : C)
    (htask : task ∈ s.workflowLock) (hcaller : task.caller = some c) : s.callers ≠ [] :=
  List.ne_nil_of_mem (List.mem_append_right _ (List.mem_filterMap.mpr ⟨task, htask, hcaller⟩))

theorem runCaller_mem (s : RelationTasks C) (task : RunTask C) (c : C)
    (htask : task ∈ s.runLock) (hcaller : task.caller = some c) : s.callers ≠ [] :=
  List.ne_nil_of_mem (List.mem_append_left _ (List.mem_filterMap.mpr ⟨task, htask, hcaller⟩))

end RelationTasks

namespace AgentTasks

variable {R : Type}

theorem caller_ne_loop (s : AgentTasks R) (r : R) (k : Nat) : s.caller ≠ some (.loop r k) := by
  unfold caller
  cases s.runLock with
  | nil => nofun
  | cons task line => cases task <;> nofun

/-- A loop is in the line for a workflow lock with its error, a call of the unit's as a caller. -/
theorem workflowActivity_loop (s : AgentTasks R) (r r' : R) (task : WorkflowTask Unit) (k : Nat)
    (h : s.workflowActivity r task = some (.loop r' k)) : r = r' ∧ task = .error k := by
  cases task with
  | error loop =>
    injection h with h
    injection h with hr hk
    exact ⟨hr, congrArg WorkflowTask.error hk⟩
  | _ => exact absurd h (caller_ne_loop s r' k)

theorem workflowActivity_caller (s : AgentTasks R) (r : R) (task : WorkflowTask Unit)
    (a : Activity R) (ha : s.caller = some a) (h : s.workflowActivity r task = some a) :
    task.caller = some () := by
  cases task with
  | error loop => exact absurd (ha.trans h.symm) (caller_ne_loop s r loop)
  | _ => rfl

theorem runActivity_loop (s : AgentTasks R) (r r' : R) (tasks : RelationTasks Unit)
    (task : RunTask Unit) (k : Nat) (h : s.runActivity r tasks task = some (.loop r' k)) :
    r = r' ∧ (task = .hook k ∨
      task = .workflow ∧ ∃ line, tasks.workflowLock = .error k :: line) := by
  cases task with
  | hook loop =>
    injection h with h
    injection h with hr hk
    exact ⟨hr, Or.inl (congrArg RunTask.hook hk)⟩
  | departure caller => exact absurd h (caller_ne_loop s r' k)
  | workflow =>
    obtain ⟨holder, hholder, h⟩ := Option.bind_eq_some_iff.mp h
    obtain ⟨line, hline⟩ := List.head?_eq_some_iff.mp hholder
    obtain ⟨hr, rfl⟩ := workflowActivity_loop s r r' holder k h
    exact ⟨hr, Or.inr ⟨rfl, line, hline⟩⟩

theorem runActivity_caller (s : AgentTasks R) (r : R) (tasks : RelationTasks Unit)
    (task : RunTask Unit) (a : Activity R) (ha : s.caller = some a)
    (h : s.runActivity r tasks task = some a) :
    task.caller = some () ∨ task = .workflow ∧ ∃ holder line,
      tasks.workflowLock = holder :: line ∧ holder.caller = some () := by
  cases task with
  | hook loop => exact absurd (ha.trans h.symm) (caller_ne_loop s r loop)
  | departure caller => exact Or.inl rfl
  | workflow =>
    obtain ⟨holder, hholder, h⟩ := Option.bind_eq_some_iff.mp h
    obtain ⟨line, hline⟩ := List.head?_eq_some_iff.mp hholder
    exact Or.inr ⟨rfl, holder, line, hline, workflowActivity_caller s r holder a ha h⟩

/-- Callers at work are in one relation. -/
theorem callers_unique (s : AgentTasks R) (h : RelationsInv s) (r r' : R)
    (tasks tasks' : RelationTasks Unit) (hr : s.relations r = some tasks)
    (hr' : s.relations r' = some tasks') (hcallers : tasks.callers ≠ [])
    (hcallers' : tasks'.callers ≠ []) : r = r' ∧ tasks = tasks' := by
  have hfirst := (h r tasks hr).awaited hcallers
  have hsecond := (h r' tasks' hr').awaited hcallers'
  obtain rfl := Option.some.inj (hfirst.symm.trans hsecond)
  exact ⟨rfl, Option.some.inj (hr.symm.trans hr')⟩

/-- The holder of the unit's workflow lock does not wait for it. -/
theorem unitWorkflow_climbs (s : AgentTasks R) (hlocks : LocksInv s) (n : Nat) (line : List Nat)
    (hline : s.workflowLock = n :: line) (j : Nat) (c : Activity R)
    (h : s.WaitsForLock (.upgrade n) j c) : 0 < j := by
  have hnodup := hlocks.upgrades
  cases h with
  | unitWorkflow _ m line' hline' hmem =>
    rw [hline'] at hline hnodup
    obtain ⟨rfl, rfl⟩ := List.cons.inj hline
    exact absurd hmem (List.nodup_cons.mp hnodup).1
  | _ => omega

/-- The holder of the unit's run lock waits in relations alone. -/
theorem unitRun_climbs (s : AgentTasks R) (hlocks : LocksInv s) (holder : UnitTask R)
    (line : List (UnitTask R)) (hline : s.runLock = holder :: line) (j : Nat) (a c : Activity R)
    (ha : holder.activity = a) (h : s.WaitsForLock a j c) : 1 < j := by
  have hnodup := hlocks.tasks
  rw [hline, List.map_cons] at hnodup
  cases h with
  | unitWorkflow n m line' hline' hmem =>
    cases holder with
    | upgradeCharm m' =>
      injection ha with ha
      subst ha
      obtain ⟨-, line'', hline''⟩ := hlocks.upgrading m' (hline ▸ List.mem_cons_self)
      have hunique := hlocks.upgrades
      rw [hline''] at hunique hline'
      obtain ⟨rfl, rfl⟩ := List.cons.inj hline'
      exact absurd hmem (List.nodup_cons.mp hunique).1
    | _ => cases ha
  | unitRun task other line' _ _ hline' hmem htask =>
    rw [hline] at hline'
    obtain ⟨rfl, rfl⟩ := List.cons.inj hline'
    rw [ha] at hnodup
    exact absurd (List.mem_map.mpr ⟨task, hmem, htask⟩) (List.nodup_cons.mp hnodup).1
  | _ => omega

theorem caller_climbs (s : AgentTasks R) (hlocks : LocksInv s) (j : Nat) (a c : Activity R)
    (ha : s.caller = some a) (h : s.WaitsForLock a j c) : 1 < j := by
  obtain ⟨holder, hholder, hactivity⟩ := Option.map_eq_some_iff.mp ha
  obtain ⟨line, hline⟩ := List.head?_eq_some_iff.mp hholder
  exact unitRun_climbs s hlocks holder line hline j a c hactivity h

/-- The holder of a relation's workflow lock waits for its run lock alone. -/
theorem relationWorkflow_climbs (s : AgentTasks R) (hlocks : LocksInv s) (hrel : RelationsInv s)
    (r : R) (tasks : RelationTasks Unit) (holder : WorkflowTask Unit)
    (line : List (WorkflowTask Unit)) (hr : s.relations r = some tasks)
    (hline : tasks.workflowLock = holder :: line) (j : Nat) (b c : Activity R)
    (hb : s.workflowActivity r holder = some b) (h : s.WaitsForLock b j c) : 2 < j := by
  have hinv := hrel r tasks hr
  have hholder : holder ∈ tasks.workflowLock := hline ▸ List.mem_cons_self
  by_cases hcaller : s.caller = some b
  · have hclimbs := caller_climbs s hlocks j b c hcaller h
    have hwho := workflowActivity_caller s r holder b hcaller hb
    cases h with
    | relationWorkflow r' tasks' task other line' _ _ hr' hline' hmem htask _ =>
      have hother := workflowActivity_caller s r' task b hcaller htask
      have htask' : task ∈ tasks'.workflowLock := hline' ▸ List.mem_cons_of_mem other hmem
      obtain ⟨rfl, rfl⟩ := callers_unique s hrel r r' tasks tasks' hr hr'
        (tasks.workflowCaller_mem holder () hholder hwho)
        (tasks'.workflowCaller_mem task () htask' hother)
      rw [hline] at hline'
      obtain ⟨rfl, rfl⟩ := List.cons.inj hline'
      exact absurd hother
        (tasks.workflowCaller_once hinv.one task holder line () () hline hwho hmem)
    | _ => omega
  · cases holder with
    | error k =>
      obtain rfl := Option.some.inj hb
      cases h with
      | unitRun task other line' _ _ hline' hmem htask =>
        cases task <;> cases htask
      | relationWorkflow r' tasks' task other line' _ _ hr' hline' hmem htask _ =>
        obtain ⟨rfl, rfl⟩ := workflowActivity_loop s r' r task k htask
        obtain rfl := Option.some.inj (hr.symm.trans hr')
        rw [hline] at hline'
        obtain ⟨rfl, rfl⟩ := List.cons.inj hline'
        exact absurd hmem (tasks.error_once hinv.numbered k line hline)
      | _ => omega
    | _ => exact absurd hb hcaller

/-- The holder of a relation's run lock waits for no lock. -/
theorem relationRun_free (s : AgentTasks R) (hlocks : LocksInv s) (hrel : RelationsInv s)
    (r : R) (tasks : RelationTasks Unit) (holder : RunTask Unit) (line : List (RunTask Unit))
    (hr : s.relations r = some tasks) (hline : tasks.runLock = holder :: line) (j : Nat)
    (b c : Activity R) (hb : s.runActivity r tasks holder = some b) : ¬ s.WaitsForLock b j c := by
  intro h
  have hinv := hrel r tasks hr
  have hholder : holder ∈ tasks.runLock := hline ▸ List.mem_cons_self
  by_cases hcaller : s.caller = some b
  · have hclimbs := caller_climbs s hlocks j b c hcaller h
    have hcallers : tasks.callers ≠ [] := by
      rcases runActivity_caller s r tasks holder b hcaller hb with
        hwho | ⟨-, first, rest, hfirst, hwho⟩
      · exact tasks.runCaller_mem holder () hholder hwho
      · exact tasks.workflowCaller_mem first () (hfirst ▸ List.mem_cons_self) hwho
    cases h with
    | relationWorkflow r' tasks' task other line' _ _ hr' hline' hmem htask _ =>
      have hother := workflowActivity_caller s r' task b hcaller htask
      have htask' : task ∈ tasks'.workflowLock := hline' ▸ List.mem_cons_of_mem other hmem
      obtain ⟨rfl, rfl⟩ := callers_unique s hrel r r' tasks tasks' hr hr' hcallers
        (tasks'.workflowCaller_mem task () htask' hother)
      rcases runActivity_caller s r tasks holder b hcaller hb with
        hwho | ⟨-, first, rest, hfirst, hwho⟩
      · exact tasks.caller_once hinv.one task holder () () htask' hother hholder hwho
      · rw [hfirst] at hline'
        obtain ⟨rfl, rfl⟩ := List.cons.inj hline'
        exact tasks.workflowCaller_once hinv.one task first rest () () hfirst hwho hmem hother
    | relationRun r' tasks' task other line' _ _ hr' hline' hmem htask _ =>
      have htask' : task ∈ tasks'.runLock := hline' ▸ List.mem_cons_of_mem other hmem
      have hother := runActivity_caller s r' tasks' task b hcaller htask
      have hcallers' : tasks'.callers ≠ [] := by
        rcases hother with hother | ⟨-, first, rest, hfirst, hother⟩
        · exact tasks'.runCaller_mem task () htask' hother
        · exact tasks'.workflowCaller_mem first () (hfirst ▸ List.mem_cons_self) hother
      obtain ⟨rfl, rfl⟩ := callers_unique s hrel r r' tasks tasks' hr hr' hcallers hcallers'
      rw [hline] at hline'
      obtain ⟨rfl, rfl⟩ := List.cons.inj hline'
      rcases runActivity_caller s r tasks holder b hcaller hb with
        hwho | ⟨rfl, first, rest, hfirst, hwho⟩
      · rcases hother with hother | ⟨-, first, rest, hfirst, hother⟩
        · exact tasks.runCaller_once hinv.one task holder line () () hline hwho hmem hother
        · exact tasks.caller_once hinv.one first holder () () (hfirst ▸ List.mem_cons_self) hother
            hholder hwho
      · rcases hother with hother | ⟨rfl, -⟩
        · exact tasks.caller_once hinv.one first task () () (hfirst ▸ List.mem_cons_self) hwho
            htask' hother
        · exact tasks.workflow_once hinv.inTurn line hline hmem
    | _ => omega
  · obtain ⟨k, rfl, hplace⟩ : ∃ k, b = .loop r k ∧ (holder = .hook k ∨
        holder = .workflow ∧ ∃ rest, tasks.workflowLock = .error k :: rest) := by
      cases holder with
      | hook k => exact ⟨k, (Option.some.inj hb).symm, Or.inl rfl⟩
      | departure caller => exact absurd hb hcaller
      | workflow =>
        obtain ⟨first, hfirst, hb⟩ := Option.bind_eq_some_iff.mp hb
        obtain ⟨rest, hrest⟩ := List.head?_eq_some_iff.mp hfirst
        cases first with
        | error k => exact ⟨k, (Option.some.inj hb).symm, Or.inr ⟨rfl, rest, hrest⟩⟩
        | _ => exact absurd hb hcaller
    cases h with
    | unitRun task other line' _ _ hline' hmem htask =>
      cases task <;> cases htask
    | relationWorkflow r' tasks' task other line' _ _ hr' hline' hmem htask _ =>
      obtain ⟨rfl, rfl⟩ := workflowActivity_loop s r' r task k htask
      obtain rfl := Option.some.inj (hr.symm.trans hr')
      rcases hplace with rfl | ⟨rfl, rest, hrest⟩
      · exact tasks.error_notHooked hinv.numbered k
          (hline' ▸ List.mem_cons_of_mem other hmem) hholder
      · rw [hrest] at hline'
        obtain ⟨rfl, rfl⟩ := List.cons.inj hline'
        exact tasks.error_once hinv.numbered k rest hrest hmem
    | relationRun r' tasks' task other line' _ _ hr' hline' hmem htask _ =>
      obtain ⟨rfl, hother⟩ := runActivity_loop s r' r tasks' task k htask
      obtain rfl := Option.some.inj (hr.symm.trans hr')
      rw [hline] at hline'
      obtain ⟨rfl, rfl⟩ := List.cons.inj hline'
      have htask' : task ∈ tasks.runLock := hline ▸ List.mem_cons_of_mem holder hmem
      rcases hplace with rfl | ⟨rfl, rest, hrest⟩
      · rcases hother with rfl | ⟨rfl, rest, hrest⟩
        · exact tasks.hook_once hinv.numbered k line hline hmem
        · exact tasks.error_notHooked hinv.numbered k (hrest ▸ List.mem_cons_self) hholder
      · rcases hother with rfl | ⟨rfl, -⟩
        · exact tasks.error_notHooked hinv.numbered k (hrest ▸ List.mem_cons_self) htask'
        · exact tasks.workflow_once hinv.inTurn line hline hmem

/-- Through locks alone, everybody waits for somebody who waits higher up. -/
theorem locks_climb (s : AgentTasks R) (hlocks : LocksInv s) (hrel : RelationsInv s)
    (a b c : Activity R) (i j : Nat) (hab : s.WaitsForLock a i b) (hbc : s.WaitsForLock b j c) :
    i < j := by
  cases hab with
  | unitWorkflow n holder line hline hmem => exact unitWorkflow_climbs s hlocks holder line hline j c hbc
  | unitRun task holder line _ _ hline hmem htask hholder =>
    exact unitRun_climbs s hlocks holder line hline j b c hholder hbc
  | relationWorkflow r tasks task holder line _ _ hr hline hmem htask hholder =>
    exact relationWorkflow_climbs s hlocks hrel r tasks holder line hr hline j b c hholder hbc
  | relationRun r tasks task holder line _ _ hr hline hmem htask hholder =>
    exact absurd hbc (relationRun_free s hlocks hrel r tasks holder line hr hline j b c hholder)

theorem waitsForLock_rank (s : AgentTasks R) (a b : Activity R) (i : Nat)
    (h : s.WaitsForLock a i b) : i < 4 := by
  cases h <;> omega

/-- While the executor is stopped, a call of the unit's is at work in a relation that stays. -/
theorem stopped_single (s : AgentTasks R) (hwork : WorkInv s) (hrel : RelationsInv s)
    (hstopped : s.executorRunning = false) (r : R) (tasks : RelationTasks Unit)
    (hr : s.relations r = some tasks) (hcallers : tasks.callers ≠ []) :
    RelationTasks.SingleLoop tasks :=
  (hrel r tasks hr).single ((hwork.stopped hstopped).1 r ((hrel r tasks hr).awaited hcallers))

/-- Who has called the executor with a hook. -/
theorem hookActivity_cases (s : AgentTasks R) (r : R) (tasks : RelationTasks Unit) (a : Activity R)
    (h : s.hookActivity r tasks = some a) :
    (∃ k line, tasks.runLock = .hook k :: line ∧ a = .loop r k) ∨
      (∃ line ops, tasks.runLock = .workflow :: line ∧ tasks.ops = .executeHook :: ops ∧
        s.runActivity r tasks .workflow = some a) := by
  unfold hookActivity at h
  split at h
  · rename_i k line hline
    exact Or.inl ⟨k, line, hline, (Option.some.inj h).symm⟩
  · rename_i line ops hline hops
    exact Or.inr ⟨line, ops, hline, hops, h⟩
  · cases h

/-- The holder of the unit's run lock waits for a relation's workflow lock alone while the executor
is stopped, for that of an error handler. -/
theorem caller_waits (s : AgentTasks R) (hlocks : LocksInv s) (hwork : WorkInv s)
    (hrel : RelationsInv s) (hstopped : s.executorRunning = false) (a b : Activity R)
    (ha : s.caller = some a) (h : s.Waits a b) :
    ∃ r tasks k line, s.relations r = some tasks ∧ tasks.workflowLock = .error k :: line ∧
      tasks.callers ≠ [] ∧ b = .loop r k := by
  rcases h with ⟨j, h⟩ | h
  · have hclimbs := caller_climbs s hlocks j a b ha h
    cases h with
    | relationWorkflow r tasks task holder line _ _ hr hline hmem htask hholder =>
      have hwho := workflowActivity_caller s r task a ha htask
      have hcallers := tasks.workflowCaller_mem task ()
        (hline ▸ List.mem_cons_of_mem holder hmem) hwho
      cases holder with
      | error k => exact ⟨r, tasks, k, line, hr, hline, hcallers, (Option.some.inj hholder).symm⟩
      | _ =>
        exact absurd hwho
          (tasks.workflowCaller_once (hrel r tasks hr).one task _ line () () hline rfl hmem)
    | relationRun r tasks task holder line _ _ hr hline hmem htask hholder =>
      have htask' : task ∈ tasks.runLock := hline ▸ List.mem_cons_of_mem holder hmem
      rcases runActivity_caller s r tasks task a ha htask with
        hwho | ⟨rfl, first, rest, hfirst, hwho⟩
      · have hsingle := stopped_single s hwork hrel hstopped r tasks hr
          (tasks.runCaller_mem task () htask' hwho)
        have hnone := List.mem_filterMap.mpr ⟨task, htask', hwho⟩
        rw [hsingle.arriving] at hnone
        cases hnone
      · have hsingle := stopped_single s hwork hrel hstopped r tasks hr
          (tasks.workflowCaller_mem first () (hfirst ▸ List.mem_cons_self) hwho)
        exact absurd hmem (tasks.singleLoop_goesOn hsingle holder line hline)
    | _ => omega
  · cases h with
    | stopped r tasks _ n line _ hr hhook hline =>
      rcases hookActivity_cases s r tasks a hhook with
        ⟨k, rest, -, rfl⟩ | ⟨rest, ops, hrun, hops, hactivity⟩
      · exact absurd ha (caller_ne_loop s r k)
      · rcases runActivity_caller s r tasks .workflow a ha hactivity with
          hwho | ⟨-, first, rest', hfirst, hwho⟩
        · cases hwho
        · have hsingle := stopped_single s hwork hrel hstopped r tasks hr
            (tasks.workflowCaller_mem first () (hfirst ▸ List.mem_cons_self) hwho)
          exact absurd (hops ▸ List.mem_cons_self) (tasks.singleLoop_noHook hsingle)

/-- An error handler with a workflow lock that a call of the unit's waits for does not wait. -/
theorem errorHandler_free (s : AgentTasks R) (hlocks : LocksInv s) (hwork : WorkInv s)
    (hrel : RelationsInv s) (hstopped : s.executorRunning = false) (r : R)
    (tasks : RelationTasks Unit) (k : Nat) (line : List (WorkflowTask Unit))
    (hr : s.relations r = some tasks) (hline : tasks.workflowLock = .error k :: line)
    (hcallers : tasks.callers ≠ []) (b : Activity R) : ¬ s.Waits (.loop r k) b := by
  have hinv := hrel r tasks hr
  have hsingle := stopped_single s hwork hrel hstopped r tasks hr hcallers
  have hmem : .error k ∈ tasks.workflowLock := hline ▸ List.mem_cons_self
  rintro (⟨j, h⟩ | h)
  · have hclimbs := relationWorkflow_climbs s hlocks hrel r tasks (.error k) line hr hline j _ b rfl h
    cases h with
    | relationRun r' tasks' task holder line' _ _ hr' hline' hmem' htask _ =>
      obtain ⟨rfl, hother⟩ := runActivity_loop s r' r tasks' task k htask
      obtain rfl := Option.some.inj (hr.symm.trans hr')
      rcases hother with rfl | ⟨rfl, -⟩
      · exact tasks.error_notHooked hinv.numbered k hmem
          (hline' ▸ List.mem_cons_of_mem holder hmem')
      · exact tasks.singleLoop_goesOn hsingle holder line' hline' hmem'
    | _ => omega
  · cases h with
    | stopped r' tasks' _ n line' _ hr' hhook _ =>
      rcases hookActivity_cases s r' tasks' _ hhook with
        ⟨k', rest, hrun, hloop⟩ | ⟨rest, ops, hrun, hops, hactivity⟩
      · injection hloop with hsame hk
        subst hsame hk
        obtain rfl := Option.some.inj (hr.symm.trans hr')
        exact tasks.error_notHooked hinv.numbered k hmem (hrun ▸ List.mem_cons_self)
      · obtain ⟨rfl, -⟩ := runActivity_loop s r' r tasks' .workflow k hactivity
        obtain rfl := Option.some.inj (hr.symm.trans hr')
        exact tasks.singleLoop_noHook hsingle (hops ▸ List.mem_cons_self)

/-- An upgrade makes no calls in relations. -/
theorem upgrade_noCallers (s : AgentTasks R) (hwork : WorkInv s) (hrel : RelationsInv s) (n : Nat)
    (hcaller : s.caller = some (.upgrade n)) (r : R) (tasks : RelationTasks Unit)
    (hr : s.relations r = some tasks) : tasks.callers = [] := by
  obtain ⟨holder, hholder, hactivity⟩ := Option.map_eq_some_iff.mp hcaller
  obtain ⟨line, hline⟩ := List.head?_eq_some_iff.mp hholder
  by_contra hne
  have hawaiting := (hrel r tasks hr).awaited hne
  cases holder with
  | upgradeCharm m =>
    rw [(hwork.onExecutor m line hline).1] at hawaiting
    cases hawaiting
  | _ => cases hactivity

/-- An upgrade with the unit's workflow lock waits for its run lock alone. -/
theorem upgrade_waits (s : AgentTasks R) (hlocks : LocksInv s) (hwork : WorkInv s)
    (hrel : RelationsInv s) (n : Nat) (line : List Nat) (hline : s.workflowLock = n :: line)
    (b : Activity R) (h : s.Waits (.upgrade n) b) : s.caller = some b := by
  have hnone := upgrade_noCallers s hwork hrel n
  have hrun (r : R) (tasks : RelationTasks Unit) (task : RunTask Unit)
      (hr : s.relations r = some tasks) (htask : task ∈ tasks.runLock)
      (hactivity : s.runActivity r tasks task = some (.upgrade n)) : False := by
    have hcaller : s.caller = some (.upgrade n) := by
      cases task with
      | hook k => cases hactivity
      | departure c => exact hactivity
      | workflow =>
        obtain ⟨first, -, hfirst⟩ := Option.bind_eq_some_iff.mp hactivity
        cases first with
        | error k => cases hfirst
        | _ => exact hfirst
    rcases runActivity_caller s r tasks task _ hcaller hactivity with
      hwho | ⟨-, first, rest, hfirst, hwho⟩
    · exact tasks.runCaller_mem task () htask hwho (hnone hcaller r tasks hr)
    · exact tasks.workflowCaller_mem first () (hfirst ▸ List.mem_cons_self) hwho
        (hnone hcaller r tasks hr)
  rcases h with ⟨j, h⟩ | h
  · have hclimbs := unitWorkflow_climbs s hlocks n line hline j b h
    cases h with
    | unitRun task holder line' _ _ hline' hmem htask hholder =>
      simp only [caller, hline', List.head?_cons, Option.map_some, hholder]
    | relationWorkflow r tasks task holder line' _ _ hr hline' hmem htask hholder =>
      have hcaller : s.caller = some (.upgrade n) := by
        cases task with
        | error k => cases htask
        | _ => exact htask
      have hwho := workflowActivity_caller s r task _ hcaller htask
      exact absurd (hnone hcaller r tasks hr)
        (tasks.workflowCaller_mem task () (hline' ▸ List.mem_cons_of_mem holder hmem) hwho)
    | relationRun r tasks task holder line' _ _ hr hline' hmem htask hholder =>
      exact (hrun r tasks task hr (hline' ▸ List.mem_cons_of_mem holder hmem) htask).elim
    | _ => omega
  · cases h with
    | stopped r tasks _ m line' _ hr hhook _ =>
      rcases hookActivity_cases s r tasks _ hhook with
        ⟨k, rest, -, hloop⟩ | ⟨rest, ops, hrest, -, hactivity⟩
      · cases hloop
      · exact (hrun r tasks .workflow hr (hrest ▸ List.mem_cons_self) hactivity).elim

theorem agent_not_deadlocked (s : AgentTasks R) (hlocks : LocksInv s) (hwork : WorkInv s)
    (hrel : RelationsInv s) (D : Set (Activity R)) : ¬ Deadlocked s.Waits D := by
  intro hdeadlocked
  obtain ⟨hne, hwaits⟩ := hdeadlocked
  by_cases hexecutor : ∃ a ∈ D, ∃ b ∈ D, s.WaitsForExecutor a b
  · obtain ⟨a, -, b, hb, hab⟩ := hexecutor
    cases hab with
    | stopped r tasks _ n line hstopped hr hhook hline =>
      obtain ⟨c, hc, hbc⟩ := hwaits _ hb
      have hcaller := upgrade_waits s hlocks hwork hrel n line hline c hbc
      obtain ⟨d, hd, hcd⟩ := hwaits c hc
      obtain ⟨r', tasks', k, line', hr', hline', hcallers, rfl⟩ :=
        caller_waits s hlocks hwork hrel hstopped c d hcaller hcd
      obtain ⟨e, -, hde⟩ := hwaits _ hd
      exact errorHandler_free s hlocks hwork hrel hstopped r' tasks' k line' hr' hline' hcallers e hde
  · have hlocksAlone : ¬ Deadlocked (fun a b => ∃ i, s.WaitsForLock a i b) D :=
      not_deadlocked_of_ranked s.WaitsForLock 4 (fun a b h => h) (locks_climb s hlocks hrel)
        (waitsForLock_rank s) D
    refine hlocksAlone ⟨hne, fun a ha => ?_⟩
    obtain ⟨b, hb, hab⟩ := hwaits a ha
    exact ⟨b, hb, hab.resolve_right fun hstopped => hexecutor ⟨a, ha, b, hb, hstopped⟩⟩

theorem relationStarted_inv (s : AgentTasks R) (r : R) (tasks : RelationTasks Unit)
    (h : RelationStarted tasks) : RelationInv s r tasks := by
  have hcallers : tasks.callers = [] := by
    rw [RelationTasks.callers, h.quiet.runLock, h.quiet.workflowLock]
    rfl
  have hall : tasks.allLoops = tasks.loops := by
    rw [RelationTasks.allLoops, h.quiet.failing, h.quiet.runLock, h.quiet.workflowLock]
    simp [hookLoops, errorLoops]
  have hloops := h.loops
  have hrests : RelationTasks.Rests tasks.side := by
    refine ⟨h.inTable.1, h.inflight, fun hstate => ?_⟩
    have htable := h.inTable.2
    rw [hstate] at htable
    exact Prod.mk.inj htable
  have htracked := RelationTasks.takeWorkflow_tracked tasks [] hrests fun _ _ => h.inTable
  have hsame : tasks.takeWorkflow [] = tasks := by
    rw [RelationTasks.takeWorkflow, ← h.quiet.workflowLock, ← h.ops]
  refine ⟨hsame ▸ htracked, ⟨?_, ?_⟩, ⟨?_, ?_⟩, ?_, fun hne => absurd hcallers hne, fun _ => ?_⟩
  · simp [h.quiet.runLock]
  · simp [h.quiet.runLock, h.ops, Alternates]
  · rw [hall, hloops]
    split <;> decide
  · rw [hall, hloops, h.nextLoop]
    split <;> decide
  · rw [hcallers]
    exact Nat.zero_le 1
  · have hmem : synchronizeRelation none none ∈ startPrograms := by decide
    refine ⟨h.quiet.departing, ?_, ?_, ?_, fun hstopped => Or.inl ?_, ?_,
      Or.inr ⟨_, hmem, ?_⟩, ?_⟩
    · simp [h.quiet.workflowLock]
    · simp [h.quiet.runLock]
    · rw [hall, hloops]
      split <;> decide
    · rw [hall, hloops, hstopped]
      rfl
    · simp [h.ops]
    · rw [h.ops]
      exact List.nil_suffix
    · simp [RelationTasks.waitsForRun, h.quiet.runLock]

theorem started_inv (s : AgentTasks R) (h : Started s) :
    LocksInv s ∧ WorkInv s ∧ RelationsInv s := by
  refine ⟨?_, ?_, fun r tasks hr => relationStarted_inv s r tasks (h.relations r tasks hr)⟩
  · constructor <;> simp [h.workflowLock, h.runLock, h.takenUp, h.ops, h.awaiting]
  · constructor <;> simp [h.runLock, h.ops, h.awaiting, h.departed]

variable [DecidableEq R]

/-- As long as no removal of a relation is taken up while the executor is stopped, no calls and
loops wait for each other in a circle, and whoever keeps a retry from the run lock comes down to
somebody who goes on. -/
theorem locks_never_deadlock (s : AgentTasks R)
    (h : Reachable Started step RemovesRunning s) :
    (∀ D, ¬ Deadlocked s.Waits D) ∧
      ∀ n holder line, s.runLock = holder :: line → .upgradeCharm n ∈ line →
        ∃ a, Relation.TransGen s.Waits (.upgrade n) a ∧ ∀ b, ¬ s.Waits a b := by
  have hinv := reachable_invariant (fun s => LocksInv s ∧ WorkInv s ∧ RelationsInv s) started_inv
    (fun s s' e hi he hs => ⟨step_locks s s' e hi.1 hs, step_work s s' e hi.1 hi.2.1 he hs,
      step_relations s s' e hi.2.1 hi.2.2 hs⟩) s h
  have hnone := agent_not_deadlocked s hinv.1 hinv.2.1 hinv.2.2
  refine ⟨hnone, fun n holder line hline hmem => ?_⟩
  have hwaits : s.Waits (.upgrade n) holder.activity :=
    Or.inl ⟨1, .unitRun (.upgradeCharm n) holder line _ _ hline hmem rfl rfl⟩
  exact waits_for_free hnone _ _ hwaits

/-- An agent with one relation, which is up. -/
def agentWithRelation : AgentTasks Nat where
  executorRunning := true
  nextTask := 0
  workflowLock := []
  upgrading := false
  runLock := []
  takenUp := false
  ops := []
  awaiting := none
  known := [7]
  departed := []
  relations r := if r = 7 then
      some ⟨⟨some .up, none, true, true, true⟩, [], [], [], [], 1, [0], []⟩
    else none

theorem agentWithRelation_started : Started agentWithRelation := by
  refine ⟨rfl, rfl, rfl, rfl, rfl, rfl, rfl, ?_, ?_⟩
  · intro r hr
    obtain rfl := List.mem_singleton.mp hr
    rfl
  · intro r tasks hr
    by_cases h : r = 7
    · subst h
      obtain rfl := Option.some.inj hr
      exact ⟨⟨rfl, rfl, rfl, rfl⟩, rfl, ⟨nofun, rfl⟩, rfl, rfl, rfl⟩
    · simp [agentWithRelation, h] at hr

theorem locks_never_deadlock_failed :
    ∃ s : AgentTasks Nat, s.executorRunning = false ∧
      s.runLock = [.relationResolvedChanges 1 [7], .upgradeCharm 2] ∧
      ∃ a, Relation.TransGen s.Waits (.upgrade 2) a ∧ ∀ b, ¬ s.Waits a b := by
  -- an upgrade fails, and the relation is resolved before the retry
  have hrequested : Reachable Started step RemovesRunning _ :=
    .step agentWithRelation _ .requestUpgrade (.init _ agentWithRelation_started) trivial rfl
  have hupgrading := Reachable.step _ _ AgentEvent.upgradeCharm hrequested trivial rfl
  have htaken := Reachable.step _ _ AgentEvent.goOn hupgrading nofun rfl
  have hstopped := Reachable.step _ _ AgentEvent.goOn htaken nofun rfl
  have hfailed := Reachable.step _ _ AgentEvent.failUpgrade hstopped trivial rfl
  have hfinished := Reachable.step _ _ AgentEvent.finishUpgrade hfailed trivial rfl
  have hresolved := Reachable.step _ _ (AgentEvent.relationResolvedChanges [7]) hfinished trivial rfl
  have hretried := Reachable.step _ _ AgentEvent.requestUpgrade hresolved trivial rfl
  have hwaiting := Reachable.step _ _ AgentEvent.upgradeCharm hretried trivial rfl
  have hfree := (locks_never_deadlock _ hwaiting).2 2 _ _ rfl List.mem_cons_self
  exact ⟨_, rfl, rfl, hfree⟩

/-- A relation that changes after a failed upgrade, is removed, and keeps the retry from the run
lock for good. -/
theorem removal_deadlocks :
    ∃ s : AgentTasks Nat, Reachable Started step (fun _ _ => True) s ∧
      Deadlocked s.Waits {.callback 1, .loop 7 0, .upgrade 2} := by
  have hrun : Reachable Started step (fun _ _ => True) _ :=
    reachable_stepAll (fun _ _ => trivial)
      [.requestUpgrade, .upgradeCharm, .goOn, .goOn, .failUpgrade, .finishUpgrade,
        .relation 7 (.change 0), .serviceRelationChanges [], .goOn, .goOn, .requestUpgrade,
        .upgradeCharm]
      agentWithRelation _ (.init _ agentWithRelation_started) rfl
  refine ⟨_, hrun, ⟨.upgrade 2, Or.inr (Or.inr rfl)⟩, ?_⟩
  rintro a (rfl | rfl | rfl)
  · -- the removal waits for the relation's run lock, which the changed hook has
    refine ⟨.loop 7 0, Or.inr (Or.inl rfl), Or.inl ⟨3, ?_⟩⟩
    exact .relationRun 7 _ (.departure ()) (.hook 0) _ _ _ rfl rfl List.mem_cons_self rfl rfl
  · -- the hook waits for the executor
    refine ⟨.upgrade 2, Or.inr (Or.inr rfl), Or.inr ?_⟩
    exact .stopped 7 _ _ 2 [] rfl rfl rfl rfl
  · -- the retry, which would restart it, waits for the removal
    refine ⟨.callback 1, Or.inl rfl, Or.inl ⟨1, ?_⟩⟩
    exact .unitRun (.upgradeCharm 2) (.serviceRelationChanges 1 []) _ _ _ rfl List.mem_cons_self
      rfl rfl

end AgentTasks

end Juju.Unit

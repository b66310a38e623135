import Juju.Unit.RelationLoops

namespace Juju.Unit
open Juju.Base Juju.Lib
open scoped List

/-- What has the scheduler run in a relation that nobody stops. -/
def startPrograms : List (List WorkflowOp) :=
  [synchronizeRelation none none, fireRelation .reset, fireRelation .restart]

theorem startPrograms_spec (p rest : List WorkflowOp) (hp : p ∈ startPrograms)
    (hrest : rest <:+ p) :
    (.acquireRun ∈ rest → .runScheduler ∈ rest) ∧
      (.stopLifecycle true ∈ rest ∨ .stopLifecycle false ∈ rest → .runScheduler ∈ rest) ∧
      .executeHook ∉ rest ∧
      (rest.head? = some .runScheduler → .runScheduler ∉ rest.tail) := by
  have hevery : ∀ p ∈ startPrograms, ∀ rest ∈ p.tails,
      (.acquireRun ∈ rest → .runScheduler ∈ rest) ∧
        (.stopLifecycle true ∈ rest ∨ .stopLifecycle false ∈ rest → .runScheduler ∈ rest) ∧
        .executeHook ∉ rest ∧
        (rest.head? = some .runScheduler → .runScheduler ∉ rest.tail) := by
    decide
  exact hevery p hp rest ((List.mem_tails rest p).mpr hrest)

theorem errorProgram_spec (rest : List WorkflowOp) (hrest : rest <:+ fireRelation .error) :
    .runScheduler ∉ rest ∧ .executeHook ∉ rest := by
  have hevery : ∀ op ∈ fireRelation .error, op ≠ .runScheduler ∧ op ≠ .executeHook := by
    decide
  exact ⟨fun hmem => (hevery _ (hrest.subset hmem)).1 rfl,
    fun hmem => (hevery _ (hrest.subset hmem)).2 rfl⟩

namespace RelationTasks

variable {C : Type}

/-- An error handler has the workflow lock. -/
def AtError (s : RelationTasks C) : Prop := ∃ loop line, s.workflowLock = .error loop :: line

/-- A relation that no caller stops or has depart: it has one loop, and none while the scheduler
is stopped but for the one whose error is handled; nobody with the workflow lock has to wait for
the run lock. -/
structure SingleLoop (s : RelationTasks C) : Prop where
  departing : s.departing = []
  staying : ∀ task ∈ s.workflowLock.tail,
    (∃ loop, task = .error loop) ∨ ∃ caller, task = .resolved caller
  arriving : s.runLock.filterMap RunTask.caller = []
  one : s.allLoops.length ≤ 1
  stopped : s.side.executing = false → s.allLoops = [] ∨ s.AtError
  starts : .runScheduler ∈ s.ops → s.allLoops = [] ∧ s.side.executing = false
  program : s.AtError ∧ s.ops <:+ fireRelation .error ∨ ∃ p ∈ startPrograms, s.ops <:+ p
  first : s.waitsForRun = false

theorem singleLoop_atError (s : RelationTasks C) (h : SingleLoop s) (loop : Nat)
    (line : List (WorkflowTask C)) (hline : s.workflowLock = .error loop :: line) :
    s.loops = [] ∧ s.failing = [] ∧ hookLoops s.runLock = [] ∧ errorLoops line = [] := by
  have hone := h.one
  have herror : (errorLoops s.workflowLock).length = (errorLoops line).length + 1 := by
    rw [hline]
    rfl
  simp only [allLoops, List.length_append] at hone
  refine ⟨?_, ?_, ?_, ?_⟩ <;> apply List.eq_nil_of_length_eq_zero <;> omega

theorem singleLoop_noHook (s : RelationTasks C) (h : SingleLoop s) : .executeHook ∉ s.ops := by
  rcases h.program with ⟨-, hsuffix⟩ | ⟨p, hp, hsuffix⟩
  · exact (errorProgram_spec s.ops hsuffix).2
  · exact (startPrograms_spec p s.ops hp hsuffix).2.2.1

theorem singleLoop_goesOn (s : RelationTasks C) (h : SingleLoop s) (holder : RunTask C)
    (line : List (RunTask C)) (hline : s.runLock = holder :: line) : .workflow ∉ line := by
  intro hmem
  have hfirst := h.first
  unfold waitsForRun at hfirst
  rw [hline, List.tail_cons, List.any_eq_false] at hfirst
  exact hfirst _ hmem rfl

/-- Once the scheduler is to run, it is stopped and without loops. -/
theorem singleLoop_quiet (s : RelationTasks C) (h : SingleLoop s)
    (hops : .acquireRun ∈ s.ops ∨ .runScheduler ∈ s.ops) :
    s.AtError ∨ s.allLoops = [] ∧ s.side.executing = false := by
  rcases h.program with ⟨herror, -⟩ | ⟨p, hp, hsuffix⟩
  · exact Or.inl herror
  · have hspec := startPrograms_spec p s.ops hp hsuffix
    exact Or.inr (h.starts (hops.elim hspec.1 id))

/-- Nobody has the run lock when the holder of the workflow lock comes for it. -/
theorem singleLoop_runFree (s : RelationTasks C) (h : SingleLoop s) (hturn : InTurn s)
    (ops : List WorkflowOp) (hops : s.ops = .acquireRun :: ops) : s.runLock = [] := by
  have hout : s.runLock.any RunTask.isWorkflow = false := by
    have halternates := hturn.alternates
    rw [hops] at halternates
    simp only [Alternates, Bool.and_eq_true, Bool.not_eq_true'] at halternates
    exact halternates.1
  have hhooks : hookLoops s.runLock = [] := by
    rcases singleLoop_quiet s h (Or.inl (hops ▸ List.mem_cons_self)) with
      ⟨loop, line, hline⟩ | ⟨hnone, -⟩
    · exact (singleLoop_atError s h loop line hline).2.2.1
    · simp only [allLoops, List.append_eq_nil_iff] at hnone
      exact hnone.1.2
  have harriving := h.arriving
  cases hrun : s.runLock with
  | nil => rfl
  | cons task line =>
    rw [hrun] at hout hhooks harriving
    cases task with
    | workflow => simp [RunTask.isWorkflow] at hout
    | departure caller => cases harriving
    | hook loop => cases hhooks

theorem resolved_program (side : RelationSide) (caller : C) (h : side.InTable) :
    (WorkflowTask.resolved caller).program side = [] ∨
      (WorkflowTask.resolved caller).program side ∈ startPrograms ∧ side.executing = false := by
  obtain ⟨state, inflight, watching, executing, handled⟩ := side
  obtain ⟨hnamed, hflags⟩ := h
  rcases state with _ | state
  · exact absurd rfl hnamed
  · cases state with
    | up => exact Or.inl rfl
    | down =>
      have hmem : fireRelation .restart ∈ startPrograms := by decide
      exact Or.inr ⟨hmem, congrArg Prod.snd hflags⟩
    | error =>
      have hmem : fireRelation .reset ∈ startPrograms := by decide
      exact Or.inr ⟨hmem, congrArg Prod.snd hflags⟩
    | departed => exact Or.inl rfl

theorem error_program (side : RelationSide) (loop : Nat) :
    (WorkflowTask.error loop : WorkflowTask C).program side = [] ∨
      (WorkflowTask.error loop : WorkflowTask C).program side = fireRelation .error := by
  simp only [WorkflowTask.program, fireIfAvailable]
  split
  · exact Or.inr rfl
  · exact Or.inl rfl

/-- The loops, once the workflow lock is free for a line to have. -/
def loopsBefore (s : RelationTasks C) (line : List (WorkflowTask C)) : List Nat :=
  s.loops ++ s.failing ++ hookLoops s.runLock ++ errorLoops line

theorem takeWorkflow_loops (s : RelationTasks C) (line : List (WorkflowTask C)) :
    (s.takeWorkflow line).allLoops <+ s.loopsBefore line := by
  obtain ⟨hline, hrun, -, hloops, hfailing, -⟩ := takeWorkflow_frame s line
  unfold allLoops loopsBefore
  rw [hrun, hloops, hfailing]
  exact (List.Sublist.refl _).append (hline.sublist.filterMap _)

/-- The first in the line finds the relation in step: it has the scheduler run only where there
is no loop. -/
theorem takeWorkflow_single (s : RelationTasks C) (line : List (WorkflowTask C))
    (hdeparting : s.departing = [])
    (hstaying : ∀ task ∈ line, (∃ loop, task = .error loop) ∨ ∃ caller, task = .resolved caller)
    (harriving : s.runLock.filterMap RunTask.caller = []) (hfirst : s.waitsForRun = false)
    (hone : (s.loopsBefore line).length ≤ 1)
    (hstopped : s.side.executing = false → s.loopsBefore line = []) (htable : s.side.InTable) :
    SingleLoop (s.takeWorkflow line) := by
  have hloops := takeWorkflow_loops s line
  have hside := takeWorkflow_side s line
  obtain ⟨-, hrun, hdeparting', -⟩ := takeWorkflow_frame s line
  have hstopped' (hexecuting : s.side.executing = false) :
      (s.takeWorkflow line).allLoops = [] := by
    rw [hstopped hexecuting] at hloops
    exact List.sublist_nil.mp hloops
  have hrest : (∀ task ∈ (s.takeWorkflow line).workflowLock.tail,
        (∃ loop, task = .error loop) ∨ ∃ caller, task = .resolved caller) ∧
      (.runScheduler ∈ (s.takeWorkflow line).ops → s.side.executing = false) ∧
      ((s.takeWorkflow line).AtError ∧ (s.takeWorkflow line).ops <:+ fireRelation .error ∨
        ∃ p ∈ startPrograms, (s.takeWorkflow line).ops <:+ p) := by
    clear hloops hside hrun hdeparting' hstopped' hone hstopped
    induction line with
    | nil =>
      have hmem : fireRelation .reset ∈ startPrograms := by decide
      exact ⟨nofun, nofun, Or.inr ⟨_, hmem, List.nil_suffix⟩⟩
    | cons task line ih =>
      have hstays := ih fun task' hmem => hstaying task' (List.mem_cons_of_mem task hmem)
      unfold takeWorkflow
      split
      · exact hstays
      · rename_i op ops hprogram
        refine ⟨fun task' hmem => hstaying task' (List.mem_cons_of_mem task hmem), ?_⟩
        rcases hstaying task List.mem_cons_self with ⟨loop, rfl⟩ | ⟨caller, rfl⟩
        · have hfire := (error_program s.side loop).resolve_left (by rw [hprogram]; nofun)
          rw [hprogram] at hfire
          rw [hfire]
          exact ⟨fun hmem => absurd hmem (errorProgram_spec _ List.suffix_rfl).1,
            Or.inl ⟨⟨loop, line, rfl⟩, List.suffix_rfl⟩⟩
        · obtain ⟨hmem, hexecuting⟩ :=
            (resolved_program s.side caller htable).resolve_left (by rw [hprogram]; nofun)
          rw [hprogram] at hmem
          exact ⟨fun _ => hexecuting, Or.inr ⟨_, hmem, List.suffix_rfl⟩⟩
  refine ⟨?_, hrest.1, ?_, hloops.length_le.trans hone, ?_, ?_, hrest.2.2, ?_⟩
  · rw [hdeparting', hdeparting]
  · rw [hrun, harriving]
  · rw [hside]
    exact fun hexecuting => Or.inl (hstopped' hexecuting)
  · rw [hside]
    exact fun hmem => ⟨hstopped' (hrest.2.1 hmem), hrest.2.1 hmem⟩
  · unfold waitsForRun
    rw [hrun]
    exact hfirst

theorem singleLoop_table (s : RelationTasks C) (h : SingleLoop s) (htracked : Tracked s)
    (hops : s.ops = []) : s.side.InTable := by
  have htable := htracked.table h.departing fun caller hmem => by
    rcases h.staying _ hmem with ⟨loop, hloop⟩ | ⟨other, hother⟩
    · cases hloop
    · cases hother
  rw [hops] at htable
  exact htable

theorem atError_joined (s : RelationTasks C) (task : WorkflowTask C) (h : s.AtError) :
    ({ s with workflowLock := s.workflowLock ++ [task] } : RelationTasks C).AtError := by
  obtain ⟨loop, line, hline⟩ := h
  exact ⟨loop, line ++ [task], by simp [hline]⟩

/-- A task that comes for the workflow lock, with a loop that has just failed or with none. -/
theorem acquireWorkflow_single (s : RelationTasks C) (failing : List Nat) (task : WorkflowTask C)
    (htracked : Tracked s) (h : SingleLoop s)
    (htask : (∃ loop, task = .error loop) ∨ ∃ caller, task = .resolved caller)
    (hloops : { s with failing := failing }.loopsBefore (s.workflowLock ++ [task]) <+~ s.allLoops) :
    SingleLoop ({ s with failing := failing }.acquireWorkflow task) := by
  have hnone (hall : s.allLoops = []) :
      { s with failing := failing }.loopsBefore (s.workflowLock ++ [task]) = [] := by
    rw [hall] at hloops
    exact List.eq_nil_of_length_eq_zero (Nat.le_zero.mp hloops.length_le)
  unfold acquireWorkflow
  split
  · rename_i hfree
    have hlock : s.workflowLock = [] := hfree
    rw [hlock] at hloops hnone
    refine takeWorkflow_single _ [task] h.departing ?_ h.arriving h.first
      (hloops.length_le.trans h.one) ?_ (singleLoop_table s h htracked (htracked.idle hlock))
    · intro other hother
      obtain rfl := List.mem_singleton.mp hother
      exact htask
    · intro hexecuting
      rcases h.stopped hexecuting with hall | ⟨loop, line, hline⟩
      · exact hnone hall
      · rw [hlock] at hline
        cases hline
  · rename_i hheld
    obtain ⟨holder, line, hline⟩ := List.exists_cons_of_ne_nil hheld
    have hline : s.workflowLock = holder :: line := hline
    refine ⟨h.departing, ?_, h.arriving, hloops.length_le.trans h.one, ?_, ?_, ?_, h.first⟩
    · intro other hother
      simp only [hline, List.cons_append, List.tail_cons, List.mem_append,
        List.mem_singleton] at hother
      rcases hother with hother | rfl
      · exact h.staying other (by rw [hline]; exact hother)
      · exact htask
    · intro hexecuting
      rcases h.stopped hexecuting with hall | herror
      · exact Or.inl (hnone hall)
      · exact Or.inr (atError_joined { s with failing := failing } task herror)
    · intro hops
      exact ⟨hnone (h.starts hops).1, (h.starts hops).2⟩
    · rcases h.program with ⟨herror, hsuffix⟩ | hstart
      · exact Or.inl ⟨atError_joined { s with failing := failing } task herror, hsuffix⟩
      · exact Or.inr hstart

/-- The holder of the workflow lock is done: no loop is left of an error. -/
theorem releaseWorkflow_single (s : RelationTasks C) (task : WorkflowTask C)
    (line : List (WorkflowTask C)) (htracked : Tracked s) (h : SingleLoop s) (hops : s.ops = [])
    (hline : s.workflowLock = task :: line) : SingleLoop (s.releaseWorkflow line task) := by
  have hbefore : s.loopsBefore line <+ s.allLoops := by
    unfold loopsBefore allLoops
    rw [hline]
    exact (List.Sublist.refl _).append ((List.sublist_cons_self task line).filterMap _)
  have hstopped (hexecuting : s.side.executing = false) : s.loopsBefore line = [] := by
    rcases h.stopped hexecuting with hall | ⟨loop, line', herror⟩
    · rw [hall] at hbefore
      exact List.sublist_nil.mp hbefore
    · obtain ⟨hloops, hfailing, hhooks, herrors⟩ := singleLoop_atError s h loop line' herror
      rw [hline] at herror
      obtain rfl := (List.cons.inj herror).2
      simp only [loopsBefore, hloops, hfailing, hhooks, herrors, List.append_nil]
  rw [releaseWorkflow_eq s task line htracked hops hline]
  refine takeWorkflow_single s line h.departing (fun other hother => ?_) h.arriving h.first
    (hbefore.length_le.trans h.one) hstopped (singleLoop_table s h htracked hops)
  exact h.staying other (by rw [hline]; exact hother)

theorem perform_frame (s : RelationTasks C) (op : WorkflowOp) :
    (s.perform op).side = s.side.perform op ∧ (s.perform op).workflowLock = s.workflowLock ∧
      (s.perform op).ops = s.ops ∧ (s.perform op).departing = s.departing := by
  cases op with
  | runScheduler =>
    simp only [perform]
    split <;> exact ⟨rfl, rfl, rfl, rfl⟩
  | _ => exact ⟨rfl, rfl, rfl, rfl⟩

/-- The line for the run lock holds up nobody with the workflow lock. -/
theorem perform_runLock (s : RelationTasks C) (op : WorkflowOp)
    (hfree : op = .acquireRun → s.runLock = []) (harriving : s.runLock.filterMap RunTask.caller = [])
    (hfirst : s.waitsForRun = false) :
    (s.perform op).runLock.filterMap RunTask.caller = [] ∧ (s.perform op).waitsForRun = false := by
  cases op with
  | acquireRun =>
    simp only [perform, waitsForRun, hfree rfl]
    exact ⟨rfl, rfl⟩
  | releaseRun =>
    refine ⟨?_, ?_⟩
    · have htail : s.runLock.tail.filterMap RunTask.caller <+ s.runLock.filterMap RunTask.caller :=
        (List.tail_sublist s.runLock).filterMap _
      rw [harriving] at htail
      exact List.sublist_nil.mp htail
    · simp only [waitsForRun, List.any_eq_false] at hfirst ⊢
      exact fun task htask => hfirst task ((List.tail_sublist _).subset htask)
  | runScheduler =>
    simp only [perform]
    split <;> exact ⟨harriving, hfirst⟩
  | _ => exact ⟨harriving, hfirst⟩

/-- The scheduler is run once. -/
theorem singleLoop_runsOnce (s : RelationTasks C) (h : SingleLoop s) (ops : List WorkflowOp)
    (hops : s.ops = .runScheduler :: ops) : .runScheduler ∉ ops := by
  rcases h.program with ⟨-, hsuffix⟩ | ⟨p, hp, hsuffix⟩
  · exact absurd (hops ▸ List.mem_cons_self) (errorProgram_spec s.ops hsuffix).1
  · have hspec := (startPrograms_spec p s.ops hp hsuffix).2.2.2
    rw [hops] at hspec
    exact hspec rfl

/-- Whoever stops the scheduler handles an error, or is about to run it. -/
theorem singleLoop_stops (s : RelationTasks C) (h : SingleLoop s) (stopWatches : Bool)
    (hops : .stopLifecycle stopWatches ∈ s.ops) : s.allLoops = [] ∨ s.AtError := by
  rcases h.program with ⟨herror, -⟩ | ⟨p, hp, hsuffix⟩
  · exact Or.inr herror
  · have hspec := (startPrograms_spec p s.ops hp hsuffix).2.1
    cases stopWatches with
    | true => exact Or.inl (h.starts (hspec (Or.inl hops))).1
    | false => exact Or.inl (h.starts (hspec (Or.inr hops))).1

theorem perform_single (s : RelationTasks C) (op : WorkflowOp) (ops : List WorkflowOp)
    (hturn : InTurn s) (h : SingleLoop s) (hops : s.ops = op :: ops) :
    SingleLoop ({ s with ops := ops }.perform op) := by
  obtain ⟨hside, hlock, hrest, hdeparting⟩ := perform_frame { s with ops := ops } op
  obtain ⟨harriving, hfirst⟩ := perform_runLock { s with ops := ops } op
    (fun hop => singleLoop_runFree s h hturn ops (hop ▸ hops)) h.arriving h.first
  have hatError : s.AtError → ({ s with ops := ops }.perform op).AtError := by
    rintro ⟨loop, line, hline⟩
    exact ⟨loop, line, hlock.trans hline⟩
  have hstaying : ∀ task ∈ ({ s with ops := ops }.perform op).workflowLock.tail,
      (∃ loop, task = .error loop) ∨ ∃ caller, task = .resolved caller := by
    rw [hlock]
    exact h.staying
  have hprogram : ({ s with ops := ops }.perform op).AtError ∧ ops <:+ fireRelation .error ∨
      ∃ p ∈ startPrograms, ops <:+ p := by
    have hsuffix : ops <:+ s.ops := hops ▸ List.suffix_cons op ops
    rcases h.program with ⟨herror, hp⟩ | ⟨p, hp, hrest⟩
    · exact Or.inl ⟨hatError herror, hsuffix.trans hp⟩
    · exact Or.inr ⟨p, hp, hsuffix.trans hrest⟩
  have hmem : op ∈ s.ops := hops ▸ List.mem_cons_self
  by_cases hrun : op = .runScheduler
  · subst hrun
    obtain ⟨hnone, hexecuting⟩ := h.starts hmem
    have hone : ({ s with ops := ops }.perform .runScheduler).allLoops.length ≤ 1 := by
      rcases perform_allLoops s .runScheduler ops hops with ⟨hsub, -⟩ | ⟨-, -, hperm, -⟩
      · exact hsub.length_le.trans h.one
      · rw [← hperm.length_eq, hnone]
        exact Nat.le_refl 1
    refine ⟨hdeparting.trans h.departing, hstaying, harriving, hone, ?_, ?_, hrest ▸ hprogram, hfirst⟩
    · rw [hside]
      nofun
    · rw [hrest]
      exact fun hagain => absurd hagain (singleLoop_runsOnce s h ops hops)
  · have hsub : ({ s with ops := ops }.perform op).allLoops <+~ s.allLoops := by
      rcases perform_allLoops s op ops hops with ⟨hsub, -⟩ | ⟨⟨ops', hagain⟩, -⟩
      · exact hsub
      · rw [hops] at hagain
        exact absurd (List.cons.inj hagain).1 hrun
    have hnone (hall : s.allLoops = []) : ({ s with ops := ops }.perform op).allLoops = [] := by
      rw [hall] at hsub
      exact List.eq_nil_of_length_eq_zero (Nat.le_zero.mp hsub.length_le)
    refine ⟨hdeparting.trans h.departing, hstaying, harriving, hsub.length_le.trans h.one, ?_, ?_,
      hrest ▸ hprogram, hfirst⟩
    · rw [hside]
      intro hexecuting
      have hend : s.allLoops = [] ∨ s.AtError := by
        cases op with
        | stopLifecycle stopWatches => exact singleLoop_stops s h stopWatches hmem
        | runScheduler => exact absurd rfl hrun
        | _ => exact h.stopped hexecuting
      exact hend.imp hnone hatError
    · rw [hrest, hside]
      intro hstarts
      obtain ⟨hall, hexecuting⟩ := h.starts (hops ▸ List.mem_cons_of_mem op hstarts)
      refine ⟨hnone hall, ?_⟩
      cases op with
      | runScheduler => exact absurd rfl hrun
      | stopLifecycle stopWatches => rfl
      | _ => exact hexecuting

/-- A step that leaves the workflow lock alone. -/
theorem lockLeft_single (s s' : RelationTasks C) (h : SingleLoop s) (hside : s'.side = s.side)
    (hlock : s'.workflowLock = s.workflowLock) (hops : s'.ops <:+ s.ops)
    (hdeparting : s'.departing = s.departing) (hloops : s'.allLoops <+~ s.allLoops)
    (harriving : s'.runLock.filterMap RunTask.caller = []) (hfirst : s'.waitsForRun = false) :
    SingleLoop s' := by
  have hnone (hall : s.allLoops = []) : s'.allLoops = [] := by
    rw [hall] at hloops
    exact List.eq_nil_of_length_eq_zero (Nat.le_zero.mp hloops.length_le)
  have hatError : s.AtError → s'.AtError := by
    rintro ⟨loop, line, hline⟩
    exact ⟨loop, line, hlock.trans hline⟩
  refine ⟨hdeparting.trans h.departing, hlock ▸ h.staying, harriving,
    hloops.length_le.trans h.one, ?_, ?_, ?_, hfirst⟩
  · rw [hside]
    exact fun hexecuting => (h.stopped hexecuting).imp hnone hatError
  · rw [hside]
    exact fun hstarts => ⟨hnone (h.starts (hops.subset hstarts)).1,
      (h.starts (hops.subset hstarts)).2⟩
  · rcases h.program with ⟨herror, hp⟩ | ⟨p, hp, hrest⟩
    · exact Or.inl ⟨hatError herror, hops.trans hp⟩
    · exact Or.inr ⟨p, hp, hops.trans hrest⟩

/-- A relation that goes on by itself, or is resolved, keeps its one loop. -/
theorem step_single (s s' : RelationTasks C) (e : RelationEvent C)
    (he : e.internal = true ∨ ∃ caller, e = .resolved caller) (htracked : Tracked s)
    (hturn : InTurn s) (h : SingleLoop s) (hs : s.step e = some s') : SingleLoop s' := by
  have hloops := step_allLoops s s' e hs
  cases e with
  | resolved caller =>
    obtain rfl := Option.some.inj hs
    refine acquireWorkflow_single s s.failing _ htracked h (Or.inr ⟨caller, rfl⟩) ?_
    have hnone : errorLoops [.resolved caller] = [] := rfl
    simp only [loopsBefore, errorLoops_append, hnone, List.append_nil]
    exact List.Subperm.refl _
  | goOn =>
    simp only [step] at hs
    split at hs
    · cases hs
    · split at hs
      · cases hs
      · rename_i hline hops
        obtain rfl := Option.some.inj hs
        exact releaseWorkflow_single s _ _ htracked h hops hline
      · cases hs
      · rename_i hops _
        obtain rfl := Option.some.inj hs
        exact perform_single s _ _ hturn h hops
  | departureStops =>
    simp only [step] at hs
    split at hs
    · rename_i hrun
      have harriving := h.arriving
      rw [hrun] at harriving
      cases harriving
    · cases hs
  | change i =>
    simp only [step] at hs
    split at hs
    · cases hs
    · obtain rfl := Option.some.inj hs
      have hsub := (hloops.resolve_right fun hrun => by simpa using hrun.2.2.2).1
      refine lockLeft_single s _ h rfl rfl List.suffix_rfl rfl hsub ?_ ?_
      · rw [List.filterMap_append]
        exact List.append_eq_nil_iff.mpr ⟨h.arriving, rfl⟩
      · have hfirst := h.first
        unfold waitsForRun at hfirst ⊢
        cases hrun : s.runLock with
        | nil => rfl
        | cons task line =>
          rw [hrun] at hfirst
          simpa using hfirst
  | loopEnds i =>
    simp only [step] at hs
    split at hs
    · obtain rfl := Option.some.inj hs
      have hsub := (hloops.resolve_right fun hrun => by simpa using hrun.2.2.2).1
      exact lockLeft_single s _ h rfl rfl List.suffix_rfl rfl hsub h.arriving h.first
    · cases hs
  | hookEnds success =>
    simp only [step] at hs
    split at hs
    · rename_i loop line hrun
      have hnext : s'.nextLoop = s.nextLoop := by
        obtain rfl := Option.some.inj hs
        split <;> rfl
      have hsub := (hloops.resolve_right fun hrun => by
        have hmore := hrun.2.2.2
        omega).1
      have harriving := h.arriving
      have hfirst := h.first
      rw [hrun] at harriving
      unfold waitsForRun at hfirst
      rw [hrun] at hfirst
      have hafter : ({ s with runLock := line } : RelationTasks C).waitsForRun = false := by
        simp only [waitsForRun, List.tail_cons, List.any_eq_false] at hfirst ⊢
        exact fun task htask => hfirst task ((List.tail_sublist line).subset htask)
      obtain rfl := Option.some.inj hs
      cases success with
      | true => exact lockLeft_single s _ h rfl rfl List.suffix_rfl rfl hsub harriving hafter
      | false => exact lockLeft_single s _ h rfl rfl List.suffix_rfl rfl hsub harriving hafter
    · rename_i hops
      obtain rfl := Option.some.inj hs
      exact perform_single s .executeHook _ hturn h hops
    · cases hs
  | errorReported i =>
    simp only [step] at hs
    split at hs
    · cases hs
    · rename_i loop hloop
      obtain rfl := Option.some.inj hs
      split
      · refine acquireWorkflow_single s (s.failing.eraseIdx i) _ htracked h (Or.inl ⟨loop, rfl⟩)
          (List.perm_iff_count.mpr fun k => ?_).subperm
        have hcount := (moved_perm _ _ _ hloop).count_eq k
        simp only [allLoops, loopsBefore, errorLoops_append, errorLoops_error,
          List.count_append, List.count_cons, List.count_nil] at hcount ⊢
        omega
      · rename_i hunhandled
        rw [if_neg hunhandled] at hloops
        have hsub := (hloops.resolve_right fun hrun => by simpa using hrun.2.2.2).1
        exact lockLeft_single s _ h rfl rfl List.suffix_rfl rfl hsub h.arriving h.first
  | _ =>
    rcases he with he | ⟨caller, he⟩
    · cases he
    · cases he

end RelationTasks

end Juju.Unit

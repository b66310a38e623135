import Juju.Unit.UnitAgent

namespace Juju.Unit
open Juju.Base Juju.Lib

/-- A new agent process that finds `d` stored: its lifecycle and its executor do not run. -/
def restarted (d : UnitDict) : UnitWorkflowState := ⟨d, [], ⟨false, false, [], []⟩⟩

/-- The operations that an agent carries out: none where its synchronization does not return. -/
def carriedOut (d : UnitDict) (o : Outcomes) (run : List (AgentOperation × Outcomes)) :
    List (AgentOperation × Outcomes) :=
  match (synchronizeUnit o (restarted d)).2 with
  | .returned _ => run
  | _ => []

/-- The life of one agent process: it synchronizes and carries out operations. -/
def session (d : UnitDict) (o : Outcomes) (run : List (AgentOperation × Outcomes)) :
    UnitWorkflowState :=
  (carriedOut d o run).foldl (fun m step => operate step.2 m step.1)
    (synchronizeUnit o (restarted d)).1

/-- What is stored when a process dies, at the end of any of its writes or before the first. -/
inductive LeftStored : UnitDict → Prop where
  | nothing : LeftStored ⟨none, ∅, none⟩
  | died (d d' : UnitDict) (o : Outcomes) (run : List (AgentOperation × Outcomes)) :
      LeftStored d → d' ∈ (session d o run).stored :: (session d o run).history →
      LeftStored d'

/-- The process died in a charm upgrade, or after one that failed. -/
def midUpgrade (d : UnitDict) : Prop :=
  d.state = some .charmUpgradeError ∨
    d.state = some .started ∧
      (d.transitionId = some .upgradeCharm ∨ d.transitionId = some .upgradeCharmError)

/-- Synchronizing a new process with the dictionary `d` does what it promises. -/
structure RecoversWell (o : Outcomes) (d : UnitDict) : Prop where
  returned : ∃ success, (synchronizeUnit o (restarted d)).2 = .returned success
  notInflight : (synchronizeUnit o (restarted d)).1.stored.transitionId = none
  flags : (synchronizeUnit o (restarted d)).1.context.flags =
    preconditions (synchronizeUnit o (restarted d)).1.stored
  upgradeFirst : midUpgrade d → UpgradeFirst (synchronizeUnit o (restarted d)).1.context.events

/-- The transition that a synchronization fires: the one in flight, or else an automatic one. -/
def dueTransition (d : UnitDict) : Option UnitTransition :=
  match d.transitionId, d.state with
  | some t, _ => some t
  | none, none => some .install
  | none, some .installed => some .start
  | none, some _ => none

/-- The transition in flight can be completed from the flags that its state prescribes, and
neither the relations that are found before it nor those found in the course of the
synchronization are in the way of `start`. -/
structure CanRecover (o : Outcomes) (d : UnitDict) : Prop where
  inflight : ∀ t, d.transitionId = some t → keepsInStep o (some t) t
  before : (preconditions d).2 = true → o.found.Startable (preconditions d).1 false
  after : ∀ t, dueTransition d = some t → findsRelations o t → o.found.Startable true true

section reachable

theorem operate_recorded (o : Outcomes) (m : UnitWorkflowState) (operation : AgentOperation)
    (h : HistoryRecorded unitWorkflow m) :
    HistoryRecorded unitWorkflow (operate o m operation) := by
  cases operation with
  | fireTransition t => exact fireTransition_recorded unitWorkflow m _ _ t ∅ h
  | resolved retryHooks =>
    simp only [operate, cbWatchResolved]
    split
    · exact h
    · exact fireTransitionAlias_recorded unitWorkflow m _ _ _ h
  | upgradeFlag latest force =>
    simp only [operate, cbWatchUpgradeFlag]
    split
    · exact h
    · split
      · split
        · exact h
        · exact h
      · exact fireTransition_recorded unitWorkflow m _ _ _ ∅ h
  | configChanged =>
    simp only [operate, cbWatchConfigChanged]
    split
    · exact h
    · exact fireTransition_recorded unitWorkflow m _ _ _ ∅ h

theorem synchronizeUnit_recorded (o : Outcomes) (m : UnitWorkflowState)
    (h : HistoryRecorded unitWorkflow m) :
    HistoryRecorded unitWorkflow (synchronizeUnit o m).1 := by
  unfold synchronizeUnit
  simp only
  generalize invokeLifecycle (meetPreconditions o (preconditions m.stored).1
    (preconditions m.stored).2) m.context = met
  rcases met with ⟨x, result⟩
  cases result with
  | done vars => exact synchronize_recorded unitWorkflow _ _ _ h
  | _ => exact h

theorem session_recorded (d : UnitDict) (o : Outcomes) (run : List (AgentOperation × Outcomes))
    (hd : WellRecorded unitWorkflow d) : HistoryRecorded unitWorkflow (session d o run) := by
  have hstart : HistoryRecorded unitWorkflow (synchronizeUnit o (restarted d)).1 := by
    apply synchronizeUnit_recorded
    intro d' hd'
    rw [List.mem_singleton.mp hd']
    exact hd
  unfold session
  generalize carriedOut d o run = operations
  generalize (synchronizeUnit o (restarted d)).1 = m at hstart ⊢
  induction operations generalizing m with
  | nil => exact hstart
  | cons step rest ih => exact ih _ (operate_recorded step.2 m step.1 hstart)

theorem leftStored_recorded (d : UnitDict) (h : LeftStored d) : WellRecorded unitWorkflow d := by
  induction h with
  | nothing => exact wellRecorded_none unitWorkflow _ rfl
  | died d d' o run _ hmem ih => exact session_recorded d o run ih d' hmem

/-- Whenever the process dies, the transition in flight is one of the stored state. -/
theorem leftStored_source (d : UnitDict) (h : LeftStored d) (t : UnitTransition)
    (ht : d.transitionId = some t) : d.state = (unitTransition t).source := by
  obtain ⟨available, hav, hid⟩ := leftStored_recorded d h t ht
  obtain ⟨available', hav', hiff⟩ := available_iff_source d.state
  rw [hav] at hav'
  cases hav'
  exact ((hiff t).mp hid).symm

end reachable

section paused

/-- The executor runs, and hooks from its queue do, only after an upgrade. -/
structure PausedUntilUpgrade (x : UnitAgentParts) : Prop where
  upgradeFirst : UpgradeFirst x.events
  running : x.executorRunning = true → .upgraded ∈ x.events

variable (o : Outcomes)

theorem assertThat_keeps_paused (p : Bool) (a : Assertion) :
    Keeps PausedUntilUpgrade (assertThat p a) := by
  intro x hx
  rw [assertThat_run]
  cases p
  · exact ⟨hx.upgradeFirst, hx.running⟩
  · exact hx

theorem call_keeps_paused (name : HookName) :
    Keeps PausedUntilUpgrade (HookExecutor.call o name) := by
  intro x hx
  cases h : x.executorRunning with
  | false => simpa [HookExecutor.call, h] using hx
  | true =>
    have hup := hx.running h
    have hevents : PausedUntilUpgrade { x with events := .hook name false :: x.events } :=
      ⟨⟨fun _ => hup, hx.upgradeFirst⟩, fun _ => List.mem_cons_of_mem _ hup⟩
    rw [call_running o x name h]
    split
    · exact hevents
    · exact hevents

theorem upgradeCharm_keeps_paused (fireHooks force : Bool) :
    Keeps PausedUntilUpgrade (UnitLifecycle.upgradeCharm o fireHooks force) := by
  intro x hx
  obtain ⟨added, hadded, hup, hrun⟩ := upgradeCharm_run o x fireHooks force
  have hevents := upgradeFirst_append added x.events hadded hx.upgradeFirst
  rw [hrun]
  split
  · rename_i hupgrades
    exact ⟨hevents, fun _ => List.mem_append_left _ (hup hupgrades)⟩
  · split
    · exact hx
    · refine ⟨hevents, ?_⟩
      intro hrunning
      cases hrunning

theorem lifecycle_start_keeps_paused (fireHooks startRelations : Bool) :
    Keeps PausedUntilUpgrade (UnitLifecycle.start o fireHooks startRelations) := by
  have htail : Keeps PausedUntilUpgrade (relationsStart o startRelations) := by
    intro x hx
    rcases relationsStart_cases o x startRelations with ⟨workflows, -, -, hrun⟩ | hfails
    · rw [hrun]
      exact ⟨hx.upgradeFirst, hx.running⟩
    · obtain ⟨running, hrun | hrun⟩ := hfails
      · rw [hrun]
        exact ⟨hx.upgradeFirst, hx.running⟩
      · rw [hrun]
        exact ⟨hx.upgradeFirst, hx.running⟩
  unfold UnitLifecycle.start
  cases fireHooks with
  | false => exact htail
  | true =>
    refine keeps_bind _ _ _ (call_keeps_paused o .configChanged) ?_
    intro _
    refine keeps_bind _ _ _ (call_keeps_paused o .start) ?_
    intro _
    exact htail

theorem lifecycle_stop_keeps_paused (fireHooks : Bool) :
    Keeps PausedUntilUpgrade (UnitLifecycle.stop o fireHooks) := by
  have htail : Keeps PausedUntilUpgrade
      (modify fun x => { x with lifecycleRunning := false } : UnitM PUnit) :=
    keeps_modify _ _ (fun x hx => ⟨hx.upgradeFirst, hx.running⟩)
  unfold UnitLifecycle.stop
  refine keeps_bind _ _ _ (keeps_get _) ?_
  intro x
  refine keeps_bind _ _ _ (assertThat_keeps_paused _ _) ?_
  intro _
  cases fireHooks with
  | false => exact htail
  | true =>
    refine keeps_bind _ _ _ (call_keeps_paused o .stop) ?_
    intro _
    exact htail

theorem configure_keeps_paused (fireHooks : Bool) :
    Keeps PausedUntilUpgrade (UnitLifecycle.configure o fireHooks) := by
  cases fireHooks with
  | false => exact keeps_pure _ _
  | true =>
    unfold UnitLifecycle.configure
    refine keeps_bind _ _ _ (keeps_get _) ?_
    intro x
    refine keeps_bind _ _ _ (assertThat_keeps_paused _ _) ?_
    intro _
    exact call_keeps_paused o .configChanged

theorem install_keeps_paused (fireHooks : Bool) :
    Keeps PausedUntilUpgrade (UnitLifecycle.install o fireHooks) := by
  cases fireHooks with
  | false => exact keeps_pure _ _
  | true => exact call_keeps_paused o .install

theorem unitAction_keeps_paused (t : UnitTransition) (method : UnitM Unit)
    (h : unitAction o t = some method) : Keeps PausedUntilUpgrade method := by
  have hretry : ∀ fireHooks, Keeps PausedUntilUpgrade
      (UnitLifecycle.start o false true >>= fun _ => UnitLifecycle.configure o fireHooks) :=
    fun fireHooks => keeps_bind _ _ _ (lifecycle_start_keeps_paused o false true)
      (fun _ => configure_keeps_paused o fireHooks)
  cases t <;> cases h <;>
    first
    | exact install_keeps_paused o _
    | exact lifecycle_start_keeps_paused o _ _
    | exact lifecycle_stop_keeps_paused o _
    | exact configure_keeps_paused o _
    | exact upgradeCharm_keeps_paused o _ _
    | exact hretry _

theorem invokeLifecycle_leaves (method : UnitM Unit) (x : UnitAgentParts) :
    (invokeLifecycle method x).1 = leaves (method x) := by
  unfold invokeLifecycle
  cases method x with
  | ok a x' => rfl
  | error e x' => cases e <;> rfl

theorem runAction_keeps_paused (t : UnitTransition) (x : UnitAgentParts)
    (hx : PausedUntilUpgrade x) : PausedUntilUpgrade (runAction (unitActions o) t x).1 := by
  cases h : unitAction o t with
  | none => simpa only [runAction, unitActions, h, Option.map_none] using hx
  | some method =>
    rw [runAction_invoke o t x method h, invokeLifecycle_leaves]
    exact unitAction_keeps_paused o t method h x hx

/-- Synchronizing with the executor stopped leaves it so until an upgrade is done. -/
theorem synchronize_keeps_paused (m : UnitWorkflowState) (h : PausedUntilUpgrade m.context) :
    PausedUntilUpgrade (synchronize unitWorkflow (unitActions o) unitFuel m).1.context := by
  unfold synchronize
  split
  · exact fireTransition_context _ _ _ _ _ _ _ (runAction_keeps_paused o) h
  · apply fireAutomatic_context _ _ _ _ _ h
    intro t m' hm'
    exact fireTransition_context _ _ _ _ _ _ _ (runAction_keeps_paused o) hm'

end paused

section recovery

variable (o : Outcomes) (d : UnitDict)

/-- The executor and the lifecycle of a new process once the preconditions are met. -/
def met (d : UnitDict) : UnitAgentParts :=
  ⟨(preconditions d).1, (preconditions d).2, [], if (preconditions d).1 then [.started] else []⟩

theorem meetPreconditions_met (executor lifecycle : Bool)
    (h : lifecycle = true → o.found.Startable executor false) :
    meetPreconditions o executor lifecycle ⟨false, false, [], []⟩ =
      .ok () ⟨executor, lifecycle, [], if executor then [.started] else []⟩ := by
  cases lifecycle with
  | false =>
    cases executor <;> simp [meetPreconditions, HookExecutor.start, record]
  | true =>
    have hstart := relationsStart_run o ⟨executor, false, [], if executor then [.started] else []⟩
      false (h rfl) fun hrestarts => absurd hrestarts Bool.false_ne_true
    cases executor <;>
      simpa [meetPreconditions, HookExecutor.start, record, start_quiet] using hstart

theorem meetPreconditions_faults (executor : Bool) (h : ¬ o.found.Startable executor false) :
    Faults (meetPreconditions o executor true ⟨false, false, [], []⟩) := by
  have hstart := relationsStart_faults o ⟨executor, false, [], if executor then [.started] else []⟩
    false h fun hrestarts => absurd hrestarts Bool.false_ne_true
  cases executor <;>
    simpa [meetPreconditions, HookExecutor.start, record, start_quiet] using hstart

/-- Relations that are in the way of the first `start` keep a process from its synchronization. -/
theorem synchronizeUnit_notReturned (hlife : (preconditions d).2 = true)
    (h : ¬ o.found.Startable (preconditions d).1 false) :
    NotReturned (synchronizeUnit o (restarted d)).2 := by
  have hfaults := meetPreconditions_faults o (preconditions d).1 h
  rw [← hlife] at hfaults
  unfold synchronizeUnit
  rcases invoke_faults _ _ hfaults with ⟨x, hinvoke⟩ | ⟨x, hinvoke⟩
  · simp only [restarted, hinvoke]
    intro success hreturned
    cases hreturned
  · simp only [restarted, hinvoke]
    intro success hreturned
    cases hreturned

theorem synchronizeUnit_met
    (h : (preconditions d).2 = true → o.found.Startable (preconditions d).1 false) :
    synchronizeUnit o (restarted d) =
      synchronize unitWorkflow (unitActions o) unitFuel ⟨d, [], met d⟩ := by
  have hmeet := meetPreconditions_met o (preconditions d).1 (preconditions d).2 h
  unfold synchronizeUnit invokeLifecycle
  simp only [restarted, hmeet]
  rfl

theorem synchronize_due (m : UnitWorkflowState) :
    synchronize unitWorkflow (unitActions o) unitFuel m =
      match dueTransition m.stored with
      | some t => fireWith o unitFuel t m
      | none => (m, .returned true) := by
  obtain ⟨⟨state, vars, transitionId⟩, history, context⟩ := m
  cases transitionId with
  | some t => rfl
  | none => cases state with
    | none => rfl
    | some s => cases s <;> rfl

theorem dueTransition_source (hd : LeftStored d) (t : UnitTransition)
    (ht : dueTransition d = some t) : d.state = (unitTransition t).source := by
  cases hi : d.transitionId with
  | some t' =>
    simp only [dueTransition, hi, Option.some.injEq] at ht
    rw [← ht]
    exact leftStored_source d hd t' hi
  | none => cases hs : d.state with
    | none =>
      simp only [dueTransition, hi, hs, Option.some.injEq] at ht
      rw [← ht]
      rfl
    | some s =>
      cases s <;> simp only [dueTransition, hi, hs, Option.some.injEq] at ht <;>
        first | (rw [← ht]; rfl) | cases ht

theorem due_idle (hi : d.transitionId = none) (t : UnitTransition)
    (ht : dueTransition d = some t) : t = .install ∨ t = .start := by
  cases hs : d.state with
  | none =>
    simp only [dueTransition, hi, hs, Option.some.injEq] at ht
    exact Or.inl ht.symm
  | some s =>
    right
    cases s <;> simp only [dueTransition, hi, hs, Option.some.injEq] at ht <;>
      first | exact ht.symm | cases ht

theorem synchronize_settlesIff (hd : LeftStored d)
    (hafter : ∀ t, dueTransition d = some t → findsRelations o t → o.found.Startable true true) :
    SettlesIff (synchronize unitWorkflow (unitActions o) unitFuel ⟨d, [], met d⟩)
      (∀ t, d.transitionId = some t → keepsInStep o (some t) t) := by
  rw [synchronize_due]
  cases hdue : dueTransition d with
  | none =>
    cases hi : d.transitionId with
    | some t => simp [dueTransition, hi] at hdue
    | none =>
      have hidle : Settled ((⟨d, [], met d⟩, .returned true) : UnitWorkflowState × UnitFireResult) :=
        (settlesIff_returned ⟨d, [], met d⟩ true hi rfl).settled (preconditions_rest d hi)
      refine ⟨fun _ => hidle, ?_⟩
      intro _ _ t ht
      cases ht
  | some t =>
    have hs := dueTransition_source d hd t hdue
    cases hi : d.transitionId with
    | none =>
      have hflags : (met d).flags = preconditions ⟨(unitTransition t).source, ∅, none⟩ := by
        rw [← hs]
        exact preconditions_rest d hi
      have hkeeps : keepsInStep o none t := by
        rcases due_idle d hi t hdue with rfl | rfl <;> trivial
      have hiff := fireWith_settlesIff o ⟨d, [], met d⟩ t none hs (Or.inl rfl) hflags rfl
        (hafter t hdue)
      refine ⟨fun _ => hiff.settled hkeeps, ?_⟩
      intro _ _ t' ht'
      cases ht'
    | some t' =>
      have htt : t' = t := by simpa only [dueTransition, hi, Option.some.injEq] using hdue
      subst htt
      have hflags : (met d).flags = preconditions ⟨(unitTransition t').source, ∅, some t'⟩ := by
        rw [← hs, ← hi]
        rfl
      have hiff := fireWith_settlesIff o ⟨d, [], met d⟩ t' (some t') hs (Or.inr rfl) hflags rfl
        (hafter t' hdue)
      constructor
      · intro hkeeps
        exact hiff.settled (hkeeps t' rfl)
      · intro hf hraised t₁ ht₁
        cases ht₁
        exact hiff.needed hf hraised

/-- Nor do relations that are in the way of a later one let it return. -/
theorem synchronize_notReturned (t : UnitTransition) (hs : d.state = (unitTransition t).source)
    (hdue : dueTransition d = some t) (hfinds : findsRelations o t)
    (h : ¬ o.found.Startable true true) :
    NotReturned (synchronize unitWorkflow (unitActions o) unitFuel ⟨d, [], met d⟩).2 := by
  have hrunning : (met d).executorRunning = true := by
    show (preconditions d).1 = true
    obtain ⟨state, vars, transitionId⟩ := d
    cases hs
    cases t <;> first | rfl | exact hfinds.elim
  rw [synchronize_due]
  simp only [hdue]
  exact fireWith_notReturned o t ⟨d, [], met d⟩ hrunning h hs hfinds

/-- A process that returns from its synchronization has had no relations in its way. -/
theorem returned_startable (success : Bool)
    (hreturned : (synchronizeUnit o (restarted d)).2 = .returned success) :
    ((preconditions d).2 = true → o.found.Startable (preconditions d).1 false) ∧
      ∀ t, d.state = (unitTransition t).source → dueTransition d = some t → findsRelations o t →
        o.found.Startable true true := by
  have hbefore : (preconditions d).2 = true → o.found.Startable (preconditions d).1 false := by
    intro hlife
    by_contra hnot
    exact synchronizeUnit_notReturned o d hlife hnot success hreturned
  refine ⟨hbefore, fun t hs hdue hfinds => ?_⟩
  rw [synchronizeUnit_met o d hbefore] at hreturned
  by_contra hnot
  exact synchronize_notReturned o d t hs hdue hfinds hnot success hreturned

/-- What interrupts an upgrade leaves the executor stopped, but for a failure being recorded. -/
theorem midUpgrade_paused (hkeeps : ∀ t, d.transitionId = some t → keepsInStep o (some t) t)
    (hmid : midUpgrade d) : preconditions d = (false, true) := by
  obtain ⟨s, vars, t⟩ := d
  rcases hmid with hs | ⟨hs, ht | ht⟩
  · cases hs
    rfl
  · cases hs
    cases ht
    rfl
  · exact (hkeeps _ ht).elim

/-- After a crash at any point, a new process recovers well if and only if it can: not when it
finds in flight the error transition of a stop or of an upgrade, the retry of a stop, the error
transition of the retry of a configuration, or a stop whose hook then fails; nor when a relation
is in the way of `start`. -/
theorem recoversWell_iff (hd : LeftStored d) : RecoversWell o d ↔ CanRecover o d := by
  constructor
  · intro h
    obtain ⟨success, hreturned⟩ := h.returned
    obtain ⟨hbefore, hlater⟩ := returned_startable o d success hreturned
    have hafter (t : UnitTransition) (hdue : dueTransition d = some t)
        (hfinds : findsRelations o t) : o.found.Startable true true :=
      hlater t (dueTransition_source d hd t hdue) hdue hfinds
    have hflags := h.flags
    rw [synchronizeUnit_met o d hbefore] at hflags hreturned
    have hiff := synchronize_settlesIff o d hd hafter
    exact ⟨hiff.needed hflags (Or.inr ⟨success, hreturned⟩), hbefore, hafter⟩
  · rintro ⟨hkeeps, hbefore, hafter⟩
    have hsettled := (synchronize_settlesIff o d hd hafter).settled hkeeps
    have hmet := synchronizeUnit_met o d hbefore
    refine ⟨?_, ?_, ?_, ?_⟩
    · rw [hmet]
      exact hsettled.returned
    · rw [hmet]
      exact hsettled.notInflight
    · rw [hmet]
      exact hsettled.inStep.flags
    · intro hmid
      have hpaused := midUpgrade_paused o d hkeeps hmid
      have hstart : PausedUntilUpgrade (met d) := by
        unfold met
        rw [hpaused]
        exact ⟨trivial, fun h => nomatch h⟩
      rw [hmet]
      exact (synchronize_keeps_paused o ⟨d, [], met d⟩ hstart).upgradeFirst

end recovery

/-- The extraction of a new charm fails. -/
def extractionFails : Outcomes := { allWell with extracted := false }

def stopFails : Outcomes := { allWell with hook := fun name => name ≠ .stop }

theorem leftStored_upgradeCharm : LeftStored ⟨some .started, ∅, some .upgradeCharm⟩ :=
  .died _ _ allWell [(.upgradeFlag false false, extractionFails)] .nothing
    (.tail _ (.tail _ (.head _)))

theorem recoversWell_iff_upgradeCharm :
    RecoversWell extractionFails ⟨some .started, ∅, some .upgradeCharm⟩ := by
  apply (recoversWell_iff extractionFails _ leftStored_upgradeCharm).mpr
  refine ⟨fun t ht => ?_, fun _ => nothing_startable false false, fun t _ _ =>
    nothing_startable true true⟩
  cases ht
  exact Or.inl rfl

/-- A relation whose hook failed just before, with a change that the scheduler has still to
run. -/
def erringRelation : FoundRelation where
  listed := true
  notified := true
  state := some .up
  inflight := some .error
  joins := true
  hasRole := true
  hookDue := true
  resolved := false
  recorded := by
    intro t ht
    cases ht
    rfl
  notified_listed := id
  role_listed := id

def findsErring : Outcomes := { allWell with found := ⟨[erringRelation], [], false⟩ }

/-- A process that dies while it records the failure of an upgrade leaves one that starts the
executor before any upgrade; one that dies while it retries a stop leaves one that raises
"Already Stopped"; and one that dies in an upgrade leaves one in which the hook of a relation
waits for the executor, and the error transition of the relation waits for the hook. -/
theorem crashes_not_recovered :
    (LeftStored ⟨some .started, ∅, some .upgradeCharmError⟩ ∧
      ¬ RecoversWell allWell ⟨some .started, ∅, some .upgradeCharmError⟩) ∧
    (LeftStored ⟨some .stopError, ∅, some .retryStop⟩ ∧
      ¬ RecoversWell allWell ⟨some .stopError, ∅, some .retryStop⟩) ∧
    LeftStored ⟨some .started, ∅, some .upgradeCharm⟩ ∧
      ¬ RecoversWell findsErring ⟨some .started, ∅, some .upgradeCharm⟩ := by
  refine ⟨⟨?_, ?_⟩, ⟨?_, ?_⟩, leftStored_upgradeCharm, ?_⟩
  · exact .died _ _ allWell [(.upgradeFlag false false, extractionFails)] .nothing
      (.tail _ (.head _))
  · intro h
    exact absurd h.flags (by decide)
  · exact .died _ _ allWell [(.fireTransition .stop, stopFails), (.resolved false, allWell)]
      .nothing (.tail _ (.head _))
  · intro h
    obtain ⟨success, hreturned⟩ := h.returned
    exact absurd hreturned (by cases success <;> decide)
  · intro h
    obtain ⟨success, hreturned⟩ := h.returned
    have hblocked : (synchronizeUnit findsErring
        (restarted ⟨some .started, ∅, some .upgradeCharm⟩)).2 = .blocked := by decide
    rw [hblocked] at hreturned
    cases hreturned

end Juju.Unit

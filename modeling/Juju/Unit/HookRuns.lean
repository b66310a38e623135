import Juju.Unit.HookHistory
import Mathlib.Data.List.Infix

namespace Juju.Unit
open Juju.Base Juju.Lib

abbrev UnitMoment := Moment UnitState UnitTransition String UnitAgentParts

section moments

variable (o : Outcomes) (m : UnitWorkflowState)

/-- A moment in which nothing is stored and no action runs. -/
def restMoment : UnitMoment := ⟨m.stored, m.context, m.context⟩

def fireUnitMoments (t : UnitTransition) : List UnitMoment :=
  fireMoments unitWorkflow (unitActions o.loaded) unitFuel t ∅ m

/-- The moments of an operation. A forced upgrade stores nothing and runs no hook. -/
def operationMoments : AgentOperation → List UnitMoment
  | .fireTransition t => fireUnitMoments o m t
  | .resolved retryHooks =>
    if m.stored.state = some .started then []
    else
      let alias_ := if retryHooks then .retryHook else .retry
      fireAliasMoments unitWorkflow (unitActions o.loaded) unitFuel alias_ m
  | .upgradeFlag latest _ =>
    if latest then []
    else if m.stored.state ≠ some .started then []
    else fireUnitMoments o m .upgradeCharm
  | .configChanged =>
    if m.stored.state ≠ some .started then [] else fireUnitMoments o m .configure

/-- The moments of `UnitWorkflowState.synchronize`. -/
def synchronizeUnitMoments : List UnitMoment :=
  let (runExecutor, runLifecycle) := preconditions m.stored
  match invokeLifecycle (meetPreconditions o runExecutor runLifecycle) m.context with
  | (x, .done _) =>
    synchronizeMoments unitWorkflow (unitActions o) unitFuel { m with context := x }
  | _ => []

def runMoments : UnitWorkflowState → List (AgentOperation × Outcomes) → List UnitMoment
  | m, [] => [restMoment m]
  | m, (operation, o) :: rest =>
    restMoment m :: (operationMoments o m operation ++ runMoments (operate o m operation) rest)

/-- The moments of the life of one agent process. -/
def sessionMoments (d : UnitDict) (run : List (AgentOperation × Outcomes)) : List UnitMoment :=
  restMoment (restarted d) :: (synchronizeUnitMoments o (restarted d) ++
    runMoments (synchronizeUnit o (restarted d)).1 (carriedOut d o run))

end moments

/-- Error transitions are fired by what has failed, not by an operation. -/
def Requested : AgentOperation → Prop
  | .fireTransition t => IsOwn t
  | _ => True

/-- What the agent processes of a unit have stored, and the hooks that they have run, when the last
of them has died. -/
inductive Lived : UnitDict → List HookName → Prop where
  | nothing : Lived ⟨none, ∅, none⟩ []
  | died (d : UnitDict) (before hooks : List HookName) (o : Outcomes)
      (run : List (AgentOperation × Outcomes)) (moment : UnitMoment) :
      Lived d before → (∀ step ∈ run, Requested step.1) → moment ∈ sessionMoments o d run →
      hooksOf moment.start <+: hooks → hooks <+: hooksOf moment.finish →
      Lived moment.stored (before ++ hooks)

section fitting

/-- The unit is in a phase that fits its state, and what is stored; its life before this process
led to `q₀`. -/
def AtRest (q₀ : HookPhase) (m : UnitWorkflowState) : Prop :=
  ∃ p, q₀.after (hooksOf m.context) = some p ∧ fits m.stored.state p = true ∧
    fitsStored m.stored p = true

/-- Wherever in a moment the process dies, the phase fits what is stored. -/
def MomentFits (q₀ : HookPhase) (moment : UnitMoment) : Prop :=
  ∀ hooks, hooksOf moment.start <+: hooks → hooks <+: hooksOf moment.finish →
    ∃ p, q₀.after hooks = some p ∧ fitsStored moment.stored p = true

/-- A transition is about to be fired, the first time or again. -/
structure Firing (q₀ : HookPhase) (t : UnitTransition) (m : UnitWorkflowState) : Prop where
  source : m.stored.state = (unitTransition t).source
  phase : ∃ p, q₀.after (hooksOf m.context) = some p ∧ fitsInflight t p = true ∧
    (t = .stop → p = .ending → m.context.flags = (true, true))

structure Fitting (q₀ : HookPhase) (moments : List UnitMoment) (m : UnitWorkflowState) : Prop where
  moments : ∀ moment ∈ moments, MomentFits q₀ moment
  rest : AtRest q₀ m

/-- The fuel that a transition and those that it fires itself need. -/
def fuelFor : UnitTransition → Nat
  | .install => 3
  | .retryInstall => 3
  | .retryInstallHook => 3
  | .errorInstall => 1
  | .errorStart => 1
  | .errorStop => 1
  | .upgradeCharmError => 1
  | .retryUpgradeCharmError => 1
  | .errorConfigure => 1
  | .errorRetryConfigure => 1
  | _ => 2

theorem fuelFor_error (t error : UnitTransition)
    (h : (unitTransition t).errorTransitionId = some error) :
    fuelFor error < fuelFor t ∧ (unitTransition error).source = (unitTransition t).source ∧
      error ≠ .stop := by
  cases t <;> cases h <;> decide

theorem fuelFor_automatic (t : UnitTransition) (h : (unitTransition t).destination = .installed) :
    fuelFor .start < fuelFor t := by
  cases t <;> first | decide | exact absurd h (by decide)

theorem stop_ends (o : Outcomes) (x : UnitAgentParts) (hx : x.flags = (true, true)) :
    endingOf (runAction (unitActions o) .stop x).2 ≠ .hangs := by
  obtain ⟨executorRunning, lifecycleRunning, asserted, events⟩ := x
  obtain ⟨rfl, rfl⟩ := Prod.mk.inj hx
  rw [runAction_invoke o .stop _ _ rfl]
  cases hook : o.hook .stop <;>
    simp [UnitLifecycle.stop, bind_run, assertThat_run, HookExecutor.call, record,
      invokeLifecycle, endingOf, hook]

theorem restMoment_fits (q₀ : HookPhase) (m : UnitWorkflowState) (p : HookPhase)
    (hp : q₀.after (hooksOf m.context) = some p) (hfits : fitsStored m.stored p = true) :
    MomentFits q₀ (restMoment m) := by
  intro hooks hstart hfinish
  obtain rfl : hooks = hooksOf m.context := hfinish.eq_of_length_le hstart.length_le
  exact ⟨p, hp, hfits⟩

/-- In the moment of an action its hooks may have run up to any of them. -/
theorem acting_fits (q₀ p : HookPhase) (o : Outcomes) (t : UnitTransition) (m : UnitWorkflowState)
    (hp : q₀.after (hooksOf m.context) = some p) (hfits : fitsInflight t p = true) :
    MomentFits q₀ ⟨(setInflight m (some t)).stored, m.context,
      (runAction (unitActions o) t m.context).1⟩ := by
  intro hooks hstart hfinish
  obtain ⟨own, hown, hran⟩ := action_hooks o m.context t
  obtain ⟨front, rfl⟩ := hstart
  simp only [hran] at hfinish
  have hfront : front ∈ own.inits :=
    (List.mem_inits _ _).mpr ((List.prefix_append_right_inj _).mp hfinish)
  obtain ⟨p', hp', hfits'⟩ :=
    (Option.any_eq_true _ _).mp (action_phases t _ p hfits own hown front hfront)
  refine ⟨p', ?_, hfits'⟩
  rw [after_append, hp]
  exact hp'

/-- Where an action hangs, the transition stays in flight and the unit in its state. -/
theorem hanging_fits (q₀ p : HookPhase) (t : UnitTransition) (m : UnitWorkflowState)
    (context : UnitAgentParts) (own : List HookName)
    (hs : m.stored.state = (unitTransition t).source)
    (hp : q₀.after (hooksOf m.context) = some p) (hfits : fitsInflight t p = true)
    (hstop : t = .stop → p ≠ .ending) (hown : own ∈ mayRun t .hangs)
    (hran : hooksOf context = hooksOf m.context ++ own)
    (hacting : MomentFits q₀ ⟨(setInflight m (some t)).stored, m.context, context⟩) :
    Fitting q₀ [⟨(setInflight m (some t)).stored, m.context, context⟩]
      { setInflight m (some t) with context := context } := by
  refine ⟨fun moment hmoment => ?_, ?_⟩
  · rw [List.mem_singleton.mp hmoment]
    exact hacting
  · obtain ⟨p', hp', hfits'⟩ :=
      (Option.any_eq_true _ _).mp (hangs_phase t p hfits hstop own hown)
    have hafter : q₀.after (hooksOf context) = some p' := by
      rw [hran, after_append, hp]
      exact hp'
    obtain ⟨q, hq, hstored⟩ := hacting (hooksOf context)
      (hran ▸ List.prefix_append _ _) (List.prefix_refl _)
    obtain rfl : q = p' := Option.some.inj (hq.symm.trans hafter)
    have hstate : (setInflight m (some t)).stored.state = (unitTransition t).source := hs
    rw [← hstate] at hfits'
    exact ⟨q, hafter, hfits', hstored⟩

theorem fitting_cons (q₀ : HookPhase) (moment : UnitMoment) (moments : List UnitMoment)
    (m : UnitWorkflowState) (hmoment : MomentFits q₀ moment) (h : Fitting q₀ moments m) :
    Fitting q₀ (moment :: moments) m :=
  ⟨List.forall_mem_cons.mpr ⟨hmoment, h.moments⟩, h.rest⟩

theorem atRest_idle (q₀ p : HookPhase) (m : UnitWorkflowState) (hi : m.stored.transitionId = none)
    (hp : q₀.after (hooksOf m.context) = some p) (hfits : fits m.stored.state p = true) :
    AtRest q₀ m := by
  refine ⟨p, hp, hfits, ?_⟩
  unfold fitsStored
  rw [hi]
  exact hfits

theorem atRest_fitting (q₀ : HookPhase) (m : UnitWorkflowState) (h : AtRest q₀ m) :
    Fitting q₀ [restMoment m] m := by
  obtain ⟨p, hp, hfits, hstored⟩ := h
  exact fitting_cons q₀ _ [] m (restMoment_fits q₀ m p hp hstored)
    ⟨by simp, p, hp, hfits, hstored⟩

/-- Only from state installed does a transition start by itself. -/
theorem automatic_fits (q₀ : HookPhase) (o : Outcomes) (fuel : Nat) (m : UnitWorkflowState)
    (s : UnitState) (hs : m.stored.state = some s) (hrest : AtRest q₀ m)
    (hstart : s = .installed → Fitting q₀
      (fireMoments unitWorkflow (unitActions o) fuel .start ∅ m)
      (fireTransition unitWorkflow (unitActions o) fuel .start ∅ m).1) :
    Fitting q₀
      (automaticMoments unitWorkflow
        (fun t => fireMoments unitWorkflow (unitActions o) fuel t ∅) m)
      (fireAutomatic unitWorkflow
        (fun t => fireTransition unitWorkflow (unitActions o) fuel t ∅) m).1 := by
  obtain ⟨available, hav, hauto⟩ := automatic_from s
  unfold automaticMoments fireAutomatic
  rw [hs]
  simp only [hav, hauto]
  by_cases hinstalled : s = .installed
  · rw [if_pos hinstalled]
    exact hstart hinstalled
  · rw [if_neg hinstalled]
    exact ⟨by simp, hrest⟩

theorem firing_start (q₀ : HookPhase) (m : UnitWorkflowState)
    (hs : m.stored.state = some .installed) (hrest : AtRest q₀ m) : Firing q₀ .start m := by
  obtain ⟨p, hp, hfits, -⟩ := hrest
  rw [hs] at hfits
  exact ⟨hs, p, hp, hfits, fun ht => absurd ht (by decide)⟩

/-- What a transition goes through fits, and so does what it leaves. -/
theorem fire_fits (q₀ : HookPhase) (o : Outcomes) (fuel : Nat) (t : UnitTransition)
    (m : UnitWorkflowState) (h : Firing q₀ t m) (hfuel : fuelFor t ≤ fuel) :
    Fitting q₀ (fireMoments unitWorkflow (unitActions o) fuel t ∅ m)
      (fireTransition unitWorkflow (unitActions o) fuel t ∅ m).1 := by
  induction fuel generalizing t m with
  | zero => cases t <;> exact absurd hfuel (by decide)
  | succ fuel ih =>
    obtain ⟨p, hp, hfits, hstop⟩ := h.phase
    have hcan := canFire_source m.stored t h.source
    have hmoments := fireMoments_canFire unitWorkflow (unitActions o) fuel ∅ m _ hcan
    have hfire := fireTransition_canFire unitWorkflow (unitActions o) fuel ∅ m _ hcan
    rw [unitTransition_id] at hmoments hfire
    have hacting := acting_fits q₀ p o t m hp hfits
    obtain ⟨own, hown, hran⟩ := action_hooks o m.context t
    have hends : t = .stop → p = .ending →
        endingOf (runAction (unitActions o) t m.context).2 ≠ .hangs := by
      rintro rfl hp
      exact stop_ends o m.context (hstop rfl hp)
    rw [hmoments, hfire]
    generalize runAction (unitActions o) t m.context = ran at hacting hown hran hends
    obtain ⟨context, result⟩ := ran
    cases result with
    | raised e =>
      exact hanging_fits q₀ p t m context own h.source hp hfits
        (fun ht hp => hends ht hp rfl) hown hran hacting
    | blocked =>
      exact hanging_fits q₀ p t m context own h.source hp hfits
        (fun ht hp => hends ht hp rfl) hown hran hacting
    | failed =>
      obtain ⟨p', hp', hfits'⟩ := (Option.any_eq_true _ _).mp (failed_phase t p hfits own hown)
      have hafter : q₀.after (hooksOf context) = some p' := by
        rw [hran, after_append, hp]
        exact hp'
      unfold fitsFailed at hfits'
      cases herror : (unitTransition t).errorTransitionId with
      | none =>
        rw [herror] at hfits'
        refine fitting_cons q₀ _ _ _ hacting
          (atRest_fitting q₀ _ (atRest_idle q₀ p' _ rfl hafter ?_))
        have hstate : (setInflight m none).stored.state = (unitTransition t).source := h.source
        rw [← hstate] at hfits'
        exact hfits'
      | some error =>
        rw [herror] at hfits'
        obtain ⟨hless, hsource, hnotStop⟩ := fuelFor_error t error herror
        refine fitting_cons q₀ _ _ _ hacting (ih error _ ⟨h.source.trans hsource.symm, p', hafter,
          hfits', fun ht => absurd ht hnotStop⟩ (by omega))
    | done added =>
      obtain ⟨p', hp', hfits'⟩ := (Option.any_eq_true _ _).mp (done_phase t p hfits own hown)
      have hafter : q₀.after (hooksOf context) = some p' := by
        rw [hran, after_append, hp]
        exact hp'
      have hrest : AtRest q₀ (setState { setInflight m (some t) with context := context }
          (unitTransition t).destination (added.getD ∅ ∪ ∅)) :=
        atRest_idle q₀ p' _ rfl hafter hfits'
      obtain ⟨hdone, -⟩ := atRest_fitting q₀ _ hrest
      refine fitting_cons q₀ _ _ _ hacting ?_
      refine fitting_cons q₀ _ _ _ (hdone _ (List.mem_singleton_self _)) ?_
      refine automatic_fits q₀ o fuel _ _ rfl hrest fun hinstalled => ?_
      have hless := fuelFor_automatic t hinstalled
      exact ih .start _ (firing_start q₀ _ (congrArg some hinstalled) hrest) (by omega)

theorem atRest_firing (q₀ : HookPhase) (t : UnitTransition) (m : UnitWorkflowState)
    (hs : m.stored.state = (unitTransition t).source) (hown : IsOwn t) (hrest : AtRest q₀ m) :
    Firing q₀ t m := by
  obtain ⟨p, hp, hfits, -⟩ := hrest
  rw [hs] at hfits
  refine ⟨hs, p, hp, own_fitsInflight t p hown hfits, ?_⟩
  rintro rfl rfl
  exact absurd hfits (by decide)

theorem fuelFor_unitFuel (t : UnitTransition) : fuelFor t ≤ unitFuel := by
  cases t <;> decide

theorem fireUnit_fits (q₀ : HookPhase) (o : Outcomes) (t : UnitTransition) (m : UnitWorkflowState)
    (hown : IsOwn t) (hrest : AtRest q₀ m) :
    Fitting q₀ (fireUnitMoments o m t) (fireUnit o t m).1 := by
  by_cases hs : m.stored.state = (unitTransition t).source
  · exact fire_fits q₀ o.loaded unitFuel t m (atRest_firing q₀ t m hs hown hrest)
      (fuelFor_unitFuel t)
  · obtain ⟨available, hav, hiff⟩ := available_iff_source m.stored.state
    have hrefused : fireUnitMoments o m t = [] :=
      fireMoments_unavailable unitWorkflow (unitActions o.loaded) unitFuel ∅ m t available hav
        fun ht => hs ((hiff t).mp ht).symm
    rw [hrefused, fireUnit_refused o m t (Ne.symm hs)]
    exact ⟨by simp, hrest⟩

theorem resolved_fits (q₀ : HookPhase) (o : Outcomes) (a : UnitAlias) (m : UnitWorkflowState)
    (hrest : AtRest q₀ m) :
    Fitting q₀ (fireAliasMoments unitWorkflow (unitActions o.loaded) unitFuel a m)
      (fireTransitionAlias unitWorkflow (unitActions o.loaded) unitFuel a m).1 := by
  obtain ⟨available, hav, hnone | ⟨t, hone, hs, halias⟩⟩ := alias_transition m.stored.state a
  · unfold fireAliasMoments fireTransitionAlias
    simp only [hav, hnone]
    exact ⟨by simp, hrest⟩
  · have hown : IsOwn t := by
      constructor <;> rintro rfl <;> cases halias
    have hfits := fireUnit_fits q₀ o t m hown hrest
    unfold fireAliasMoments fireTransitionAlias
    simp only [hav, hone, unitTransition_id]
    exact hfits

/-- A forced upgrade runs no hook. -/
theorem forced_hooks (o : Outcomes) (x : UnitAgentParts) :
    hooksOf (leaves (UnitLifecycle.upgradeCharm o false true x)) = hooksOf x := by
  obtain ⟨hooks, hmay, hran⟩ := upgradeCharm_hooks o x false true
  obtain rfl : hooks = [] := by simpa using hmay
  rw [invokeLifecycle_leaves] at hran
  simpa using hran

theorem operate_fits (q₀ : HookPhase) (o : Outcomes) (m : UnitWorkflowState)
    (operation : AgentOperation) (hrequested : Requested operation) (hrest : AtRest q₀ m) :
    Fitting q₀ (operationMoments o m operation) (operate o m operation) := by
  have hidle : Fitting q₀ [] m := ⟨by simp, hrest⟩
  cases operation with
  | fireTransition t => exact fireUnit_fits q₀ o t m hrequested hrest
  | resolved retryHooks =>
    simp only [operationMoments, operate, cbWatchResolved]
    split
    · exact hidle
    · exact resolved_fits q₀ o _ m hrest
  | upgradeFlag latest force =>
    simp only [operationMoments, operate, cbWatchUpgradeFlag]
    cases latest with
    | true => exact hidle
    | false =>
      by_cases hs : m.stored.state = some .started
      · simp only [hs, ne_eq, not_true_eq_false, if_false, Bool.false_eq_true]
        exact fireUnit_fits q₀ o .upgradeCharm m ⟨by decide, by decide⟩ hrest
      · simp only [hs, ne_eq, not_false_eq_true, if_true, if_false, Bool.false_eq_true]
        cases force with
        | false => exact hidle
        | true =>
          obtain ⟨p, hp, hfits⟩ := hrest
          exact ⟨by simp, p, (congrArg q₀.after (forced_hooks o m.context)).trans hp, hfits⟩
  | configChanged =>
    simp only [operationMoments, operate, cbWatchConfigChanged]
    split
    · exact hidle
    · exact fireUnit_fits q₀ o .configure m ⟨by decide, by decide⟩ hrest

end fitting

section sessions

variable (q₀ : HookPhase) (o : Outcomes) (d : UnitDict)

theorem met_hooks : hooksOf (met d) = [] := by
  cases hrun : (preconditions d).1 <;> simp [hooksOf, met, hooksAmong, hrun]

theorem met_after : q₀.after (hooksOf (met d)) = some q₀ := by
  rw [met_hooks]
  rfl

/-- A new process fires what it finds in flight. -/
theorem recovered_firing (t : UnitTransition) (hi : d.transitionId = some t)
    (hs : d.state = (unitTransition t).source) (hfits : fitsStored d q₀ = true) :
    Firing q₀ t ⟨d, [], met d⟩ := by
  unfold fitsStored at hfits
  rw [hi] at hfits
  refine ⟨hs, q₀, met_after q₀ d, hfits, ?_⟩
  rintro rfl -
  have hflags : (met d).flags = preconditions d := rfl
  rw [hflags]
  unfold preconditions
  rw [hs, hi]
  rfl

theorem synchronize_fits (hfits : fitsStored d q₀ = true)
    (hsource : ∀ t, d.transitionId = some t → d.state = (unitTransition t).source) :
    Fitting q₀ (synchronizeMoments unitWorkflow (unitActions o) unitFuel ⟨d, [], met d⟩)
      (synchronize unitWorkflow (unitActions o) unitFuel ⟨d, [], met d⟩).1 := by
  unfold synchronizeMoments synchronize
  cases hi : d.transitionId with
  | some t =>
    have hfiring := recovered_firing q₀ d t hi (hsource t hi) hfits
    exact fire_fits q₀ o unitFuel t _ hfiring (fuelFor_unitFuel t)
  | none =>
    unfold fitsStored at hfits
    rw [hi] at hfits
    have hrest : AtRest q₀ (⟨d, [], met d⟩ : UnitWorkflowState) :=
      atRest_idle q₀ q₀ _ hi (met_after q₀ d) hfits
    dsimp only
    cases hs : d.state with
    | none =>
      have hav : Workflow.getTransitions unitWorkflow none =
          some [unitTransition .install, unitTransition .errorInstall] := rfl
      unfold automaticMoments fireAutomatic
      simp only [hs, hav]
      exact fire_fits q₀ o unitFuel .install _
        (atRest_firing q₀ .install _ hs ⟨by decide, by decide⟩ hrest) (fuelFor_unitFuel .install)
    | some s =>
      refine automatic_fits q₀ o unitFuel _ s hs hrest fun hinstalled => ?_
      have hfiring := firing_start q₀ _ (hs.trans (congrArg some hinstalled)) hrest
      exact fire_fits q₀ o unitFuel .start _ hfiring (fuelFor_unitFuel .start)

/-- The relations that are found before a synchronization run no hook of the unit. -/
theorem meetPreconditions_hooks (executor lifecycle : Bool) :
    hooksOf (leaves (meetPreconditions o executor lifecycle ⟨false, false, [], []⟩)) = [] := by
  cases lifecycle with
  | false =>
    cases executor <;> simp [meetPreconditions, HookExecutor.start, record, hooksOf, hooksAmong]
  | true =>
    have hstart : hooksOf (leaves (relationsStart o false
        ⟨executor, false, [], if executor then [.started] else []⟩)) = [] := by
      have hnone : hooksOf ⟨executor, false, [], if executor then [.started] else []⟩ = [] := by
        cases executor <;> rfl
      rw [← invokeLifecycle_leaves, (relationsStart_hooks o _ false).2, hnone]
    cases executor <;>
      simpa [meetPreconditions, HookExecutor.start, record, start_quiet] using hstart

/-- A process that does not meet the preconditions stays as it is; the others synchronize. -/
theorem synchronizeUnit_fits (hfits : fitsStored d q₀ = true)
    (hsource : ∀ t, d.transitionId = some t → d.state = (unitTransition t).source) :
    (∀ moment ∈ synchronizeUnitMoments o (restarted d), MomentFits q₀ moment) ∧
      MomentFits q₀ (restMoment (synchronizeUnit o (restarted d)).1) ∧
      ∀ success, (synchronizeUnit o (restarted d)).2 = .returned success →
        AtRest q₀ (synchronizeUnit o (restarted d)).1 := by
  by_cases hbefore : (preconditions d).2 = true → o.found.Startable (preconditions d).1 false
  · have hmoments : synchronizeUnitMoments o (restarted d) =
        synchronizeMoments unitWorkflow (unitActions o) unitFuel ⟨d, [], met d⟩ := by
      have hmeet := meetPreconditions_met o (preconditions d).1 (preconditions d).2 hbefore
      unfold synchronizeUnitMoments invokeLifecycle
      simp only [restarted, hmeet]
      rfl
    obtain ⟨hfit, hrest⟩ := synchronize_fits q₀ o d hfits hsource
    rw [hmoments, synchronizeUnit_met o d hbefore]
    exact ⟨hfit, (atRest_fitting q₀ _ hrest).moments _ (List.mem_singleton_self _),
      fun _ _ => hrest⟩
  · obtain ⟨hlife, hnot⟩ := Classical.not_imp.mp hbefore
    have hstays := synchronizeUnit_notReturned o d hlife hnot
    have hfaults := meetPreconditions_faults o (preconditions d).1 hnot
    rw [← hlife] at hfaults
    have hooks := meetPreconditions_hooks o (preconditions d).1 (preconditions d).2
    rw [← invokeLifecycle_leaves] at hooks
    have hunmet (x : UnitAgentParts) (hx : hooksOf x = []) :
        MomentFits q₀ (restMoment ⟨d, [], x⟩) :=
      restMoment_fits q₀ ⟨d, [], x⟩ q₀ (by rw [hx]; rfl) hfits
    refine ⟨?_, ?_, fun success hreturned => absurd hreturned (hstays success)⟩
    · unfold synchronizeUnitMoments
      rcases invoke_faults _ _ hfaults with ⟨x, hinvoke⟩ | ⟨x, hinvoke⟩ <;>
        simp [restarted, hinvoke]
    · unfold synchronizeUnit
      rcases invoke_faults _ _ hfaults with ⟨x, hinvoke⟩ | ⟨x, hinvoke⟩
      · rw [hinvoke] at hooks
        simp only [restarted, hinvoke]
        exact hunmet x hooks
      · rw [hinvoke] at hooks
        simp only [restarted, hinvoke]
        exact hunmet x hooks

theorem run_fits (m : UnitWorkflowState) (run : List (AgentOperation × Outcomes))
    (hrequested : ∀ step ∈ run, Requested step.1) (hrest : AtRest q₀ m) :
    ∀ moment ∈ runMoments m run, MomentFits q₀ moment := by
  induction run generalizing m with
  | nil => exact (atRest_fitting q₀ m hrest).moments
  | cons step rest ih =>
    obtain ⟨operation, o⟩ := step
    obtain ⟨hoperation, hrequested⟩ := List.forall_mem_cons.mp hrequested
    have hfits := operate_fits q₀ o m operation hoperation hrest
    intro moment hmoment
    rcases List.mem_cons.mp hmoment with hnow | hmoment
    · exact (atRest_fitting q₀ m hrest).moments moment (List.mem_singleton.mpr hnow)
    · rcases List.mem_append.mp hmoment with hmoment | hmoment
      · exact hfits.moments moment hmoment
      · exact ih _ hrequested hfits.rest moment hmoment

end sessions

section stored

theorem operate_storedAt (o : Outcomes) (m : UnitWorkflowState) (operation : AgentOperation) :
    StoredAt m (operationMoments o m operation) (operate o m operation) := by
  have hidle (x : UnitAgentParts) : StoredAt m [] { m with context := x } := by
    intro d
    simp
  have hfire (t : UnitTransition) : StoredAt m (fireUnitMoments o m t) (fireUnit o t m).1 :=
    leadsTo_storedAt _ _ _ (fire_leadsTo unitWorkflow (unitActions o.loaded) unitFuel t ∅ m)
  cases operation with
  | fireTransition t => exact hfire t
  | resolved retryHooks =>
    simp only [operationMoments, operate, cbWatchResolved]
    split
    · exact hidle m.context
    · exact leadsTo_storedAt _ _ _
        (fireAlias_leadsTo unitWorkflow (unitActions o.loaded) unitFuel _ m)
  | upgradeFlag latest force =>
    simp only [operationMoments, operate, cbWatchUpgradeFlag]
    cases latest with
    | true => exact hidle m.context
    | false =>
      by_cases hs : m.stored.state = some .started
      · simp only [hs, ne_eq, not_true_eq_false, if_false, Bool.false_eq_true]
        exact hfire .upgradeCharm
      · simp only [hs, ne_eq, not_false_eq_true, if_true, if_false, Bool.false_eq_true]
        cases force with
        | false => exact hidle m.context
        | true => exact hidle _
  | configChanged =>
    simp only [operationMoments, operate, cbWatchConfigChanged]
    split
    · exact hidle m.context
    · exact hfire .configure

theorem synchronizeUnit_storedAt (o : Outcomes) (m : UnitWorkflowState) :
    StoredAt m (synchronizeUnitMoments o m) (synchronizeUnit o m).1 := by
  have hidle (x : UnitAgentParts) : StoredAt m [] { m with context := x } := by
    intro d
    simp
  unfold synchronizeUnitMoments synchronizeUnit
  simp only
  generalize invokeLifecycle (meetPreconditions o (preconditions m.stored).1
    (preconditions m.stored).2) m.context = met
  obtain ⟨x, result⟩ := met
  cases result with
  | done vars =>
    exact leadsTo_storedAt { m with context := x } _ _
      (synchronize_leadsTo unitWorkflow (unitActions o) unitFuel _)
  | failed => exact hidle x
  | raised e => exact hidle x
  | blocked => exact hidle x

theorem restMoment_storedAt (m : UnitWorkflowState) : StoredAt m [restMoment m] m := by
  intro d
  constructor
  · exact Or.inl
  · rintro (hstored | ⟨moment, hmem, rfl⟩)
    · exact hstored
    · rw [List.mem_singleton.mp hmem]
      exact List.mem_cons_self

theorem runMoments_storedAt (m : UnitWorkflowState) (run : List (AgentOperation × Outcomes)) :
    StoredAt m (runMoments m run)
      (run.foldl (fun m step => operate step.2 m step.1) m) := by
  induction run generalizing m with
  | nil => exact restMoment_storedAt m
  | cons step rest ih =>
    obtain ⟨operation, o⟩ := step
    refine storedAt_append m m _ [restMoment m] _ (restMoment_storedAt m) ?_
    exact storedAt_append m _ _ _ _ (operate_storedAt o m operation) (ih _)

/-- What a process has stored, with what it found, is what is stored at its moments. -/
theorem session_storedAt (o : Outcomes) (d d' : UnitDict)
    (run : List (AgentOperation × Outcomes)) :
    d' ∈ (session d o run).stored :: (session d o run).history ↔
      ∃ moment ∈ sessionMoments o d run, moment.stored = d' := by
  have hstored : StoredAt (restarted d) (sessionMoments o d run) (session d o run) := by
    refine storedAt_append _ _ _ [restMoment (restarted d)] _ (restMoment_storedAt _) ?_
    exact storedAt_append _ _ _ _ _ (synchronizeUnit_storedAt o (restarted d))
      (runMoments_storedAt _ (carriedOut d o run))
  refine (hstored d').trans (or_iff_right_of_imp fun hfound => ?_)
  rw [List.mem_singleton.mp hfound]
  exact ⟨restMoment (restarted d), List.mem_cons_self, rfl⟩

end stored

/-- At the end of any number of processes the unit is in a phase that fits what is stored. -/
theorem lived_fits (d : UnitDict) (hooks : List HookName) (h : Lived d hooks) :
    LeftStored d ∧ ∃ p, HookPhase.unborn.after hooks = some p ∧ fitsStored d p = true := by
  induction h with
  | nothing => exact ⟨.nothing, .unborn, rfl, rfl⟩
  | died d before hooks o run moment _ hrequested hmoment hstart hfinish ih =>
    obtain ⟨hleft, q₀, hq₀, hfits⟩ := ih
    have hstored := (session_storedAt o d moment.stored run).mpr ⟨moment, hmoment, rfl⟩
    obtain ⟨hsynchronizes, hends, hreturns⟩ :=
      synchronizeUnit_fits q₀ o d hfits (leftStored_source d hleft)
    have hfirst : MomentFits q₀ (restMoment (restarted d)) :=
      restMoment_fits q₀ (restarted d) q₀ rfl hfits
    have hmomentFits : MomentFits q₀ moment := by
      rcases List.mem_cons.mp hmoment with rfl | hmoment
      · exact hfirst
      · rcases List.mem_append.mp hmoment with hmoment | hmoment
        · exact hsynchronizes moment hmoment
        · unfold carriedOut at hmoment
          split at hmoment
          · rename_i success hreturned
            exact run_fits q₀ _ run hrequested (hreturns success hreturned) moment hmoment
          · rw [List.mem_singleton.mp hmoment]
            exact hends
    obtain ⟨p, hp, hfits⟩ := hmomentFits hooks hstart hfinish
    refine ⟨.died d moment.stored o run hleft hstored, p, ?_, hfits⟩
    rw [after_append, hq₀]
    exact hp

/-- However often the agent of a unit dies and is started again, and wherever it dies, the hooks
that the unit runs come in the order of its life, in a phase that fits what is stored: nothing
runs before an install hook, and nothing but stop hooks after a stop hook. -/
theorem hooks_inOrder (d : UnitDict) (hooks : List HookName) (h : Lived d hooks) :
    (∃ installs attempts changes stops, InOrder hooks installs attempts changes stops) ∧
      ∃ p, HookPhase.unborn.after hooks = some p ∧ fitsStored d p = true := by
  obtain ⟨-, p, hp, hfits⟩ := lived_fits d hooks h
  exact ⟨after_inOrder p hp, p, hp, hfits⟩

/-- The first process dies after config-changed; the second starts the unit, and stops it. -/
theorem lived_stopped : Lived ⟨some .stopped, ∅, none⟩
    ([.install, .configChanged] ++ [.configChanged, .start, .stop]) := by
  have hfirst : Lived ⟨some .installed, ∅, some .start⟩ ([] ++ [.install, .configChanged]) :=
    .died ⟨none, ∅, none⟩ [] _ allWell []
      ⟨⟨some .installed, ∅, some .start⟩,
        ⟨true, false, [], [.hook .install false, .started]⟩,
        ⟨true, true, [], [.hook .start false, .hook .configChanged false, .hook .install false,
          .started]⟩⟩
      .nothing (by simp) (.tail _ (.tail _ (.tail _ (.head _)))) ⟨[.configChanged], rfl⟩
      ⟨[.start], rfl⟩
  refine .died _ _ _ allWell [(.fireTransition .stop, allWell)]
    (restMoment ⟨⟨some .stopped, ∅, none⟩, [], ⟨true, false, [],
      [.hook .stop false, .hook .start false, .hook .configChanged false, .started]⟩⟩)
    hfirst ?_ (.tail _ (.tail _ (.tail _ (.tail _ (.tail _ (.tail _ (.head _)))))))
    (List.prefix_refl _) (List.prefix_refl _)
  intro step hstep
  rw [List.mem_singleton.mp hstep]
  exact ⟨by decide, by decide⟩

theorem hooks_inOrder_stopped :
    ∃ installs attempts changes stops,
      InOrder [.install, .configChanged, .configChanged, .start, .stop] installs attempts changes
        stops :=
  (hooks_inOrder ⟨some .stopped, ∅, none⟩ _ lived_stopped).1

end Juju.Unit

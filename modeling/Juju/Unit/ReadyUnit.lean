import Juju.Unit.CrashRecovery

namespace Juju.Unit
open Juju.Base Juju.Lib

/-- What the callbacks of the agent count on when they find the unit in state `s`. -/
structure ReadyIn (s : Option UnitState) (x : UnitAgentParts) : Prop where
  executor : s ≠ some .charmUpgradeError → x.executorRunning = true
  lifecycle : s = some .started ∨ s = some .charmUpgradeError → x.lifecycleRunning = true

def Ready (m : UnitWorkflowState) : Prop := ReadyIn m.stored.state m.context

/-- A transition has returned with the unit ready for the next one. -/
structure ReturnsReady (r : UnitWorkflowState × UnitFireResult) : Prop where
  ready : Ready r.1
  returned : ∃ success, r.2 = .returned success

section rules

variable (o : Outcomes) (fuel : Nat) (t : UnitTransition) (m : UnitWorkflowState)
  (x : UnitAgentParts)

theorem returnsReady_into (m' : UnitWorkflowState) (r : UnitFireResult) (success : Bool)
    (h : ReturnsReady (m', r)) : ReturnsReady (m', r.into success) := by
  obtain ⟨hready, success', hreturned⟩ := h
  have hr : r = .returned success' := hreturned
  subst hr
  exact ⟨hready, success, rfl⟩

theorem done_ready (hs : m.stored.state = (unitTransition t).source)
    (hact : runAction (unitActions o) t m.context = (x, .done none))
    (hdest : (unitTransition t).destination ≠ .installed)
    (hx : ReadyIn (some (unitTransition t).destination) x) :
    ReturnsReady (fireWith o (fuel + 1) t m) := by
  rw [fireWith_done o fuel t m x hs hact hdest]
  exact ⟨hx, true, rfl⟩

/-- An install goes on to start. -/
theorem installed_ready (hs : m.stored.state = (unitTransition t).source)
    (hact : runAction (unitActions o) t m.context = (x, .done none))
    (hdest : (unitTransition t).destination = .installed)
    (hstart : ∀ m' : UnitWorkflowState, m'.stored.state = some .installed → m'.context = x →
      ReturnsReady (fireWith o fuel .start m')) :
    ReturnsReady (fireWith o (fuel + 1) t m) := by
  rw [fireWith_installed o fuel t m x hs hact hdest]
  apply returnsReady_into
  exact hstart _ rfl rfl

theorem failed_ready (e : UnitTransition) (hs : m.stored.state = (unitTransition t).source)
    (hact : runAction (unitActions o) t m.context = (x, .failed))
    (herr : (unitTransition t).errorTransitionId = some e)
    (herror : ∀ m' : UnitWorkflowState, m'.stored.state = (unitTransition t).source →
      m'.context = x → ReturnsReady (fireWith o fuel e m')) :
    ReturnsReady (fireWith o (fuel + 1) t m) := by
  rw [fireWith_failed o fuel t m x hs e hact herr]
  apply returnsReady_into
  exact herror _ hs rfl

theorem abandoned_ready (hs : m.stored.state = (unitTransition t).source)
    (hact : runAction (unitActions o) t m.context = (x, .failed))
    (herr : (unitTransition t).errorTransitionId = none)
    (hx : ReadyIn (unitTransition t).source x) : ReturnsReady (fireWith o (fuel + 1) t m) := by
  rw [fireWith_abandoned o fuel t m x hs hact herr]
  rw [← hs] at hx
  exact ⟨hx, false, rfl⟩

theorem plain_ready (hs : m.stored.state = (unitTransition t).source)
    (hplain : unitAction o t = none) (hdest : (unitTransition t).destination ≠ .installed)
    (hx : ReadyIn (some (unitTransition t).destination) m.context) :
    ReturnsReady (fireWith o (fuel + 1) t m) := by
  apply done_ready o fuel t m m.context hs _ hdest hx
  simp only [runAction, unitActions, hplain, Option.map_none]

/-- What a transition of these `fires` comes to when its action succeeds, or fails with `c`. -/
theorem fires_ready (method : UnitM Unit) (c : Prop) [Decidable c] (x₁ x₂ : UnitAgentParts)
    (hmethod : unitAction o t = some method)
    (hrun : method m.context = if c then .error .charm x₁ else .ok () x₂)
    (hfail : runAction (unitActions o) t m.context = (x₁, .failed) →
      ReturnsReady (fireWith o (fuel + 1) t m))
    (hdone : runAction (unitActions o) t m.context = (x₂, .done none) →
      ReturnsReady (fireWith o (fuel + 1) t m)) : ReturnsReady (fireWith o (fuel + 1) t m) := by
  have hact := runAction_invoke o t m.context method hmethod
  by_cases hc : c
  · rw [if_pos hc] at hrun
    exact hfail (hact.trans (invoke_charm method m.context x₁ hrun))
  · rw [if_neg hc] at hrun
    exact hdone (hact.trans (invoke_ok method m.context x₂ hrun))

end rules

section transitions

variable (o : Outcomes) (fuel : Nat) (m : UnitWorkflowState)

/-- In a state other than started and charm_upgrade_error only the executor counts. -/
theorem readyIn_idle (s : Option UnitState) (x : UnitAgentParts) (hstarted : s ≠ some .started)
    (herror : s ≠ some .charmUpgradeError) (h : x.executorRunning = true) : ReadyIn s x := by
  refine ⟨fun _ => h, fun hs => ?_⟩
  cases hs with
  | inl hs => exact absurd hs hstarted
  | inr hs => exact absurd hs herror

theorem readyIn_upgradeError (x : UnitAgentParts) (h : x.lifecycleRunning = true) :
    ReadyIn (some .charmUpgradeError) x :=
  ⟨fun hne => absurd rfl hne, fun _ => h⟩

theorem readyIn_started (x : UnitAgentParts) (hexec : x.executorRunning = true)
    (hlife : x.lifecycleRunning = true) : ReadyIn (some .started) x :=
  ⟨fun _ => hexec, fun _ => hlife⟩

/-- `start`, fired from `installed`, and its retries. -/
theorem start_ready (hs : m.stored.state = some .installed) (h : m.context.executorRunning = true)
    (hfound : o.hook .configChanged = true ∧ o.hook .start = true → o.found.Startable true true) :
    ReturnsReady (fireWith o (fuel + 2) .start m) := by
  obtain ⟨events, hrun⟩ := start_run o m.context true h fun hhooks => hfound (hhooks rfl)
  apply fires_ready o (fuel + 1) .start m _ _ _ _ rfl hrun
  · intro hact
    apply failed_ready o (fuel + 1) .start m _ .errorStart hs hact rfl
    intro m' hs' hm'
    apply plain_ready o fuel .errorStart m' hs' rfl (by decide)
    apply readyIn_idle _ _ (by decide) (by decide)
    rw [hm']
    exact h
  · intro hact
    exact done_ready o (fuel + 1) .start m _ hs hact (by decide) (readyIn_started _ h rfl)

theorem retryStart_ready (t : UnitTransition) (fireHooks : Bool)
    (ht : unitAction o t = some (UnitLifecycle.start o fireHooks true))
    (hsource : (unitTransition t).source = some .startError)
    (hdest : (unitTransition t).destination = .started)
    (herr : (unitTransition t).errorTransitionId = none)
    (hs : m.stored.state = (unitTransition t).source) (h : m.context.executorRunning = true)
    (hfound : (fireHooks = true → o.hook .configChanged = true ∧ o.hook .start = true) →
      o.found.Startable true true) : ReturnsReady (fireWith o (fuel + 1) t m) := by
  obtain ⟨events, hrun⟩ := start_run o m.context fireHooks h hfound
  apply fires_ready o fuel t m _ _ _ _ ht hrun
  · intro hact
    apply abandoned_ready o fuel t m _ hs hact herr
    rw [hsource]
    exact readyIn_idle _ _ (by decide) (by decide) h
  · intro hact
    apply done_ready o fuel t m _ hs hact (by rw [hdest]; decide)
    rw [hdest]
    exact readyIn_started _ h rfl

theorem install_ready (t : UnitTransition) (fireHooks : Bool)
    (ht : unitAction o t = some (UnitLifecycle.install o fireHooks))
    (hdest : (unitTransition t).destination = .installed)
    (hs : m.stored.state = (unitTransition t).source) (h : m.context.executorRunning = true)
    (hfail : ∀ x, x.executorRunning = true → runAction (unitActions o) t m.context = (x, .failed) →
      ReturnsReady (fireWith o (fuel + 3) t m))
    (hfound : (fireHooks = true → o.hook .install = true) →
      o.hook .configChanged = true ∧ o.hook .start = true → o.found.Startable true true) :
    ReturnsReady (fireWith o (fuel + 3) t m) := by
  obtain ⟨events, hrun⟩ := install_run o m.context fireHooks h
  by_cases hinstall : fireHooks = true → o.hook .install = true
  · apply fires_ready o (fuel + 2) t m _ _ _ _ ht hrun
    · exact hfail _ h
    · intro hact
      apply installed_ready o (fuel + 2) t m _ hs hact hdest
      intro m' hs' hm'
      exact start_ready o fuel m' hs' (by rw [hm']; exact h) (hfound hinstall)
  · rw [if_pos (Classical.not_imp.mp hinstall)] at hrun
    have hact := invoke_charm _ _ _ hrun
    rw [← runAction_invoke o t m.context _ ht] at hact
    refine hfail _ ?_ hact
    exact h

/-- The error transitions of `configure`. -/
theorem configureError_ready (t : UnitTransition)
    (ht : unitAction o t = some (UnitLifecycle.stop o false))
    (hdest : (unitTransition t).destination = .configureError)
    (hs : m.stored.state = (unitTransition t).source) (hexec : m.context.executorRunning = true)
    (hlife : m.context.lifecycleRunning = true) : ReturnsReady (fireWith o (fuel + 1) t m) := by
  obtain ⟨events, hrun⟩ := stop_run o m.context false hlife hexec
  rw [if_neg (by simp)] at hrun
  have hact := invoke_ok _ _ _ hrun
  rw [← runAction_invoke o t m.context _ ht] at hact
  apply done_ready o fuel t m _ hs hact (by rw [hdest]; decide)
  rw [hdest]
  exact readyIn_idle _ _ (by decide) (by decide) hexec

theorem configure_ready (hs : m.stored.state = some .started)
    (hexec : m.context.executorRunning = true) (hlife : m.context.lifecycleRunning = true) :
    ReturnsReady (fireWith o (fuel + 2) .configure m) := by
  obtain ⟨events, hrun⟩ := configure_run o m.context true hlife hexec
  apply fires_ready o (fuel + 1) .configure m _ _ _ _ rfl hrun
  · intro hact
    apply failed_ready o (fuel + 1) .configure m _ .errorConfigure hs hact rfl
    intro m' hs' hm'
    exact configureError_ready o fuel m' .errorConfigure rfl rfl hs' (by rw [hm']; exact hexec)
      (by rw [hm']; exact hlife)
  · intro hact
    exact done_ready o (fuel + 1) .configure m _ hs hact (by decide) (readyIn_started _ hexec hlife)

theorem retryConfigure_ready (t : UnitTransition) (fireHooks : Bool)
    (ht : unitAction o t =
      some (UnitLifecycle.start o false true >>= fun _ => UnitLifecycle.configure o fireHooks))
    (hdest : (unitTransition t).destination = .started)
    (hsource : (unitTransition t).source = some .configureError)
    (herr : (unitTransition t).errorTransitionId = some .errorRetryConfigure)
    (hs : m.stored.state = (unitTransition t).source) (h : m.context.executorRunning = true)
    (hfound : o.found.Startable true true) : ReturnsReady (fireWith o (fuel + 2) t m) := by
  obtain ⟨events, hrun⟩ := retryConfigure_run o m.context fireHooks h hfound
  apply fires_ready o (fuel + 1) t m _ _ _ _ ht hrun
  · intro hact
    apply failed_ready o (fuel + 1) t m _ .errorRetryConfigure hs hact herr
    intro m' hs' hm'
    rw [hsource] at hs'
    exact configureError_ready o fuel m' .errorRetryConfigure rfl rfl hs' (by rw [hm']; exact h)
      (by rw [hm'])
  · intro hact
    apply done_ready o (fuel + 1) t m _ hs hact (by rw [hdest]; decide)
    rw [hdest]
    exact readyIn_started _ h rfl

/-- An upgrade that fails may leave the executor stopped, for which its error transition leads to
charm_upgrade_error. -/
theorem upgrade_ready (t e : UnitTransition) (fireHooks : Bool)
    (ht : unitAction o t = some (UnitLifecycle.upgradeCharm o fireHooks false))
    (hdest : (unitTransition t).destination = .started)
    (herr : (unitTransition t).errorTransitionId = some e) (hplain : unitAction o e = none)
    (hsource : (unitTransition e).source = (unitTransition t).source)
    (herror : (unitTransition e).destination = .charmUpgradeError)
    (hs : m.stored.state = (unitTransition t).source) (h : m.context.lifecycleRunning = true) :
    ReturnsReady (fireWith o (fuel + 2) t m) := by
  obtain ⟨added, -, -, hrun⟩ := upgradeCharm_run o m.context fireHooks false
  have hact := runAction_invoke o t m.context _ ht
  have hfails : ∀ x, x.lifecycleRunning = true →
      UnitLifecycle.upgradeCharm o fireHooks false m.context = .error .charm x →
      ReturnsReady (fireWith o (fuel + 2) t m) := by
    intro x hx hraises
    have hfailed := hact.trans (invoke_charm _ _ _ hraises)
    apply failed_ready o (fuel + 1) t m x e hs hfailed herr
    intro m' hs' hm'
    apply plain_ready o fuel e m' (hs'.trans hsource.symm) hplain (by rw [herror]; decide)
    rw [herror, hm']
    exact readyIn_upgradeError x hx
  by_cases hup : o.upgrades fireHooks false
  · rw [if_pos hup] at hrun
    have hdone := hact.trans (invoke_ok _ _ _ hrun)
    apply done_ready o (fuel + 1) t m _ hs hdone (by rw [hdest]; decide)
    rw [hdest]
    exact readyIn_started _ rfl h
  · rw [if_neg hup] at hrun
    by_cases hprep : o.prepared = .failed
    · rw [if_pos hprep] at hrun
      exact hfails _ h hrun
    · rw [if_neg hprep] at hrun
      refine hfails _ ?_ hrun
      exact h

theorem stop_ready (hs : m.stored.state = some .started) (hexec : m.context.executorRunning = true)
    (hlife : m.context.lifecycleRunning = true) :
    ReturnsReady (fireWith o (fuel + 2) .stop m) := by
  obtain ⟨events, hrun⟩ := stop_run o m.context true hlife hexec
  apply fires_ready o (fuel + 1) .stop m _ _ _ _ rfl hrun
  · intro hact
    apply failed_ready o (fuel + 1) .stop m _ .errorStop hs hact rfl
    intro m' hs' hm'
    apply plain_ready o fuel .errorStop m' hs' rfl (by decide)
    apply readyIn_idle _ _ (by decide) (by decide)
    rw [hm']
    exact hexec
  · intro hact
    apply done_ready o (fuel + 1) .stop m _ hs hact (by decide)
    exact readyIn_idle _ _ (by decide) (by decide) hexec

/-- A transition has left the unit ready, whether it returned or hit an assertion. -/
def LeavesReady (r : UnitWorkflowState × UnitFireResult) : Prop :=
  ReturnsReady r ∨ Ready r.1 ∧ ∃ a, r.2 = .raised a

/-- A stop in a state in which the lifecycle may have stopped before. -/
theorem idleStop_ready (t : UnitTransition) (fireHooks : Bool)
    (ht : unitAction o t = some (UnitLifecycle.stop o fireHooks))
    (herr : (unitTransition t).errorTransitionId = none)
    (hsource : (unitTransition t).source = some .stopError ∨
      (unitTransition t).source = some .configureError)
    (hdest : (unitTransition t).destination = .stopped ∨
      (unitTransition t).destination = .configureError)
    (hs : m.stored.state = (unitTransition t).source) (h : m.context.executorRunning = true) :
    LeavesReady (fireWith o (fuel + 1) t m) := by
  have hready : ∀ x, x.executorRunning = true → ReadyIn (unitTransition t).source x := by
    intro x hx
    cases hsource with
    | inl hsource => exact readyIn_idle _ x (by rw [hsource]; decide) (by rw [hsource]; decide) hx
    | inr hsource => exact readyIn_idle _ x (by rw [hsource]; decide) (by rw [hsource]; decide) hx
  cases hlife : m.context.lifecycleRunning with
  | false =>
    have hrun := stop_stopped o m.context fireHooks hlife
    have hact := invoke_assertion _ _ _ _ hrun
    rw [← runAction_invoke o t m.context _ ht] at hact
    rw [fireWith_raised o fuel t m _ hs _ hact]
    refine .inr ⟨?_, _, rfl⟩
    have hsame := hready { m.context with
      asserted := .lifecycleAlreadyStopped :: m.context.asserted } h
    rw [← hs] at hsame
    exact hsame
  | true =>
    obtain ⟨events, hrun⟩ := stop_run o m.context fireHooks hlife h
    apply Or.inl
    apply fires_ready o fuel t m _ _ _ _ ht hrun
    · intro hact
      exact abandoned_ready o fuel t m _ hs hact herr (hready _ h)
    · intro hact
      cases hdest with
      | inl hdest =>
        apply done_ready o fuel t m _ hs hact (by rw [hdest]; decide)
        rw [hdest]
        exact readyIn_idle _ _ (by decide) (by decide) h
      | inr hdest =>
        apply done_ready o fuel t m _ hs hact (by rw [hdest]; decide)
        rw [hdest]
        exact readyIn_idle _ _ (by decide) (by decide) h

/-- Each transition leaves a ready unit ready; only the retry of a stop, or a failure being
recorded, may hit an assertion. -/
theorem fireWith_ready (t : UnitTransition) (hs : m.stored.state = (unitTransition t).source)
    (h : Ready m) (hfound : findsRelations o t → o.found.Startable true true) :
    LeavesReady (fireWith o unitFuel t m) := by
  have hfuel : unitFuel = 4 := rfl
  have hexec : (unitTransition t).source ≠ some .charmUpgradeError →
      m.context.executorRunning = true := fun hne => h.executor (by rw [hs]; exact hne)
  have hlife : (unitTransition t).source = some .started ∨
      (unitTransition t).source = some .charmUpgradeError →
      m.context.lifecycleRunning = true := fun hsource => h.lifecycle (by rw [hs]; exact hsource)
  have hplain : ∀ s, (unitTransition t).destination = s → s ≠ .installed →
      unitAction o t = none → ReadyIn (some s) m.context → LeavesReady (fireWith o 4 t m) := by
    intro s hdest hinstalled hplain hready
    apply Or.inl
    apply plain_ready o 3 t m hs hplain (by rw [hdest]; exact hinstalled)
    rw [hdest]
    exact hready
  rw [hfuel]
  cases t with
  | install =>
    apply Or.inl
    apply install_ready o 1 m .install true rfl rfl hs (hexec (by decide))
    · intro x hx hact
      apply failed_ready o 3 .install m x .errorInstall hs hact rfl
      intro m' hs' hm'
      apply plain_ready o 2 .errorInstall m' hs' rfl (by decide)
      apply readyIn_idle _ _ (by decide) (by decide)
      rw [hm']
      exact hx
    · exact fun hinstall hhooks => hfound ⟨hinstall rfl, hhooks⟩
  | errorInstall =>
    exact hplain .installError rfl (by decide) rfl
      (readyIn_idle _ _ (by decide) (by decide) (hexec (by decide)))
  | retryInstall =>
    apply Or.inl
    apply install_ready o 1 m .retryInstall false rfl rfl hs (hexec (by decide))
    · intro x hx hact
      exact abandoned_ready o 3 .retryInstall m x hs hact rfl
        (readyIn_idle _ _ (by decide) (by decide) hx)
    · exact fun _ hhooks => hfound hhooks
  | retryInstallHook =>
    apply Or.inl
    apply install_ready o 1 m .retryInstallHook true rfl rfl hs (hexec (by decide))
    · intro x hx hact
      exact abandoned_ready o 3 .retryInstallHook m x hs hact rfl
        (readyIn_idle _ _ (by decide) (by decide) hx)
    · exact fun hinstall hhooks => hfound ⟨hinstall rfl, hhooks⟩
  | start => exact .inl (start_ready o 2 m hs (hexec (by decide)) hfound)
  | errorStart =>
    exact hplain .startError rfl (by decide) rfl
      (readyIn_idle _ _ (by decide) (by decide) (hexec (by decide)))
  | retryStart =>
    exact .inl (retryStart_ready o 3 m .retryStart false rfl rfl rfl rfl hs (hexec (by decide))
      fun _ => hfound trivial)
  | retryStartHook =>
    exact .inl (retryStart_ready o 3 m .retryStartHook true rfl rfl rfl rfl hs (hexec (by decide))
      fun hhooks => hfound (hhooks rfl))
  | stop => exact .inl (stop_ready o 2 m hs (hexec (by decide)) (hlife (.inl rfl)))
  | errorStop =>
    exact hplain .stopError rfl (by decide) rfl
      (readyIn_idle _ _ (by decide) (by decide) (hexec (by decide)))
  | retryStop =>
    exact idleStop_ready o 3 m .retryStop false rfl rfl (.inl rfl) (.inl rfl) hs
      (hexec (by decide))
  | retryStopHook =>
    exact idleStop_ready o 3 m .retryStopHook true rfl rfl (.inl rfl) (.inl rfl) hs
      (hexec (by decide))
  | upgradeCharm =>
    exact .inl (upgrade_ready o 2 m .upgradeCharm .upgradeCharmError true rfl rfl rfl rfl rfl rfl
      hs (hlife (.inl rfl)))
  | upgradeCharmError =>
    exact hplain .charmUpgradeError rfl (by decide) rfl
      (readyIn_upgradeError _ (hlife (.inl rfl)))
  | retryUpgradeCharmError =>
    exact hplain .charmUpgradeError rfl (by decide) rfl
      (readyIn_upgradeError _ (hlife (.inr rfl)))
  | retryUpgradeCharm =>
    exact .inl (upgrade_ready o 2 m .retryUpgradeCharm .retryUpgradeCharmError false rfl rfl rfl
      rfl rfl rfl hs (hlife (.inr rfl)))
  | retryUpgradeCharmHook =>
    exact .inl (upgrade_ready o 2 m .retryUpgradeCharmHook .retryUpgradeCharmError true rfl rfl
      rfl rfl rfl rfl hs (hlife (.inr rfl)))
  | configure =>
    exact .inl (configure_ready o 2 m hs (hexec (by decide)) (hlife (.inl rfl)))
  | errorConfigure =>
    exact .inl (configureError_ready o 3 m .errorConfigure rfl rfl hs (hexec (by decide))
      (hlife (.inl rfl)))
  | errorRetryConfigure =>
    exact idleStop_ready o 3 m .errorRetryConfigure false rfl rfl (.inr rfl) (.inr rfl) hs
      (hexec (by decide))
  | retryConfigure =>
    exact .inl (retryConfigure_ready o 2 m .retryConfigure false rfl rfl rfl rfl hs
      (hexec (by decide)) (hfound trivial))
  | retryConfigureHook =>
    exact .inl (retryConfigure_ready o 2 m .retryConfigureHook true rfl rfl rfl rfl hs
      (hexec (by decide)) (hfound trivial))

theorem fire_ready (t : UnitTransition) (hs : m.stored.state = (unitTransition t).source)
    (h : Ready m) : LeavesReady (fireUnit o t m) :=
  fireWith_ready o.loaded m t hs h fun _ => nothing_startable true true

end transitions

section synchronized

variable (o : Outcomes) (d : UnitDict)

/-- What the preconditions of a state make of a new process, but in the midst of an upgrade. -/
theorem met_ready (h : ¬ (d.state = some .started ∧ d.transitionId = some .upgradeCharm)) :
    ReadyIn d.state (met d) := by
  obtain ⟨state, vars, transitionId⟩ := d
  cases state with
  | none => exact readyIn_idle _ _ nofun nofun rfl
  | some s =>
    cases s with
    | started =>
      have hinflight : transitionId ≠ some .upgradeCharm := fun ht => h ⟨rfl, ht⟩
      have hpre : preconditions ⟨some .started, vars, transitionId⟩ = (true, true) :=
        if_neg hinflight
      apply readyIn_started
      · exact congrArg Prod.fst hpre
      · exact congrArg Prod.snd hpre
    | charmUpgradeError => exact readyIn_upgradeError _ rfl
    | installed => exact readyIn_idle _ _ nofun nofun rfl
    | installError => exact readyIn_idle _ _ nofun nofun rfl
    | startError => exact readyIn_idle _ _ nofun nofun rfl
    | stopped => exact readyIn_idle _ _ nofun nofun rfl
    | stopError => exact readyIn_idle _ _ nofun nofun rfl
    | configureError => exact readyIn_idle _ _ nofun nofun rfl

theorem fireWith_met_ready (t : UnitTransition)
    (hdue : d.transitionId = some t ∨ d.transitionId = none) (success : Bool)
    (hfound : (unitTransition t).source = d.state → findsRelations o t →
      o.found.Startable true true)
    (hreturned : (fireWith o unitFuel t ⟨d, [], met d⟩).2 = .returned success) :
    Ready (fireWith o unitFuel t ⟨d, [], met d⟩).1 := by
  by_cases hs : (unitTransition t).source = d.state
  · by_cases hupgrade : d.state = some .started ∧ d.transitionId = some .upgradeCharm
    · obtain ⟨hstarted, hi⟩ := hupgrade
      have ht : t = .upgradeCharm := by
        rcases hdue with hdue | hdue
        · rw [hi] at hdue
          exact (Option.some.inj hdue).symm
        · rw [hi] at hdue
          cases hdue
      subst ht
      have hlife : (met d).lifecycleRunning = true := by
        show (preconditions d).2 = true
        simp only [preconditions, hstarted, hi, if_true]
      exact (upgrade_ready o 2 ⟨d, [], met d⟩ .upgradeCharm .upgradeCharmError true rfl rfl rfl rfl
        rfl rfl hs.symm hlife).ready
    · cases fireWith_ready o ⟨d, [], met d⟩ t hs.symm (met_ready d hupgrade) (hfound hs) with
      | inl hdone => exact hdone.ready
      | inr hraised => exact hraised.1
  · obtain ⟨available, hav, hiff⟩ := available_iff_source d.state
    have hrefused := fireTransition_unavailable unitWorkflow (unitActions o) 3 ∅ ⟨d, [], met d⟩ t
      available hav (fun ht => hs ((hiff t).mp ht))
    rw [fireWith, unitFuel, hrefused] at hreturned
    cases hreturned

/-- An agent that has synchronized its unit, whatever was stored, finds it ready. -/
theorem synchronizeUnit_ready (success : Bool)
    (hreturned : (synchronizeUnit o (restarted d)).2 = .returned success) :
    Ready (synchronizeUnit o (restarted d)).1 := by
  obtain ⟨hbefore, hlater⟩ := returned_startable o d success hreturned
  rw [synchronizeUnit_met o d hbefore, synchronize_due] at hreturned ⊢
  cases hdue : dueTransition d with
  | some t =>
    simp only [hdue] at hreturned ⊢
    have hinflight : d.transitionId = some t ∨ d.transitionId = none := by
      cases hi : d.transitionId with
      | none => exact Or.inr rfl
      | some t' => exact Or.inl (by simpa only [dueTransition, hi] using hdue)
    exact fireWith_met_ready o d t hinflight success (fun hs => hlater t hs.symm hdue) hreturned
  | none =>
    apply met_ready d
    rintro ⟨-, hi⟩
    simp [dueTransition, hi] at hdue

end synchronized

end Juju.Unit

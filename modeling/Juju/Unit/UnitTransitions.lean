import Juju.Lib.StateMachineRules
import Juju.Unit.LifecycleRuns

namespace Juju.Unit
open Juju.Base Juju.Lib

section workflow

theorem unitTransition_id (t : UnitTransition) : (unitTransition t).transitionId = t := by
  cases t <;> rfl

theorem available_iff_source (s : Option UnitState) :
    ∃ available, Workflow.getTransitions unitWorkflow s = some available ∧
      ∀ t, t ∈ available.map Transition.transitionId ↔ (unitTransition t).source = s := by
  rcases s with _ | s
  · refine ⟨_, rfl, ?_⟩
    intro t
    cases t <;> decide
  · cases s <;>
    · refine ⟨_, rfl, ?_⟩
      intro t
      cases t <;> decide

theorem canFire_source (d : UnitDict) (t : UnitTransition)
    (hs : d.state = (unitTransition t).source) : CanFire unitWorkflow d (unitTransition t) := by
  obtain ⟨available, hav, hiff⟩ := available_iff_source d.state
  constructor
  · refine ⟨available, hav, ?_⟩
    rw [unitTransition_id]
    exact (hiff t).mpr hs.symm
  · cases t <;> rfl

/-- Only an install leads on to another transition. -/
theorem automatic_from (s : UnitState) :
    ∃ available, Workflow.getTransitions unitWorkflow (some s) = some available ∧
      available.find? Transition.automatic =
        if s = .installed then some (unitTransition .start) else none := by
  cases s <;> exact ⟨_, rfl, rfl⟩

/-- The flags of the hook executor and of the unit lifecycle. -/
def UnitAgentParts.flags (x : UnitAgentParts) : Bool × Bool :=
  (x.executorRunning, x.lifecycleRunning)

/-- What is prescribed in a state in which nothing is in flight. -/
def restFlags (s : Option UnitState) : Bool × Bool :=
  preconditions ⟨s, ∅, none⟩

theorem preconditions_rest (d : UnitDict) (h : d.transitionId = none) :
    preconditions d = restFlags d.state := by
  obtain ⟨s, vars, t⟩ := d
  cases h
  rfl

/-- The flags are as prescribed, and no assertion was hit. -/
structure InStep (m : UnitWorkflowState) : Prop where
  flags : m.context.flags = preconditions m.stored
  unasserted : m.context.asserted = []

/-- An operation has come to its end with the unit in step. -/
structure Settled (r : UnitWorkflowState × UnitFireResult) : Prop where
  returned : ∃ success, r.2 = .returned success
  notInflight : r.1.stored.transitionId = none
  inStep : InStep r.1

def NotRaised (r : UnitWorkflowState × UnitFireResult) : Prop :=
  r.1.context.asserted = [] ∨ ∃ success, r.2 = .returned success

/-- An operation settles under the condition `p`; otherwise it raises or leaves the flags
wrong. -/
structure SettlesIff (r : UnitWorkflowState × UnitFireResult) (p : Prop) : Prop where
  settled : p → Settled r
  needed : r.1.context.flags = preconditions r.1.stored → NotRaised r → p

theorem SettlesIff.of_inStep {r : UnitWorkflowState × UnitFireResult} {p : Prop}
    (h : SettlesIff r p) (hstep : InStep r.1) : p :=
  h.needed hstep.flags (Or.inl hstep.unasserted)

theorem settlesIff_returned (m : UnitWorkflowState) (success : Bool)
    (hi : m.stored.transitionId = none) (ha : m.context.asserted = []) :
    SettlesIff (m, .returned success) (m.context.flags = restFlags m.stored.state) := by
  have hpre := preconditions_rest m.stored hi
  constructor
  · intro h
    exact ⟨⟨success, rfl⟩, hi, h.trans hpre.symm, ha⟩
  · intro h _
    exact h.trans hpre

theorem settlesIff_into (m : UnitWorkflowState) (r : UnitFireResult) (success : Bool) (p : Prop)
    (h : SettlesIff (m, r) p) : SettlesIff (m, r.into success) p := by
  constructor
  · intro hp
    obtain ⟨⟨success', hreturned⟩, hinflight, hstep⟩ := h.settled hp
    cases hreturned
    exact ⟨⟨success, rfl⟩, hinflight, hstep⟩
  · intro hflags hraised
    apply h.needed hflags
    rcases hraised with hasserted | ⟨success', hreturned⟩
    · exact Or.inl hasserted
    · cases r with
      | returned b => exact Or.inr ⟨b, rfl⟩
      | _ => cases hreturned

variable (o : Outcomes) (fuel : Nat) (t : UnitTransition) (m : UnitWorkflowState)
  (x : UnitAgentParts)

/-- `fireUnit` with some fuel left. -/
abbrev fireWith : UnitWorkflowState × UnitFireResult :=
  fireTransition unitWorkflow (unitActions o) fuel t ∅ m

section runs

variable (hs : m.stored.state = (unitTransition t).source)
include hs

theorem fireWith_done (hact : runAction (unitActions o) t m.context = (x, .done none))
    (hdest : (unitTransition t).destination ≠ .installed) :
    fireWith o (fuel + 1) t m =
      (setState { setInflight m (some t) with context := x } (unitTransition t).destination (∅ ∪ ∅),
        .returned true) := by
  obtain ⟨available, hav, hauto⟩ := automatic_from (unitTransition t).destination
  rw [if_neg hdest] at hauto
  have hid := unitTransition_id t
  have hrun := fireTransition_done unitWorkflow (unitActions o) fuel ∅ m (unitTransition t)
    (canFire_source m.stored t hs) x none (by rw [hid]; exact hact) available hav hauto
  rw [hid] at hrun
  exact hrun

/-- An install goes on to start. -/
theorem fireWith_installed (hact : runAction (unitActions o) t m.context = (x, .done none))
    (hdest : (unitTransition t).destination = .installed) :
    fireWith o (fuel + 1) t m =
      ((fireWith o fuel .start
          (setState { setInflight m (some t) with context := x } .installed (∅ ∪ ∅))).1,
        (fireWith o fuel .start
          (setState { setInflight m (some t) with context := x } .installed (∅ ∪ ∅))).2.into
            true) := by
  obtain ⟨available, hav, hauto⟩ := automatic_from (unitTransition t).destination
  rw [if_pos hdest] at hauto
  have hid := unitTransition_id t
  have hrun := fireTransition_continues unitWorkflow (unitActions o) fuel ∅ m (unitTransition t)
    (canFire_source m.stored t hs) x none (by rw [hid]; exact hact) available _ hav hauto
  rw [hid, unitTransition_id, hdest] at hrun
  exact hrun

theorem fireWith_failed (e : UnitTransition)
    (hact : runAction (unitActions o) t m.context = (x, .failed))
    (herr : (unitTransition t).errorTransitionId = some e) :
    fireWith o (fuel + 1) t m =
      ((fireWith o fuel e { setInflight m (some t) with context := x }).1,
        (fireWith o fuel e { setInflight m (some t) with context := x }).2.into false) := by
  have hid := unitTransition_id t
  have hrun := fireTransition_failed unitWorkflow (unitActions o) fuel ∅ m (unitTransition t)
    (canFire_source m.stored t hs) x e (by rw [hid]; exact hact) herr
  rw [hid] at hrun
  exact hrun

theorem fireWith_abandoned (hact : runAction (unitActions o) t m.context = (x, .failed))
    (herr : (unitTransition t).errorTransitionId = none) :
    fireWith o (fuel + 1) t m =
      (setInflight { setInflight m (some t) with context := x } none, .returned false) := by
  have hid := unitTransition_id t
  have hrun := fireTransition_abandoned unitWorkflow (unitActions o) fuel ∅ m (unitTransition t)
    (canFire_source m.stored t hs) x (by rw [hid]; exact hact) herr
  rw [hid] at hrun
  exact hrun

theorem fireWith_raised (e : UnitException)
    (hact : runAction (unitActions o) t m.context = (x, .raised e)) :
    fireWith o (fuel + 1) t m =
      ({ setInflight m (some t) with context := x }, .raised e) := by
  have hid := unitTransition_id t
  have hrun := fireTransition_raised unitWorkflow (unitActions o) fuel ∅ m (unitTransition t)
    (canFire_source m.stored t hs) x e (by rw [hid]; exact hact)
  rw [hid] at hrun
  exact hrun

theorem fireWith_blocked (hact : runAction (unitActions o) t m.context = (x, .blocked)) :
    fireWith o (fuel + 1) t m = ({ setInflight m (some t) with context := x }, .blocked) := by
  have hid := unitTransition_id t
  have hrun := fireTransition_blocked unitWorkflow (unitActions o) fuel ∅ m (unitTransition t)
    (canFire_source m.stored t hs) x (by rw [hid]; exact hact)
  rw [hid] at hrun
  exact hrun

end runs

theorem done_settlesIff (hs : m.stored.state = (unitTransition t).source)
    (hact : runAction (unitActions o) t m.context = (x, .done none))
    (hdest : (unitTransition t).destination ≠ .installed) (ha : x.asserted = []) :
    SettlesIff (fireWith o (fuel + 1) t m)
      (x.flags = restFlags (some (unitTransition t).destination)) := by
  rw [fireWith_done o fuel t m x hs hact hdest]
  exact settlesIff_returned _ true rfl ha

theorem installed_settles (hs : m.stored.state = (unitTransition t).source)
    (hact : runAction (unitActions o) t m.context = (x, .done none))
    (hdest : (unitTransition t).destination = .installed)
    (hstart : Settled (fireWith o fuel .start
      (setState { setInflight m (some t) with context := x } .installed (∅ ∪ ∅)))) :
    Settled (fireWith o (fuel + 1) t m) := by
  rw [fireWith_installed o fuel t m x hs hact hdest]
  exact (settlesIff_into _ _ true True ⟨fun _ => hstart, fun _ _ => trivial⟩).settled trivial

theorem failed_settlesIff (e : UnitTransition) (p : Prop)
    (hs : m.stored.state = (unitTransition t).source)
    (hact : runAction (unitActions o) t m.context = (x, .failed))
    (herr : (unitTransition t).errorTransitionId = some e)
    (herror : SettlesIff (fireWith o fuel e { setInflight m (some t) with context := x }) p) :
    SettlesIff (fireWith o (fuel + 1) t m) p := by
  rw [fireWith_failed o fuel t m x hs e hact herr]
  exact settlesIff_into _ _ false p herror

theorem abandoned_settlesIff (hs : m.stored.state = (unitTransition t).source)
    (hact : runAction (unitActions o) t m.context = (x, .failed))
    (herr : (unitTransition t).errorTransitionId = none) (ha : x.asserted = []) :
    SettlesIff (fireWith o (fuel + 1) t m) (x.flags = restFlags m.stored.state) := by
  rw [fireWith_abandoned o fuel t m x hs hact herr]
  exact settlesIff_returned _ false rfl ha

theorem raised_outOfStep (e : UnitException) (hs : m.stored.state = (unitTransition t).source)
    (hact : runAction (unitActions o) t m.context = (x, .raised e)) (hx : x.asserted ≠ []) :
    SettlesIff (fireWith o (fuel + 1) t m) False := by
  rw [fireWith_raised o fuel t m x hs e hact]
  refine ⟨fun h => h.elim, ?_⟩
  rintro - (hasserted | ⟨success, hreturned⟩)
  · exact hx hasserted
  · cases hreturned

theorem runAction_invoke (method : UnitM Unit) (h : unitAction o t = some method) :
    runAction (unitActions o) t x = invokeLifecycle method x := by
  simp only [runAction, unitActions, h, Option.map_some]

/-- The action of a transition succeeds and leaves the flags `onDone`, or fails and leaves
`onFail`. -/
def Acts (onDone onFail : Bool × Bool) : Prop :=
  ∃ x', x'.asserted = x.asserted ∧
    (runAction (unitActions o) t x = (x', .done none) ∧ x'.flags = onDone ∨
      runAction (unitActions o) t x = (x', .failed) ∧ x'.flags = onFail)

theorem acts_of_run (method : UnitM Unit) (c : Prop) [Decidable c] (x₁ x₂ : UnitAgentParts)
    (onDone onFail : Bool × Bool) (hmethod : unitAction o t = some method)
    (hrun : method x = if c then .error .charm x₁ else .ok () x₂)
    (h₁ : x₁.asserted = x.asserted) (h₂ : x₂.asserted = x.asserted)
    (hfail : x₁.flags = onFail) (hdone : x₂.flags = onDone) : Acts o t x onDone onFail := by
  have hact := runAction_invoke o t x method hmethod
  by_cases hc : c
  · rw [if_pos hc] at hrun
    refine ⟨x₁, h₁, Or.inr ⟨?_, hfail⟩⟩
    rw [hact, invoke_charm method x x₁ hrun]
  · rw [if_neg hc] at hrun
    refine ⟨x₂, h₂, Or.inl ⟨?_, hdone⟩⟩
    rw [hact, invoke_ok method x x₂ hrun]

/-- What remains of a transition whose action failed settles. -/
def FailureSettles (onFail : Bool × Bool) : Prop :=
  match (unitTransition t).errorTransitionId with
  | none => onFail = restFlags (unitTransition t).source
  | some e => ∀ m : UnitWorkflowState, m.stored.state = (unitTransition t).source →
      m.context.flags = onFail → m.context.asserted = [] → Settled (fireWith o fuel e m)

theorem failure_settles (onFail : Bool × Bool) (hs : m.stored.state = (unitTransition t).source)
    (hact : runAction (unitActions o) t m.context = (x, .failed)) (hx : x.flags = onFail)
    (ha : x.asserted = []) (hfail : FailureSettles o fuel t onFail) :
    Settled (fireWith o (fuel + 1) t m) := by
  unfold FailureSettles at hfail
  cases herr : (unitTransition t).errorTransitionId with
  | none =>
    rw [herr] at hfail
    have hiff := abandoned_settlesIff o fuel t m x hs hact herr ha
    rw [hs] at hiff
    exact hiff.settled (hx.trans hfail)
  | some e =>
    rw [herr] at hfail
    have hsettled := hfail { setInflight m (some t) with context := x } hs hx ha
    have hiff := failed_settlesIff o fuel t m x e True hs hact herr
      ⟨fun _ => hsettled, fun _ _ => trivial⟩
    exact hiff.settled trivial

theorem settles (onDone onFail : Bool × Bool) (hs : m.stored.state = (unitTransition t).source)
    (ha : m.context.asserted = []) (hacts : Acts o t m.context onDone onFail)
    (hdest : (unitTransition t).destination ≠ .installed)
    (hdone : onDone = restFlags (some (unitTransition t).destination))
    (hfail : FailureSettles o fuel t onFail) : Settled (fireWith o (fuel + 1) t m) := by
  obtain ⟨x, hx, ⟨hact, hflags⟩ | ⟨hact, hflags⟩⟩ := hacts
  · have hiff := done_settlesIff o fuel t m x hs hact hdest (hx.trans ha)
    exact hiff.settled (hflags.trans hdone)
  · exact failure_settles o fuel t m x onFail hs hact hflags (hx.trans ha) hfail

theorem settles_installed (onFail : Bool × Bool)
    (hs : m.stored.state = (unitTransition t).source) (ha : m.context.asserted = [])
    (hacts : Acts o t m.context (true, false) onFail)
    (hdest : (unitTransition t).destination = .installed)
    (hstart : ∀ m : UnitWorkflowState, m.stored.state = some .installed →
      m.context.flags = (true, false) → m.context.asserted = [] →
      Settled (fireWith o fuel .start m))
    (hfail : FailureSettles o fuel t onFail) : Settled (fireWith o (fuel + 1) t m) := by
  obtain ⟨x, hx, ⟨hact, hflags⟩ | ⟨hact, hflags⟩⟩ := hacts
  · apply installed_settles o fuel t m x hs hact hdest
    exact hstart _ rfl hflags (hx.trans ha)
  · exact failure_settles o fuel t m x onFail hs hact hflags (hx.trans ha) hfail

end workflow

section transitions

variable (o : Outcomes) (fuel : Nat) (m : UnitWorkflowState) (x : UnitAgentParts)

/-- A transition without an action moves on with the flags as they are. -/
theorem plain_settlesIff (t : UnitTransition) (hs : m.stored.state = (unitTransition t).source)
    (hplain : unitAction o t = none) (hdest : (unitTransition t).destination ≠ .installed)
    (ha : m.context.asserted = []) :
    SettlesIff (fireWith o (fuel + 1) t m)
      (m.context.flags = restFlags (some (unitTransition t).destination)) := by
  apply done_settlesIff o fuel t m m.context hs _ hdest ha
  simp only [runAction, unitActions, hplain, Option.map_none]

theorem flags_executor (executor lifecycle : Bool) (h : x.flags = (executor, lifecycle)) :
    x.executorRunning = executor :=
  congrArg Prod.fst h

theorem flags_lifecycle (executor lifecycle : Bool) (h : x.flags = (executor, lifecycle)) :
    x.lifecycleRunning = lifecycle :=
  congrArg Prod.snd h

variable (t : UnitTransition) (fireHooks : Bool)

theorem install_acts (ht : unitAction o t = some (UnitLifecycle.install o fireHooks))
    (hf : x.flags = (true, false)) : Acts o t x (true, false) (true, false) := by
  have hexec := flags_executor x true false hf
  obtain ⟨events, hrun⟩ := install_run o x fireHooks hexec
  exact acts_of_run o t x _ _ _ _ _ _ ht hrun rfl rfl hf hf

theorem start_acts (ht : unitAction o t = some (UnitLifecycle.start o fireHooks true))
    (hf : x.flags = (true, false))
    (hfound : (fireHooks = true → o.hook .configChanged = true ∧ o.hook .start = true) →
      o.found.Startable true true) : Acts o t x (true, true) (true, false) := by
  have hexec := flags_executor x true false hf
  obtain ⟨events, hrun⟩ := start_run o x fireHooks hexec hfound
  have hdone : ({ x with events := events, lifecycleRunning := true } : UnitAgentParts).flags =
      (true, true) := by
    simp only [UnitAgentParts.flags, hexec]
  exact acts_of_run o t x _ _ _ _ _ _ ht hrun rfl rfl hf hdone

theorem configure_acts (ht : unitAction o t = some (UnitLifecycle.configure o fireHooks))
    (hf : x.flags = (true, true)) : Acts o t x (true, true) (true, true) := by
  have hexec := flags_executor x true true hf
  obtain ⟨events, hrun⟩ := configure_run o x fireHooks (flags_lifecycle x true true hf) hexec
  exact acts_of_run o t x _ _ _ _ _ _ ht hrun rfl rfl hf hf

theorem retryConfigure_run (hexec : x.executorRunning = true)
    (hfound : o.found.Startable true true) :
    ∃ events,
      (UnitLifecycle.start o false true >>= fun _ => UnitLifecycle.configure o fireHooks) x =
      if fireHooks ∧ ¬ o.hook .configChanged then
        .error .charm { x with events := events, lifecycleRunning := true }
      else .ok () { x with events := events, lifecycleRunning := true } := by
  obtain ⟨events, hstart⟩ := start_run o x false hexec fun _ => hfound
  rw [if_neg (by simp)] at hstart
  obtain ⟨events', hconfigure⟩ := configure_run o
    { x with events := events, lifecycleRunning := true } fireHooks rfl hexec
  refine ⟨events', ?_⟩
  rw [bind_run, hstart]
  exact hconfigure

theorem retryConfigure_acts
    (ht : unitAction o t =
      some (UnitLifecycle.start o false true >>= fun _ => UnitLifecycle.configure o fireHooks))
    (hf : x.flags = (true, false)) (hfound : o.found.Startable true true) :
    Acts o t x (true, true) (true, true) := by
  have hexec := flags_executor x true false hf
  obtain ⟨events, hrun⟩ := retryConfigure_run o x fireHooks hexec hfound
  have hdone : ({ x with events := events, lifecycleRunning := true } : UnitAgentParts).flags =
      (true, true) := by
    simp only [UnitAgentParts.flags, hexec]
  exact acts_of_run o t x _ _ _ _ _ _ ht hrun rfl rfl hdone hdone

/-- An upgrade that is prepared, or that finds the executor stopped. -/
theorem upgrade_acts (executor : Bool)
    (ht : unitAction o t = some (UnitLifecycle.upgradeCharm o fireHooks false))
    (hf : x.flags = (executor, true)) (hready : executor = false ∨ o.prepared ≠ .failed) :
    Acts o t x (true, true) (false, true) := by
  have hexec := flags_executor x executor true hf
  have hlife := flags_lifecycle x executor true hf
  obtain ⟨added, -, -, hrun⟩ := upgradeCharm_run o x fireHooks false
  have hstopped : ∀ events, ({ x with executorRunning := false, events := events } :
      UnitAgentParts).flags = (false, true) := by
    intro events
    simp only [UnitAgentParts.flags, hlife]
  have hstarted : ∀ events, ({ x with executorRunning := true, events := events } :
      UnitAgentParts).flags = (true, true) := by
    intro events
    simp only [UnitAgentParts.flags, hlife]
  rw [← ite_not] at hrun
  by_cases hprep : o.prepared = .failed
  · have hidle : executor = false := hready.resolve_right (not_not_intro hprep)
    rw [if_pos hprep] at hrun
    subst hidle
    exact acts_of_run o t x _ _ _ _ _ _ ht hrun rfl rfl hf (hstarted _)
  · rw [if_neg hprep] at hrun
    exact acts_of_run o t x _ _ _ _ _ _ ht hrun rfl rfl (hstopped _) (hstarted _)

end transitions

section settling

variable (o : Outcomes) (fuel : Nat) (m : UnitWorkflowState)

theorem start_settles (hs : m.stored.state = some .installed) (hf : m.context.flags = (true, false))
    (ha : m.context.asserted = [])
    (hfound : o.hook .configChanged = true ∧ o.hook .start = true → o.found.Startable true true) :
    Settled (fireWith o (fuel + 2) .start m) := by
  apply settles o (fuel + 1) .start m (true, true) (true, false) hs ha _ (by decide) rfl
  · intro m' hs' hf' ha'
    exact (plain_settlesIff o fuel m' .errorStart hs' rfl (by decide) ha').settled hf'
  · exact start_acts o m.context .start true rfl hf fun hhooks => hfound (hhooks rfl)

theorem install_settles (t : UnitTransition) (fireHooks : Bool)
    (ht : unitAction o t = some (UnitLifecycle.install o fireHooks))
    (hdest : (unitTransition t).destination = .installed)
    (hs : m.stored.state = (unitTransition t).source) (hf : m.context.flags = (true, false))
    (ha : m.context.asserted = []) (hfail : FailureSettles o (fuel + 2) t (true, false))
    (hfound : (fireHooks = true → o.hook .install = true) →
      o.hook .configChanged = true ∧ o.hook .start = true → o.found.Startable true true) :
    Settled (fireWith o (fuel + 3) t m) := by
  by_cases hinstall : fireHooks = true → o.hook .install = true
  · apply settles_installed o (fuel + 2) t m (true, false) hs ha _ hdest _ hfail
    · exact install_acts o m.context t fireHooks ht hf
    · intro m' hs' hf' ha'
      exact start_settles o fuel m' hs' hf' ha' (hfound hinstall)
  · obtain ⟨events, hrun⟩ := install_run o m.context fireHooks (flags_executor _ true false hf)
    rw [if_pos (Classical.not_imp.mp hinstall)] at hrun
    have hact := invoke_charm _ _ _ hrun
    rw [← runAction_invoke o t m.context _ ht] at hact
    exact failure_settles o (fuel + 2) t m _ (true, false) hs hact hf ha hfail

/-- The error transitions of `configure` stop the lifecycle without a hook. -/
theorem configureError_settles (t : UnitTransition)
    (ht : unitAction o t = some (UnitLifecycle.stop o false))
    (hdest : (unitTransition t).destination = .configureError)
    (hs : m.stored.state = (unitTransition t).source) (hf : m.context.flags = (true, true))
    (ha : m.context.asserted = []) : Settled (fireWith o (fuel + 1) t m) := by
  have hexec := flags_executor m.context true true hf
  have hlife := flags_lifecycle m.context true true hf
  obtain ⟨events, hrun⟩ := stop_run o m.context false hlife hexec
  rw [if_neg (by simp)] at hrun
  have hact := invoke_ok _ _ _ hrun
  rw [← runAction_invoke o t m.context _ ht] at hact
  have hiff := done_settlesIff o fuel t m _ hs hact (by rw [hdest]; decide) ha
  rw [hdest] at hiff
  apply hiff.settled
  simp only [UnitAgentParts.flags, hexec]
  rfl

theorem stop_settlesIff (hs : m.stored.state = some .started)
    (hf : m.context.flags = (true, true)) (ha : m.context.asserted = []) :
    SettlesIff (fireWith o (fuel + 2) .stop m) (o.hook .stop = true) := by
  have hexec := flags_executor m.context true true hf
  have hlife := flags_lifecycle m.context true true hf
  obtain ⟨events, hrun⟩ := stop_run o m.context true hlife hexec
  cases hook : o.hook .stop with
  | false =>
    rw [if_pos (by simp [hook])] at hrun
    have hact := invoke_charm _ _ _ hrun
    rw [← runAction_invoke o .stop m.context _ rfl] at hact
    have hiff := failed_settlesIff o (fuel + 1) .stop m _ .errorStop _ hs hact rfl
      (plain_settlesIff o fuel _ .errorStop hs rfl (by decide) ha)
    have hflags : m.context.flags ≠ (true, false) := by
      rw [hf]
      decide
    exact ⟨fun h => absurd h (by decide), fun h h' => absurd (hiff.needed h h') hflags⟩
  | true =>
    rw [if_neg (by simp [hook])] at hrun
    have hact := invoke_ok _ _ _ hrun
    rw [← runAction_invoke o .stop m.context _ rfl] at hact
    have hiff := done_settlesIff o (fuel + 1) .stop m _ hs hact (by decide) ha
    refine ⟨fun _ => hiff.settled ?_, fun _ _ => rfl⟩
    simp only [UnitAgentParts.flags, hexec]
    rfl

/-- A stop of a lifecycle that is not running hits its assertion. -/
theorem stopped_outOfStep (t : UnitTransition) (fireHooks : Bool)
    (ht : unitAction o t = some (UnitLifecycle.stop o fireHooks))
    (hs : m.stored.state = (unitTransition t).source) (hf : m.context.flags = (true, false)) :
    SettlesIff (fireWith o (fuel + 1) t m) False := by
  have hrun := stop_stopped o m.context fireHooks (flags_lifecycle m.context true false hf)
  have hact := invoke_assertion _ _ _ _ hrun
  rw [← runAction_invoke o t m.context _ ht] at hact
  exact raised_outOfStep o fuel t m _ _ hs hact (List.cons_ne_nil _ _)

theorem upgradeCharm_settlesIff (executor : Bool) (hs : m.stored.state = some .started)
    (hf : m.context.flags = (executor, true)) (ha : m.context.asserted = []) :
    SettlesIff (fireWith o (fuel + 2) .upgradeCharm m)
      (executor = false ∨ o.prepared ≠ .failed) := by
  constructor
  · intro hready
    apply settles o (fuel + 1) .upgradeCharm m (true, true) (false, true) hs ha _ (by decide) rfl
    · intro m' hs' hf' ha'
      exact (plain_settlesIff o fuel m' .upgradeCharmError hs' rfl (by decide) ha').settled hf'
    · exact upgrade_acts o m.context .upgradeCharm true executor rfl hf hready
  · intro h hraised
    by_contra hnot
    push Not at hnot
    have hexec : executor = true := by simpa using hnot.1
    obtain ⟨added, -, -, hrun⟩ := upgradeCharm_run o m.context true false
    rw [if_neg (fun hup => hup.1 hnot.2), if_pos hnot.2] at hrun
    have hact := invoke_charm _ _ _ hrun
    rw [← runAction_invoke o .upgradeCharm m.context _ rfl] at hact
    have hiff := failed_settlesIff o (fuel + 1) .upgradeCharm m _ .upgradeCharmError _ hs hact rfl
      (plain_settlesIff o fuel _ .upgradeCharmError hs rfl (by decide) ha)
    have hflags : m.context.flags = (false, true) := hiff.needed h hraised
    rw [hf, hexec] at hflags
    cases hflags

theorem retryUpgrade_settles (t : UnitTransition) (fireHooks : Bool)
    (ht : unitAction o t = some (UnitLifecycle.upgradeCharm o fireHooks false))
    (hdest : (unitTransition t).destination = .started)
    (hsource : (unitTransition t).source = some .charmUpgradeError)
    (herr : (unitTransition t).errorTransitionId = some .retryUpgradeCharmError)
    (hs : m.stored.state = (unitTransition t).source) (hf : m.context.flags = (false, true))
    (ha : m.context.asserted = []) : Settled (fireWith o (fuel + 2) t m) := by
  apply settles o (fuel + 1) t m (true, true) (false, true) hs ha _ (by rw [hdest]; decide)
    (by rw [hdest]; rfl)
  · unfold FailureSettles
    rw [herr, hsource]
    intro m' hs' hf' ha'
    exact (plain_settlesIff o fuel m' .retryUpgradeCharmError hs' rfl (by decide) ha').settled hf'
  · exact upgrade_acts o m.context t fireHooks false ht hf (Or.inl rfl)

theorem retryConfigure_settles (t : UnitTransition) (fireHooks : Bool)
    (ht : unitAction o t =
      some (UnitLifecycle.start o false true >>= fun _ => UnitLifecycle.configure o fireHooks))
    (hdest : (unitTransition t).destination = .started)
    (hsource : (unitTransition t).source = some .configureError)
    (herr : (unitTransition t).errorTransitionId = some .errorRetryConfigure)
    (hs : m.stored.state = (unitTransition t).source) (hf : m.context.flags = (true, false))
    (ha : m.context.asserted = []) (hfound : o.found.Startable true true) :
    Settled (fireWith o (fuel + 2) t m) := by
  apply settles o (fuel + 1) t m (true, true) (true, true) hs ha _ (by rw [hdest]; decide)
    (by rw [hdest]; rfl)
  · unfold FailureSettles
    rw [herr, hsource]
    intro m' hs' hf' ha'
    exact configureError_settles o fuel m' .errorRetryConfigure rfl rfl hs' hf' ha'
  · exact retryConfigure_acts o m.context t fireHooks ht hf hfound

/-- Whether a transition keeps the unit in step, given what was in flight when the flags were
set. -/
def keepsInStep (o : Outcomes) (inflight : Option UnitTransition) (t : UnitTransition) : Prop :=
  match t with
  | .stop => o.hook .stop = true
  | .errorStop | .retryStop | .retryStopHook | .upgradeCharmError | .errorRetryConfigure => False
  | .upgradeCharm => inflight = some .upgradeCharm ∨ o.prepared ≠ .failed
  | _ => True

/-- Whether a transition comes to the relations that `start` finds. -/
def findsRelations (o : Outcomes) (t : UnitTransition) : Prop :=
  match t with
  | .install | .retryInstallHook =>
    o.hook .install = true ∧ o.hook .configChanged = true ∧ o.hook .start = true
  | .retryInstall | .start | .retryStartHook =>
    o.hook .configChanged = true ∧ o.hook .start = true
  | .retryStart | .retryConfigure | .retryConfigureHook => True
  | _ => False

theorem fireWith_settlesIff (t : UnitTransition) (inflight : Option UnitTransition)
    (hs : m.stored.state = (unitTransition t).source)
    (hi : inflight = none ∨ inflight = some t)
    (hf : m.context.flags = preconditions ⟨(unitTransition t).source, ∅, inflight⟩)
    (ha : m.context.asserted = [])
    (hfound : findsRelations o t → o.found.Startable true true) :
    SettlesIff (fireWith o unitFuel t m) (keepsInStep o inflight t) := by
  have hfuel : unitFuel = 4 := rfl
  rw [hfuel]
  have hrest : ∀ flags, restFlags (unitTransition t).source = flags →
      (unitTransition t).source ≠ some .started → m.context.flags = flags := by
    intro flags hrest hsource
    rw [← hrest, hf]
    rcases hi with rfl | rfl
    · rfl
    · cases t <;> first | rfl | exact absurd rfl hsource
  have hstarted : (unitTransition t).source = some .started → t ≠ .upgradeCharm →
      m.context.flags = (true, true) := by
    intro hsource hnot
    rw [hf, hsource]
    rcases hi with rfl | rfl
    · rfl
    · simp [preconditions, hnot]
  have halways : ∀ r : UnitWorkflowState × UnitFireResult, Settled r → SettlesIff r True :=
    fun r h => ⟨fun _ => h, fun _ _ => trivial⟩
  cases t with
  | install =>
    apply halways
    apply install_settles o 1 m .install true rfl rfl hs (hrest _ rfl (by decide)) ha
    · intro m' hs' hf' ha'
      exact (plain_settlesIff o 2 m' .errorInstall hs' rfl (by decide) ha').settled hf'
    · exact fun hinstall hhooks => hfound ⟨hinstall rfl, hhooks⟩
  | errorInstall =>
    have hiff := plain_settlesIff o 3 m .errorInstall hs rfl (by decide) ha
    exact halways _ (hiff.settled (hrest _ rfl (by decide)))
  | retryInstall =>
    apply halways
    exact install_settles o 1 m .retryInstall false rfl rfl hs (hrest _ rfl (by decide)) ha rfl
      fun _ hhooks => hfound hhooks
  | retryInstallHook =>
    apply halways
    exact install_settles o 1 m .retryInstallHook true rfl rfl hs (hrest _ rfl (by decide)) ha rfl
      fun hinstall hhooks => hfound ⟨hinstall rfl, hhooks⟩
  | start => exact halways _ (start_settles o 2 m hs (hrest _ rfl (by decide)) ha hfound)
  | errorStart =>
    have hiff := plain_settlesIff o 3 m .errorStart hs rfl (by decide) ha
    exact halways _ (hiff.settled (hrest _ rfl (by decide)))
  | retryStart =>
    apply halways
    have hflags := hrest (true, false) rfl (by decide)
    exact settles o 3 .retryStart m _ _ hs ha
      (start_acts o m.context _ false rfl hflags fun _ => hfound trivial) (by decide) rfl rfl
  | retryStartHook =>
    apply halways
    have hflags := hrest (true, false) rfl (by decide)
    exact settles o 3 .retryStartHook m _ _ hs ha
      (start_acts o m.context _ true rfl hflags fun hhooks => hfound (hhooks rfl)) (by decide)
      rfl rfl
  | stop => exact stop_settlesIff o 2 m hs (hstarted rfl (by decide)) ha
  | errorStop =>
    have hiff := plain_settlesIff o 3 m .errorStop hs rfl (by decide) ha
    rw [hstarted rfl (by decide)] at hiff
    exact ⟨fun h => h.elim, fun h h' => absurd (hiff.needed h h') (by decide)⟩
  | retryStop => exact stopped_outOfStep o 3 m _ false rfl hs (hrest _ rfl (by decide))
  | retryStopHook => exact stopped_outOfStep o 3 m _ true rfl hs (hrest _ rfl (by decide))
  | upgradeCharm =>
    rcases hi with rfl | rfl
    · have hiff := upgradeCharm_settlesIff o 2 m true hs hf ha
      simpa [keepsInStep] using hiff
    · have hiff := upgradeCharm_settlesIff o 2 m false hs hf ha
      simpa [keepsInStep] using hiff
  | upgradeCharmError =>
    have hiff := plain_settlesIff o 3 m .upgradeCharmError hs rfl (by decide) ha
    rw [hstarted rfl (by decide)] at hiff
    exact ⟨fun h => h.elim, fun h h' => absurd (hiff.needed h h') (by decide)⟩
  | retryUpgradeCharmError =>
    have hiff := plain_settlesIff o 3 m .retryUpgradeCharmError hs rfl (by decide) ha
    exact halways _ (hiff.settled (hrest _ rfl (by decide)))
  | retryUpgradeCharm =>
    apply halways
    exact retryUpgrade_settles o 2 m _ false rfl rfl rfl rfl hs (hrest _ rfl (by decide)) ha
  | retryUpgradeCharmHook =>
    apply halways
    exact retryUpgrade_settles o 2 m _ true rfl rfl rfl rfl hs (hrest _ rfl (by decide)) ha
  | configure =>
    apply halways
    have hflags := hstarted rfl (by decide)
    apply settles o 3 .configure m _ _ hs ha (configure_acts o m.context _ true rfl hflags)
      (by decide) rfl
    intro m' hs' hf' ha'
    exact configureError_settles o 2 m' .errorConfigure rfl rfl hs' hf' ha'
  | errorConfigure =>
    apply halways
    exact configureError_settles o 3 m _ rfl rfl hs (hstarted rfl (by decide)) ha
  | errorRetryConfigure =>
    exact stopped_outOfStep o 3 m _ false rfl hs (hrest _ rfl (by decide))
  | retryConfigure =>
    apply halways
    exact retryConfigure_settles o 2 m _ false rfl rfl rfl rfl hs (hrest _ rfl (by decide)) ha
      (hfound trivial)
  | retryConfigureHook =>
    apply halways
    exact retryConfigure_settles o 2 m _ true rfl rfl rfl rfl hs (hrest _ rfl (by decide)) ha
      (hfound trivial)

/-- Once the agent has synchronized there is nothing to be found. -/
theorem fireUnit_settlesIff (t : UnitTransition) (inflight : Option UnitTransition)
    (hs : m.stored.state = (unitTransition t).source)
    (hi : inflight = none ∨ inflight = some t)
    (hf : m.context.flags = preconditions ⟨(unitTransition t).source, ∅, inflight⟩)
    (ha : m.context.asserted = []) :
    SettlesIff (fireUnit o t m) (keepsInStep o inflight t) :=
  fireWith_settlesIff o.loaded m t inflight hs hi hf ha fun _ => nothing_startable true true

end settling

section faulting

variable (o : Outcomes) (fuel : Nat) (t : UnitTransition) (m : UnitWorkflowState)

/-- An operation raises, or it never comes to its end. -/
def NotReturned (r : UnitFireResult) : Prop := ∀ success, r ≠ .returned success

theorem notReturned_into (r : UnitFireResult) (success : Bool) (h : NotReturned r) :
    NotReturned (r.into success) := by
  cases r with
  | returned b => exact absurd rfl (h b)
  | _ =>
    intro success' hreturned
    cases hreturned

theorem action_faults (method : UnitM Unit) (ht : unitAction o t = some method)
    (hs : m.stored.state = (unitTransition t).source) (h : Faults (method m.context)) :
    NotReturned (fireWith o (fuel + 1) t m).2 := by
  have hact := runAction_invoke o t m.context method ht
  rcases invoke_faults method m.context h with ⟨x, hinvoke⟩ | ⟨x, hinvoke⟩
  · rw [fireWith_raised o fuel t m x hs .stateError (hact.trans hinvoke)]
    intro success hreturned
    cases hreturned
  · rw [fireWith_blocked o fuel t m x hs (hact.trans hinvoke)]
    intro success hreturned
    cases hreturned

variable (hf : m.context.executorRunning = true) (hnot : ¬ o.found.Startable true true)
include hf hnot

theorem start_notReturned (fireHooks : Bool)
    (ht : unitAction o t = some (UnitLifecycle.start o fireHooks true))
    (hs : m.stored.state = (unitTransition t).source)
    (hhooks : fireHooks = true → o.hook .configChanged = true ∧ o.hook .start = true) :
    NotReturned (fireWith o (fuel + 1) t m).2 :=
  action_faults o fuel t m _ ht hs (start_faults o m.context fireHooks hf hhooks hnot)

theorem install_notReturned (fireHooks : Bool)
    (ht : unitAction o t = some (UnitLifecycle.install o fireHooks))
    (hdest : (unitTransition t).destination = .installed)
    (hs : m.stored.state = (unitTransition t).source)
    (hinstall : fireHooks = true → o.hook .install = true)
    (hhooks : o.hook .configChanged = true ∧ o.hook .start = true) :
    NotReturned (fireWith o (fuel + 2) t m).2 := by
  obtain ⟨events, hrun⟩ := install_run o m.context fireHooks hf
  rw [if_neg (by simpa using hinstall)] at hrun
  have hact := invoke_ok _ _ _ hrun
  rw [← runAction_invoke o t m.context _ ht] at hact
  rw [fireWith_installed o (fuel + 1) t m _ hs hact hdest]
  apply notReturned_into
  exact start_notReturned o fuel .start _ hf hnot true rfl rfl fun _ => hhooks

theorem retryConfigure_notReturned (fireHooks : Bool)
    (ht : unitAction o t =
      some (UnitLifecycle.start o false true >>= fun _ => UnitLifecycle.configure o fireHooks))
    (hs : m.stored.state = (unitTransition t).source) :
    NotReturned (fireWith o (fuel + 1) t m).2 := by
  apply action_faults o fuel t m _ ht hs
  obtain ⟨x, hstart | hstart⟩ := start_faults o m.context false hf
    (fun hfire => absurd hfire Bool.false_ne_true) hnot
  · exact ⟨x, Or.inl (by rw [bind_run, hstart])⟩
  · exact ⟨x, Or.inr (by rw [bind_run, hstart])⟩

/-- A transition that comes to relations that are in the way of `start` does not return. -/
theorem fireWith_notReturned (hs : m.stored.state = (unitTransition t).source)
    (hfinds : findsRelations o t) : NotReturned (fireWith o unitFuel t m).2 := by
  cases t with
  | install =>
    exact install_notReturned o 2 .install m hf hnot true rfl rfl hs (fun _ => hfinds.1) hfinds.2
  | retryInstall =>
    exact install_notReturned o 2 .retryInstall m hf hnot false rfl rfl hs
      (fun hfire => absurd hfire Bool.false_ne_true) hfinds
  | retryInstallHook =>
    exact install_notReturned o 2 .retryInstallHook m hf hnot true rfl rfl hs (fun _ => hfinds.1)
      hfinds.2
  | start => exact start_notReturned o 3 .start m hf hnot true rfl hs fun _ => hfinds
  | retryStart =>
    exact start_notReturned o 3 .retryStart m hf hnot false rfl hs
      fun hfire => absurd hfire Bool.false_ne_true
  | retryStartHook =>
    exact start_notReturned o 3 .retryStartHook m hf hnot true rfl hs fun _ => hfinds
  | retryConfigure => exact retryConfigure_notReturned o 3 .retryConfigure m hf hnot false rfl hs
  | retryConfigureHook =>
    exact retryConfigure_notReturned o 3 .retryConfigureHook m hf hnot true rfl hs
  | _ => exact hfinds.elim

end faulting

end Juju.Unit

import Mathlib.Logic.Relation
import Mathlib.Order.WellFoundedSet
import Juju.Lib.Recovery

namespace Juju.Lib
open Juju.Base

variable {S T A V X E : Type}

/-- Which actions have been run, and how each has ended. -/
abbrev ActionLog (T V E : Type) := List (T × ActionResult V E)

/-- The actions, each of which is written down when it is run. -/
def logged (actions : T → Option (X → X × ActionResult V E)) (t : T) :
    Option (X × ActionLog T V E → (X × ActionLog T V E) × ActionResult V E) :=
  some fun c =>
    let (context, result) := runAction actions t c.1
    ((context, c.2 ++ [(t, result)]), result)

def WorkflowState.withLog (m : WorkflowState S T V X) (log : ActionLog T V E) :
    WorkflowState S T V (X × ActionLog T V E) :=
  ⟨m.stored, m.history, (m.context, log)⟩

def ActionResult.Succeeded (r : ActionResult V E) : Prop := ∃ added, r = .done added

variable [DecidableEq S] [DecidableEq T]

/-- The transition that is fired after `t`: its error transition when its action has failed, and
else the automatic transition from its destination. -/
def Follows (w : Workflow S T A) (t : T) (next : T) : ActionResult V E → Prop
  | .failed => ∃ transition, Workflow.getTransition w t = some transition ∧
      transition.errorTransitionId = some next
  | .done _ => ∃ transition following, Workflow.getTransition w t = some transition ∧
      LeadsOn w transition.destination (some following) ∧ following.transitionId = next
  | _ => False

/-- What a transition that has returned leaves of `d`, when the actions of its chain ended as
in the log. -/
structure LeftClean (w : Workflow S T A) (transitionId : T) (vars : Dict String V)
    (d d' : StateDict S T V) (log : ActionLog T V E) : Prop where
  first : log.head?.map Prod.fst = some transitionId
  chain : log.IsChain fun e next => Follows w e.1 next.1 e.2
  clear : d'.transitionId = none
  declared : Workflow.hasState w d'.state = true
  /-- No action succeeded, and the last to fail had no error transition. -/
  unchanged : (∀ e ∈ log, ¬ e.2.Succeeded) → d'.state = d.state ∧
    d'.stateVariables = d.stateVariables ∧ ∃ e ∈ log.getLast?, ∃ transition,
      Workflow.getTransition w e.1 = some transition ∧ transition.errorTransitionId = none
  /-- The action of `t` was the last to succeed. -/
  changed : ∀ before t added after, log = before ++ (t, .done added) :: after →
    (∀ e ∈ after, ¬ e.2.Succeeded) → ∃ transition, Workflow.getTransition w t = some transition ∧
      d'.state = some transition.destination ∧
      d'.stateVariables = added.getD ∅ ∪ (if before = [] then vars else ∅)

section links

variable {w : Workflow S T A} {t : Transition S T A} {vars : Dict String V}
  {d d' : StateDict S T V} {log : ActionLog T V E}

theorem canFire_declared (hcan : CanFire w d t) : Workflow.hasState w d.state = true := by
  obtain ⟨available, hav, -⟩ := hcan.available
  unfold Workflow.getTransitions at hav
  split at hav
  · assumption
  · cases hav

theorem destination_declared (hcan : CanFire w d t) :
    Workflow.hasState w (some t.destination) = true := by
  have hin : t ∈ w := List.mem_reverse.mp (List.mem_of_find?_eq_some hcan.named)
  rw [Workflow.hasState, List.any_eq_true]
  exact ⟨t, hin, by simp⟩

theorem leftClean_abandoned (hcan : CanFire w d t) (herror : t.errorTransitionId = none) :
    LeftClean w t.transitionId vars d (d.inflight none)
      ([(t.transitionId, .failed)] : ActionLog T V E) := by
  have hdeclared := canFire_declared hcan
  refine ⟨rfl, .singleton _, rfl, hdeclared, fun _ => ⟨rfl, rfl, _, rfl, t, hcan.named,
    herror⟩, fun before t' added after hlog _ => ?_⟩
  have hin : (t', ActionResult.done added) ∈ [(t.transitionId, (.failed : ActionResult V E))] := by
    rw [hlog]
    simp
  simp at hin

theorem leftClean_done (hcan : CanFire w d t) (added : Option (Dict String V)) :
    LeftClean w t.transitionId vars d ⟨some t.destination, added.getD ∅ ∪ vars, none⟩
      ([(t.transitionId, .done added)] : ActionLog T V E) := by
  refine ⟨rfl, .singleton _, rfl, destination_declared hcan, fun hnone => ?_,
    fun before t' added' after hlog _ => ?_⟩
  · exact absurd ⟨added, rfl⟩ (hnone _ List.mem_cons_self)
  · cases before with
    | nil =>
      obtain ⟨heq, -⟩ := List.cons.inj hlog
      cases heq
      exact ⟨t, hcan.named, rfl, by simp⟩
    | cons e before => simp at hlog

/-- A chain that goes on from a link before it. -/
theorem leftClean_cons (next : T) (d₁ : StateDict S T V) (r : ActionResult V E)
    (hfollows : Follows w t.transitionId next r) (hrest : LeftClean w next ∅ d₁ d' log)
    (hfailed : ¬ r.Succeeded → d₁.state = d.state ∧ d₁.stateVariables = d.stateVariables)
    (hdone : ∀ added, r = .done added → Workflow.getTransition w t.transitionId = some t ∧
      d₁.state = some t.destination ∧ d₁.stateVariables = added.getD ∅ ∪ vars) :
    LeftClean w t.transitionId vars d d' ((t.transitionId, r) :: log) := by
  obtain ⟨e, hhead⟩ : ∃ e, log.head? = some e := by
    obtain ⟨e, he, -⟩ := Option.map_eq_some_iff.mp hrest.first
    exact ⟨e, he⟩
  have hnext : e.1 = next := by
    have hfirst := hrest.first
    rw [hhead] at hfirst
    exact Option.some.inj hfirst
  obtain ⟨rest, rfl⟩ := List.head?_eq_some_iff.mp hhead
  refine ⟨rfl, .cons_cons (hnext ▸ hfollows) hrest.chain, hrest.clear, hrest.declared,
    fun hnone => ?_, fun before t' added after hlog hafter => ?_⟩
  · obtain ⟨hnot, hnone⟩ := List.forall_mem_cons.mp hnone
    obtain ⟨hstate, hvars, last⟩ := hrest.unchanged hnone
    obtain ⟨hstate₁, hvars₁⟩ := hfailed hnot
    refine ⟨hstate.trans hstate₁, hvars.trans hvars₁, ?_⟩
    rwa [List.getLast?_cons_cons]
  · cases before with
    | nil =>
      obtain ⟨heq, hsame⟩ := List.cons.inj hlog
      obtain ⟨rfl, rfl⟩ := Prod.mk.inj heq
      rw [hsame] at hrest
      obtain ⟨hstate, hvars, -⟩ := hrest.unchanged hafter
      obtain ⟨hnamed, hstate₁, hvars₁⟩ := hdone added rfl
      exact ⟨t, hnamed, hstate.trans hstate₁, by rw [hvars, hvars₁, if_pos rfl]⟩
    | cons e' before =>
      obtain ⟨-, hlog⟩ := List.cons.inj hlog
      obtain ⟨transition, hnamed, hstate, hvars⟩ := hrest.changed before t' added after hlog hafter
      refine ⟨transition, hnamed, hstate, ?_⟩
      rw [hvars, ite_self, if_neg (List.cons_ne_nil _ _)]

end links

section returns

variable {w : Workflow S T A} {actions : T → Option (X → X × ActionResult V E)}

/-- A call that returns does the same with actions that are logged, and leaves a clean state. -/
theorem fireTransition_leftClean (fuel : Nat) (transitionId : T) (vars : Dict String V)
    (m m' : WorkflowState S T V X) (b : Bool)
    (h : fireTransition w actions fuel transitionId vars m = (m', .returned b))
    (log : ActionLog T V E) :
    ∃ added, fireTransition w (logged actions) fuel transitionId vars (m.withLog log) =
        (m'.withLog (log ++ added), .returned b) ∧
      LeftClean w transitionId vars m.stored m'.stored added := by
  induction fuel generalizing transitionId vars m m' b log with
  | zero => cases h
  | succ fuel ih =>
    have hcan : ∃ t, CanFire w m.stored t ∧ t.transitionId = transitionId := by
      unfold fireTransition at h
      split at h
      · cases h
      · rename_i available hav
        split at h
        · cases h
        · rename_i hin
          dsimp only at h
          split at h
          · cases h
          · rename_i t hnamed
            exact ⟨t, canFire_of m.stored transitionId available t hav (not_not.mp hin) hnamed⟩
    obtain ⟨t, hcan, rfl⟩ := hcan
    have hlogged (context : X) (result : ActionResult V E)
        (hrun : runAction actions t.transitionId m.context = (context, result)) :
        runAction (logged actions) t.transitionId (m.withLog log).context =
          ((context, log ++ [(t.transitionId, result)]), result) := by
      simp only [runAction, logged, WorkflowState.withLog] at hrun ⊢
      rw [hrun]
    rw [fireTransition_canFire w actions fuel vars m t hcan] at h
    rw [fireTransition_canFire w (logged actions) fuel vars (m.withLog log) t hcan]
    rcases hrun : runAction actions t.transitionId m.context with ⟨context, result⟩
    rw [hrun] at h
    rw [hlogged context result hrun]
    cases result with
    | raised e => cases h
    | blocked => cases h
    | failed =>
      dsimp only at h ⊢
      cases herror : t.errorTransitionId with
      | none =>
        rw [herror] at h
        obtain ⟨rfl, hb⟩ := Prod.mk.inj h
        cases hb
        exact ⟨_, rfl, leftClean_abandoned hcan herror⟩
      | some error =>
        rw [herror] at h
        obtain ⟨hm', hb⟩ := Prod.mk.inj h
        obtain ⟨⟨b', hinner⟩, rfl⟩ := into_returned _ _ _ hb
        obtain ⟨added, hfire, hclean⟩ := ih error ∅ _ m' b' (Prod.ext hm' hinner)
          (log ++ [(t.transitionId, .failed)])
        refine ⟨(t.transitionId, .failed) :: added, ?_,
          leftClean_cons error _ .failed ⟨t, hcan.named, herror⟩ hclean (fun _ => ⟨rfl, rfl⟩)
            fun _ hdone => by cases hdone⟩
        rw [List.append_cons log _ added]
        exact congrArg (fun r => (r.1, r.2.into false)) hfire
    | done added₀ =>
      dsimp only at h ⊢
      obtain ⟨hm', hb⟩ := Prod.mk.inj h
      obtain ⟨⟨b', hinner⟩, rfl⟩ := into_returned _ _ _ hb
      rcases fireAutomatic_returned _ t.destination _ m' b' rfl (Prod.ext hm' hinner) with
        ⟨hnone, rfl⟩ | ⟨next, hnext, hfire⟩
      · obtain ⟨available, hav, hauto⟩ := hnone
        refine ⟨_, ?_, leftClean_done hcan added₀⟩
        rw [fireAutomatic]
        simp only [setState, WorkflowState.store, hav, hauto]
        rfl
      · obtain ⟨added, hlog, hclean⟩ := ih next.transitionId ∅ _ m' b' hfire
          (log ++ [(t.transitionId, .done added₀)])
        refine ⟨(t.transitionId, .done added₀) :: added, ?_,
          leftClean_cons next.transitionId _ (.done added₀) ⟨t, next, hcan.named, hnext, rfl⟩ hclean
            (fun hnot => absurd ⟨added₀, rfl⟩ hnot) fun added' hdone => by
              cases hdone
              exact ⟨hcan.named, rfl, rfl⟩⟩
        obtain ⟨available, hav, hauto⟩ := hnext
        rw [fireAutomatic, List.append_cons log _ added]
        simp only [setState, WorkflowState.store, hav, hauto]
        exact congrArg (fun r => (r.1, r.2.into true)) hlog

end returns

section termination

variable (w : Workflow S T A)

/-- `next` may be fired after `t`, however the action of `t` ends. -/
def MayFollow (t next : T) : Prop := ∃ r : ActionResult Unit Empty, Follows w t next r

/-- No chain of error transitions and automatic transitions closes. -/
def ChainsEnd : Prop := ∀ t, ¬ Relation.TransGen (MayFollow w) t t

/-- An error transition starts where the transition does that it handles. -/
def ErrorsStartTogether : Prop :=
  ∀ t ∈ w, ∀ transition error, Workflow.getTransition w t.transitionId = some transition →
    transition.errorTransitionId = some error → ∃ e ∈ w, e.transitionId = error ∧ e.source = t.source

/-- Each action returns or raises `TransitionError`. -/
def ActionsEnd (actions : T → Option (X → X × ActionResult V E)) : Prop :=
  ∀ t x, (runAction actions t x).2 = .failed ∨ (runAction actions t x).2.Succeeded

def Available (s : Option S) (transitionId : T) : Prop :=
  ∃ available, Workflow.getTransitions w s = some available ∧
    transitionId ∈ available.map Transition.transitionId

variable {w}

omit [DecidableEq S] in
theorem getTransition_some (t : Transition S T A) (ht : t ∈ w) :
    ∃ transition, Workflow.getTransition w t.transitionId = some transition ∧
      transition.transitionId = t.transitionId := by
  have hsome : (Workflow.getTransition w t.transitionId).isSome := by
    rw [Workflow.getTransition, List.find?_isSome]
    exact ⟨t, List.mem_reverse.mpr ht, by simp⟩
  obtain ⟨transition, hnamed⟩ := Option.isSome_iff_exists.mp hsome
  exact ⟨transition, hnamed, by simpa using List.find?_some hnamed⟩

theorem available_iff (s : Option S) (transitionId : T) :
    Available w s transitionId ↔ ∃ t ∈ w, t.source = s ∧ t.transitionId = transitionId := by
  unfold Available Workflow.getTransitions
  constructor
  · rintro ⟨available, hav, hin⟩
    split at hav
    · obtain rfl := Option.some.inj hav
      obtain ⟨transition, hlisted, rfl⟩ := List.mem_map.mp hin
      obtain ⟨t, ht, hnamed⟩ := List.mem_filterMap.mp hlisted
      obtain ⟨ht, hsource⟩ := List.mem_filter.mp ht
      have hid : transition.transitionId = t.transitionId := by simpa using List.find?_some hnamed
      exact ⟨t, ht, by simpa using hsource, hid.symm⟩
    · cases hav
  · rintro ⟨t, ht, hsource, rfl⟩
    have hdeclared : Workflow.hasState w s = true := by
      rw [Workflow.hasState, List.any_eq_true]
      exact ⟨t, ht, by simp [hsource]⟩
    obtain ⟨transition, hnamed, hid⟩ := getTransition_some t ht
    rw [if_pos hdeclared]
    refine ⟨_, rfl, List.mem_map.mpr ⟨transition, List.mem_filterMap.mpr ⟨t, ?_, hnamed⟩, hid⟩⟩
    exact List.mem_filter.mpr ⟨ht, by simpa using hsource⟩

theorem canFire_available (d : StateDict S T V) (transitionId : T)
    (h : Available w d.state transitionId) : ∃ t, CanFire w d t ∧ t.transitionId = transitionId := by
  obtain ⟨available, hav, hin⟩ := h
  obtain ⟨t, ht, -, rfl⟩ := (available_iff d.state transitionId).mp ⟨available, hav, hin⟩
  obtain ⟨transition, hnamed, -⟩ := getTransition_some t ht
  exact ⟨transition, canFire_of d t.transitionId available transition hav hin hnamed⟩

/-- An automatic transition is available in the state that it leads on from. -/
theorem leadsOn_available (s : S) (next : Transition S T A) (h : LeadsOn w s (some next)) :
    Available w (some s) next.transitionId := by
  obtain ⟨available, hav, hauto⟩ := h
  exact ⟨available, hav, List.mem_map_of_mem (List.mem_of_find?_eq_some hauto)⟩

theorem mayFollow_wellFounded (h : ChainsEnd w) :
    {t | ∃ transition ∈ w, transition.transitionId = t}.WellFoundedOn
      fun next t => Relation.TransGen (MayFollow w) t next := by
  have horder : IsStrictOrder T fun next t => Relation.TransGen (MayFollow w) t next :=
    { irrefl := h, trans := fun _ _ _ hab hbc => hbc.trans hab }
  have hfinite : {t | ∃ transition ∈ w, transition.transitionId = t}.Finite := by
    have hlist := (w.map Transition.transitionId).finite_toSet
    refine hlist.subset ?_
    rintro t ⟨transition, hin, rfl⟩
    exact List.mem_map_of_mem hin
  exact hfinite.wellFoundedOn

/-- A transition that is available returns, whatever its actions do. -/
theorem fireTransition_returns {actions : T → Option (X → X × ActionResult V E)}
    (hends : ActionsEnd actions) (herrors : ErrorsStartTogether w) (hchains : ChainsEnd w)
    (transitionId : T) (vars : Dict String V) (m : WorkflowState S T V X)
    (h : Available w m.stored.state transitionId) :
    ∃ fuel m' b, fireTransition w actions fuel transitionId vars m = (m', .returned b) := by
  have hin (s : Option S) (t : T) (h : Available w s t) :
      t ∈ {t | ∃ transition ∈ w, transition.transitionId = t} := by
    obtain ⟨transition, ht, -, hid⟩ := (available_iff s t).mp h
    exact ⟨transition, ht, hid⟩
  have hdeclared := hin _ transitionId h
  revert vars m h
  refine (mayFollow_wellFounded hchains).induction (P := fun transitionId =>
    ∀ vars (m : WorkflowState S T V X), Available w m.stored.state transitionId →
      ∃ fuel m' b, fireTransition w actions fuel transitionId vars m = (m', .returned b))
    hdeclared ?_
  intro transitionId _ ih vars m h
  obtain ⟨t, hcan, rfl⟩ := canFire_available m.stored transitionId h
  rcases hrun : runAction actions t.transitionId m.context with ⟨context, result⟩
  have hresult := hends t.transitionId m.context
  rw [hrun] at hresult
  rcases hresult with rfl | ⟨added, rfl⟩
  · cases herror : t.errorTransitionId with
    | none =>
      exact ⟨1, _, _, fireTransition_abandoned w actions 0 vars m t hcan context hrun herror⟩
    | some error =>
      obtain ⟨t', ht', hsource, hid⟩ := (available_iff _ _).mp h
      obtain ⟨e, he, rfl, hstart⟩ := herrors t' ht' t error (hid ▸ hcan.named) herror
      have hnext : Available w m.stored.state e.transitionId :=
        (available_iff _ _).mpr ⟨e, he, hstart.trans hsource, rfl⟩
      obtain ⟨fuel, m', b, hfire⟩ := ih e.transitionId (hin _ _ hnext)
        (.single ⟨.failed, t, hcan.named, herror⟩) ∅
        { setInflight m (some t.transitionId) with context := context } hnext
      refine ⟨fuel + 1, m', false, ?_⟩
      rw [fireTransition_failed w actions fuel vars m t hcan context _ hrun herror, hfire]
      rfl
  · obtain ⟨available, hav⟩ : ∃ available,
        Workflow.getTransitions w (some t.destination) = some available := by
      rw [Workflow.getTransitions, if_pos (destination_declared hcan)]
      exact ⟨_, rfl⟩
    cases hauto : available.find? Transition.automatic with
    | none =>
      exact ⟨1, _, _, fireTransition_done w actions 0 vars m t hcan context added hrun available
        hav hauto⟩
    | some next =>
      have hnext := leadsOn_available t.destination next ⟨available, hav, hauto⟩
      obtain ⟨fuel, m', b, hfire⟩ := ih next.transitionId (hin _ _ hnext)
        (.single ⟨.done none, t, next, hcan.named, ⟨available, hav, hauto⟩, rfl⟩) ∅
        (setState { setInflight m (some t.transitionId) with context := context } t.destination
          (added.getD ∅ ∪ vars)) hnext
      refine ⟨fuel + 1, m', true, ?_⟩
      rw [fireTransition_continues w actions fuel vars m t hcan context added hrun available next
        hav hauto, hfire]
      rfl

theorem chainsEnd_of_rank (rank : T → Nat)
    (hrank : ∀ t next, MayFollow w t next → rank t < rank next) : ChainsEnd w := by
  intro t hcycle
  have hup (next : T) (h : Relation.TransGen (MayFollow w) t next) : rank t < rank next := by
    induction h with
    | single h => exact hrank _ _ h
    | tail _ h ih => exact ih.trans (hrank _ _ h)
  exact absurd (hup t hcycle) (Nat.lt_irrefl _)

end termination

/-- Whatever the actions of a chain do, a transition returns, and whenever it does it leaves a
declared state with nothing in flight, the work of the last action to succeed. -/
theorem fire_leaves_clean (w : Workflow S T A) (actions : T → Option (X → X × ActionResult V E))
    (transitionId : T) (vars : Dict String V) (m : WorkflowState S T V X) :
    (ActionsEnd actions → ErrorsStartTogether w → ChainsEnd w →
      Available w m.stored.state transitionId →
        ∃ fuel m' b, fireTransition w actions fuel transitionId vars m = (m', .returned b)) ∧
    ∀ fuel m' b, fireTransition w actions fuel transitionId vars m = (m', .returned b) →
      ∃ log, fireTransition w (logged actions) fuel transitionId vars (m.withLog []) =
          (m'.withLog log, .returned b) ∧
        LeftClean w transitionId vars m.stored m'.stored log := by
  constructor
  · intro hends herrors hchains hav
    exact fireTransition_returns hends herrors hchains transitionId vars m hav
  · intro fuel m' b h
    obtain ⟨log, hlog, hclean⟩ := fireTransition_leftClean fuel transitionId vars m m' b h []
    exact ⟨log, hlog, hclean⟩

/-- A start that fails, and the transition that says so. -/
def startWorkflow : Workflow String String String :=
  [⟨"start", none, "started", some "error_start", false, none⟩,
    ⟨"error_start", none, "start_error", none, false, some "error"⟩]

def doStart (t : String) : Option (Unit → Unit × ActionResult String Empty) :=
  if t = "start" then some fun context => (context, .failed) else none

theorem startWorkflow_chainsEnd : ChainsEnd startWorkflow := by
  apply chainsEnd_of_rank fun t => if t = "start" then 0 else 1
  have hnamed (t : String) (transition : Transition String String String)
      (h : Workflow.getTransition startWorkflow t = some transition) :
      transition ∈ startWorkflow ∧ transition.transitionId = t :=
    ⟨List.mem_reverse.mp (List.mem_of_find?_eq_some h), by simpa using List.find?_some h⟩
  rintro t next ⟨r, hr⟩
  cases r with
  | failed =>
    obtain ⟨transition, h, herror⟩ := hr
    obtain ⟨hin, rfl⟩ := hnamed t transition h
    simp only [startWorkflow, List.mem_cons, List.not_mem_nil, or_false] at hin
    rcases hin with rfl | rfl
    · cases herror
      decide
    · cases herror
  | done added =>
    obtain ⟨transition, following, h, ⟨available, hav, hauto⟩, -⟩ := hr
    obtain ⟨hin, -⟩ := hnamed t transition h
    simp only [startWorkflow, List.mem_cons, List.not_mem_nil, or_false] at hin
    rcases hin with rfl | rfl <;> · cases hav; cases hauto
  | raised e => exact hr.elim
  | blocked => exact hr.elim

theorem fire_leaves_clean_start :
    ∃ fuel m' b, fireTransition startWorkflow doStart fuel "start" ∅
        (⟨⟨none, ∅, none⟩, [], ()⟩ : WorkflowState String String String Unit) =
          (m', .returned b) ∧
      m'.stored.transitionId = none ∧ Workflow.hasState startWorkflow m'.stored.state = true := by
  have hclean := fire_leaves_clean startWorkflow doStart "start" ∅ ⟨⟨none, ∅, none⟩, [], ()⟩
  have hends : ActionsEnd doStart := by
    intro t context
    unfold runAction doStart
    split
    · exact Or.inr ⟨none, rfl⟩
    · split at ‹_› <;> cases ‹_›
      exact Or.inl rfl
  have herrors : ErrorsStartTogether startWorkflow := by
    intro t ht transition error hnamed herror
    simp only [startWorkflow, List.mem_cons, List.not_mem_nil, or_false] at ht
    rcases ht with rfl | rfl <;> cases hnamed <;> cases herror
    exact ⟨_, List.mem_cons_of_mem _ List.mem_cons_self, rfl, rfl⟩
  have hav : Available startWorkflow (none : Option String) "start" :=
    (available_iff _ _).mpr ⟨_, List.mem_cons_self, rfl, rfl⟩
  obtain ⟨fuel, m', b, h⟩ := hclean.1 hends herrors startWorkflow_chainsEnd hav
  obtain ⟨log, -, hleft⟩ := hclean.2 fuel m' b h
  exact ⟨fuel, m', b, h, hleft.clear, hleft.declared⟩

end Juju.Lib

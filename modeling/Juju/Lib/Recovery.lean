import Juju.Lib.StateMachineRules

namespace Juju.Lib
open Juju.Base

variable {S T A V X E : Type}

/-- An action ends the same way whenever it is run, the first time or again. -/
def Rerunnable (actions : T → Option (X → X × ActionResult V E)) : Prop :=
  ∀ t x x', (runAction actions t x).2 = (runAction actions t x').2

/-- What a call stores between two states, in order. -/
def Stores (ds : List (StateDict S T V)) (m m' : WorkflowState S T V X) : Prop :=
  m'.stored :: m'.history = ds.reverse ++ m.stored :: m.history

/-- A transition is recorded in flight, or no more. -/
def StateDict.inflight (d : StateDict S T V) (transitionId : Option T) : StateDict S T V :=
  { d with transitionId := transitionId }

variable [DecidableEq S] [DecidableEq T]

/-- The automatic transition that leads on from a state, if any. -/
def LeadsOn (w : Workflow S T A) (s : S) (next : Option (Transition S T A)) : Prop :=
  ∃ available, Workflow.getTransitions w (some s) = some available ∧
    available.find? Transition.automatic = next

/-- A transition that is fired and returns, where `ends` tells how the actions end: what is stored
on the way, and what is left. -/
inductive Fired (w : Workflow S T A) (ends : T → ActionResult V E) :
    T → Dict String V → StateDict S T V → List (StateDict S T V) → StateDict S T V → Bool → Prop
  | abandoned (t : Transition S T A) (vars : Dict String V) (d : StateDict S T V) :
      CanFire w d t → ends t.transitionId = .failed → t.errorTransitionId = none →
      Fired w ends t.transitionId vars d [d.inflight (some t.transitionId), d.inflight none]
        (d.inflight none) false
  | failed (t : Transition S T A) (vars : Dict String V) (d d' : StateDict S T V) (error : T)
      (ds : List (StateDict S T V)) (b : Bool) :
      CanFire w d t → ends t.transitionId = .failed → t.errorTransitionId = some error →
      Fired w ends error ∅ (d.inflight (some t.transitionId)) ds d' b →
      Fired w ends t.transitionId vars d (d.inflight (some t.transitionId) :: ds) d' false
  | done (t : Transition S T A) (vars : Dict String V) (d : StateDict S T V)
      (added : Option (Dict String V)) :
      CanFire w d t → ends t.transitionId = .done added → LeadsOn w t.destination none →
      Fired w ends t.transitionId vars d
        [d.inflight (some t.transitionId), ⟨some t.destination, added.getD ∅ ∪ vars, none⟩]
        ⟨some t.destination, added.getD ∅ ∪ vars, none⟩ true
  | continues (t next : Transition S T A) (vars : Dict String V) (d d' : StateDict S T V)
      (added : Option (Dict String V)) (ds : List (StateDict S T V)) (b : Bool) :
      CanFire w d t → ends t.transitionId = .done added → LeadsOn w t.destination (some next) →
      Fired w ends next.transitionId ∅ ⟨some t.destination, added.getD ∅ ∪ vars, none⟩ ds d' b →
      Fired w ends t.transitionId vars d (d.inflight (some t.transitionId) ::
        ⟨some t.destination, added.getD ∅ ∪ vars, none⟩ :: ds) d' true

/-- How the actions end. -/
def endsOf (actions : T → Option (X → X × ActionResult V E)) (context : X) (t : T) :
    ActionResult V E :=
  (runAction actions t context).2

section refinement

variable {w : Workflow S T A} {actions : T → Option (X → X × ActionResult V E)}

omit [DecidableEq S] [DecidableEq T] in
theorem stores_cons (m m' : WorkflowState S T V X) (d : StateDict S T V) (context : X)
    (ds : List (StateDict S T V)) (h : Stores ds { m.store d with context := context } m') :
    Stores (d :: ds) m m' := by
  unfold Stores at h ⊢
  rw [h, List.reverse_cons, List.append_assoc]
  rfl

theorem canFire_of (d : StateDict S T V) (transitionId : T) (available : List (Transition S T A))
    (transition : Transition S T A) (hav : Workflow.getTransitions w d.state = some available)
    (hin : transitionId ∈ available.map Transition.transitionId)
    (hnamed : Workflow.getTransition w transitionId = some transition) :
    CanFire w d transition ∧ transition.transitionId = transitionId := by
  have hid : transition.transitionId = transitionId := by
    simpa using List.find?_some hnamed
  subst hid
  exact ⟨⟨⟨available, hav, hin⟩, hnamed⟩, rfl⟩

theorem into_returned (r : FireResult E) (success b : Bool) (h : r.into success = .returned b) :
    (∃ b', r = .returned b') ∧ b = success := by
  cases r with
  | returned b' =>
    injection h with h
    exact ⟨⟨b', rfl⟩, h.symm⟩
  | _ => cases h

theorem fireAutomatic_returned
    (fire : T → WorkflowState S T V X → WorkflowState S T V X × FireResult E) (s : S)
    (m m' : WorkflowState S T V X) (b : Bool) (hs : m.stored.state = some s)
    (h : fireAutomatic w fire m = (m', .returned b)) :
    (LeadsOn w s none ∧ m' = m) ∨
      ∃ next, LeadsOn w s (some next) ∧ fire next.transitionId m = (m', .returned b) := by
  unfold fireAutomatic at h
  rw [hs] at h
  split at h
  · cases h
  · rename_i available hav
    split at h
    · rename_i hnone
      obtain ⟨hm, -⟩ := Prod.mk.inj h
      exact .inl ⟨⟨available, hav, hnone⟩, hm.symm⟩
    · rename_i next hnext
      exact .inr ⟨next, ⟨available, hav, hnext⟩, h⟩

/-- A call that returns has fired. -/
theorem fireTransition_fired (hrerun : Rerunnable actions) (x₀ : X) (fuel : Nat)
    (transitionId : T) (vars : Dict String V) (m m' : WorkflowState S T V X) (b : Bool)
    (h : fireTransition w actions fuel transitionId vars m = (m', .returned b)) :
    ∃ ds, Fired w (endsOf actions x₀) transitionId vars m.stored ds m'.stored b ∧
      Stores ds m m' := by
  induction fuel generalizing transitionId vars m m' b with
  | zero => cases h
  | succ fuel ih =>
    unfold fireTransition at h
    split at h
    · cases h
    · rename_i available hav
      split at h
      · cases h
      · rename_i hin
        dsimp only at h
        split at h
        · cases h
        · rename_i transition hnamed
          obtain ⟨hcan, rfl⟩ := canFire_of m.stored transitionId available transition hav
            (not_not.mp hin) hnamed
          have hends := hrerun transition.transitionId x₀
            (setInflight m (some transition.transitionId)).context
          generalize runAction actions transition.transitionId
            (setInflight m (some transition.transitionId)).context = ran at hends h
          obtain ⟨context, result⟩ := ran
          cases result with
          | raised e => cases h
          | blocked => cases h
          | failed =>
            dsimp only at h
            cases herror : transition.errorTransitionId with
            | none =>
              rw [herror] at h
              obtain ⟨rfl, hb⟩ := Prod.mk.inj h
              injection hb with hb
              subst hb
              exact ⟨_, .abandoned transition vars m.stored hcan hends herror,
                stores_cons m _ _ context _ rfl⟩
            | some error =>
              rw [herror] at h
              dsimp only at h
              obtain ⟨hm', hb⟩ := Prod.mk.inj h
              obtain ⟨⟨b', hinner⟩, rfl⟩ := into_returned _ _ _ hb
              obtain ⟨ds, hfired, hstores⟩ := ih error ∅ _ m' b' (Prod.ext hm' hinner)
              exact ⟨_, .failed transition vars m.stored m'.stored error ds b' hcan hends herror
                hfired, stores_cons m m' _ context ds hstores⟩
          | done added =>
            dsimp only at h
            obtain ⟨hm', hb⟩ := Prod.mk.inj h
            obtain ⟨⟨b', hinner⟩, rfl⟩ := into_returned _ _ _ hb
            rcases fireAutomatic_returned _ transition.destination _ m' b' rfl
              (Prod.ext hm' hinner) with ⟨hnone, rfl⟩ | ⟨next, hnext, hfire⟩
            · exact ⟨_, .done transition vars m.stored added hcan hends hnone,
                stores_cons m _ _ context _ rfl⟩
            · obtain ⟨ds, hfired, hstores⟩ := ih next.transitionId ∅ _ m' b' hfire
              exact ⟨_, .continues transition next vars m.stored m'.stored added ds b' hcan hends
                hnext hfired, stores_cons m m' _ context _ (stores_cons _ m' _ context ds hstores)⟩

/-- What fires, a call does, from whatever context. -/
theorem fired_fireTransition (hrerun : Rerunnable actions) (x₀ : X) (transitionId : T)
    (vars : Dict String V) (d d' : StateDict S T V) (ds : List (StateDict S T V)) (b : Bool)
    (h : Fired w (endsOf actions x₀) transitionId vars d ds d' b) :
    ∃ fuel, ∀ m : WorkflowState S T V X, m.stored = d →
      ∃ m', fireTransition w actions fuel transitionId vars m = (m', .returned b) ∧
        m'.stored = d' := by
  have hruns (t : T) (m : WorkflowState S T V X) (result : ActionResult V E)
      (hends : endsOf actions x₀ t = result) :
      ∃ context, runAction actions t m.context = (context, result) :=
    ⟨(runAction actions t m.context).1, Prod.ext rfl ((hrerun t m.context x₀).trans hends)⟩
  induction h with
  | abandoned t vars d hcan hends herror =>
    refine ⟨1, ?_⟩
    rintro m rfl
    obtain ⟨context, hrun⟩ := hruns t.transitionId m _ hends
    exact ⟨_, fireTransition_abandoned w actions 0 vars m t hcan context hrun herror, rfl⟩
  | failed t vars d d' error ds b hcan hends herror _ ih =>
    obtain ⟨fuel, hinner⟩ := ih
    refine ⟨fuel + 1, ?_⟩
    rintro m rfl
    obtain ⟨context, hrun⟩ := hruns t.transitionId m _ hends
    obtain ⟨m', hfire, hm'⟩ := hinner
      { setInflight m (some t.transitionId) with context := context } rfl
    refine ⟨m', ?_, hm'⟩
    rw [fireTransition_failed w actions fuel vars m t hcan context error hrun herror, hfire]
    rfl
  | done t vars d added hcan hends hleads =>
    obtain ⟨available, hav, hauto⟩ := hleads
    refine ⟨1, ?_⟩
    rintro m rfl
    obtain ⟨context, hrun⟩ := hruns t.transitionId m _ hends
    exact ⟨_, fireTransition_done w actions 0 vars m t hcan context added hrun available hav hauto,
      rfl⟩
  | continues t next vars d d' added ds b hcan hends hleads _ ih =>
    obtain ⟨available, hav, hauto⟩ := hleads
    obtain ⟨fuel, hinner⟩ := ih
    refine ⟨fuel + 1, ?_⟩
    rintro m rfl
    obtain ⟨context, hrun⟩ := hruns t.transitionId m _ hends
    obtain ⟨m', hfire, hm'⟩ := hinner
      (setState { setInflight m (some t.transitionId) with context := context } t.destination
        (added.getD ∅ ∪ vars)) rfl
    refine ⟨m', ?_, hm'⟩
    rw [fireTransition_continues w actions fuel vars m t hcan context added hrun available next hav
      hauto, hfire]
    rfl

end refinement

section cuts

variable {w : Workflow S T A} {ends : T → ActionResult V E}

theorem fired_leaves (transitionId : T) (vars : Dict String V) (d d' : StateDict S T V)
    (ds : List (StateDict S T V)) (b : Bool) (h : Fired w ends transitionId vars d ds d' b) :
    d'.transitionId = none := by
  induction h with
  | abandoned => rfl
  | failed _ _ _ _ _ _ _ _ _ _ _ ih => exact ih
  | done => rfl
  | continues _ _ _ _ _ _ _ _ _ _ _ _ ih => exact ih

theorem fired_first (transitionId : T) (vars : Dict String V) (d d' : StateDict S T V)
    (ds : List (StateDict S T V)) (b : Bool) (h : Fired w ends transitionId vars d ds d' b) :
    ∃ rest, ds = d.inflight (some transitionId) :: rest := by
  cases h <;> exact ⟨_, rfl⟩

/-- A transition fires from where it has been recorded. -/
theorem fired_again (transitionId : T) (vars : Dict String V) (d d' : StateDict S T V)
    (recorded : Option T) (ds : List (StateDict S T V)) (b : Bool)
    (h : Fired w ends transitionId vars d ds d' b) :
    Fired w ends transitionId vars (d.inflight recorded) ds d' b := by
  cases h with
  | abandoned t vars d hcan hends herror =>
    exact .abandoned t vars (d.inflight recorded) ⟨hcan.available, hcan.named⟩ hends herror
  | failed t vars d d' error ds b hcan hends herror hfired =>
    exact .failed t vars (d.inflight recorded) d' error ds b ⟨hcan.available, hcan.named⟩ hends
      herror hfired
  | done t vars d added hcan hends hleads =>
    exact .done t vars (d.inflight recorded) added ⟨hcan.available, hcan.named⟩ hends hleads
  | continues t next vars d d' added ds b hcan hends hleads hfired =>
    exact .continues t next vars (d.inflight recorded) d' added ds b
      ⟨hcan.available, hcan.named⟩ hends hleads hfired

/-- The variables make no difference to the states. -/
theorem fired_otherwise (transitionId : T) (vars vars' : Dict String V)
    (d d' d₂ : StateDict S T V) (ds : List (StateDict S T V)) (b : Bool)
    (h : Fired w ends transitionId vars d ds d' b) (hstate : d₂.state = d.state) :
    ∃ ds₂ d₂', Fired w ends transitionId vars' d₂ ds₂ d₂' b ∧ d₂'.state = d'.state := by
  have hcan (t : Transition S T A) (d₁ d₂ : StateDict S T V) (hstate : d₂.state = d₁.state)
      (hcan : CanFire w d₁ t) : CanFire w d₂ t := by
    refine ⟨?_, hcan.named⟩
    rw [hstate]
    exact hcan.available
  induction h generalizing vars' d₂ with
  | abandoned t vars d ht hends herror =>
    exact ⟨_, _, .abandoned t vars' d₂ (hcan t d d₂ hstate ht) hends herror, hstate⟩
  | failed t vars d d' error ds b ht hends herror _ ih =>
    obtain ⟨ds₂, d₂', hfired, hsame⟩ := ih ∅ (d₂.inflight (some t.transitionId)) hstate
    exact ⟨_, d₂', .failed t vars' d₂ d₂' error ds₂ b (hcan t d d₂ hstate ht) hends herror hfired,
      hsame⟩
  | done t vars d added ht hends hleads =>
    exact ⟨_, _, .done t vars' d₂ added (hcan t d d₂ hstate ht) hends hleads, rfl⟩
  | continues t next vars d d' added ds b ht hends hleads _ ih =>
    obtain ⟨ds₂, d₂', hfired, hsame⟩ := ih ∅ ⟨some t.destination, added.getD ∅ ∪ vars', none⟩ rfl
    exact ⟨_, d₂', .continues t next vars' d₂ d₂' added ds₂ b (hcan t d d₂ hstate ht) hends hleads
      hfired, hsame⟩

/-- What goes on from a dictionary that was stored on the way. -/
inductive Resumes (w : Workflow S T A) (ends : T → ActionResult V E) :
    StateDict S T V → StateDict S T V → Bool → Prop
  | inflight (d d' : StateDict S T V) (transitionId : T) (ds : List (StateDict S T V)) (b : Bool) :
      d.transitionId = some transitionId → Fired w ends transitionId ∅ d ds d' b →
      Resumes w ends d d' b
  | automatic (d d' : StateDict S T V) (s : S) (next : Transition S T A)
      (ds : List (StateDict S T V)) (b : Bool) : d.transitionId = none → d.state = some s →
      LeadsOn w s (some next) → Fired w ends next.transitionId ∅ d ds d' b → Resumes w ends d d' b

/-- After any store of a transition but the first, what was stored has the rest go on. -/
theorem fired_cut (transitionId : T) (vars : Dict String V) (d d' : StateDict S T V)
    (ds : List (StateDict S T V)) (b : Bool) (h : Fired w ends transitionId vars d ds d' b)
    (before after : List (StateDict S T V)) (c : StateDict S T V)
    (hcut : ds = before ++ c :: after) (hafter : after ≠ []) (hbefore : before ≠ []) :
    ∃ b', Resumes w ends c d' b' := by
  induction h generalizing before with
  | abandoned t vars d _ _ _ =>
    obtain ⟨first, rest, rfl⟩ := List.exists_cons_of_ne_nil hbefore
    obtain ⟨next, rest', rfl⟩ := List.exists_cons_of_ne_nil hafter
    have hlength := congrArg List.length hcut
    simp at hlength
    omega
  | done t vars d added _ _ _ =>
    obtain ⟨first, rest, rfl⟩ := List.exists_cons_of_ne_nil hbefore
    obtain ⟨next, rest', rfl⟩ := List.exists_cons_of_ne_nil hafter
    have hlength := congrArg List.length hcut
    simp at hlength
    omega
  | failed t vars d d' error ds b _ _ _ hfired ih =>
    obtain ⟨first, rest, rfl⟩ := List.exists_cons_of_ne_nil hbefore
    rw [List.cons_append] at hcut
    obtain ⟨-, hcut⟩ := List.cons.inj hcut
    cases rest with
    | nil =>
      obtain ⟨rest', hfirst⟩ := fired_first error ∅ _ d' ds b hfired
      rw [hfirst] at hcut
      obtain ⟨rfl, -⟩ := List.cons.inj hcut
      exact ⟨b, .inflight _ d' error ds b rfl (fired_again error ∅ _ d' (some error) ds b hfired)⟩
    | cons c' rest => exact ih (c' :: rest) hcut nofun
  | continues t next vars d d' added ds b _ _ hleads hfired ih =>
    obtain ⟨first, rest, rfl⟩ := List.exists_cons_of_ne_nil hbefore
    rw [List.cons_append] at hcut
    obtain ⟨-, hcut⟩ := List.cons.inj hcut
    cases rest with
    | nil =>
      obtain ⟨rfl, -⟩ := List.cons.inj hcut
      exact ⟨b, .automatic _ d' t.destination next ds b rfl rfl hleads hfired⟩
    | cons c' rest =>
      rw [List.cons_append] at hcut
      obtain ⟨-, hcut⟩ := List.cons.inj hcut
      cases rest with
      | nil =>
        obtain ⟨rest', hfirst⟩ := fired_first next.transitionId ∅ _ d' ds b hfired
        rw [hfirst] at hcut
        obtain ⟨rfl, -⟩ := List.cons.inj hcut
        exact ⟨b, .inflight _ d' next.transitionId ds b rfl
          (fired_again next.transitionId ∅ _ d' (some next.transitionId) ds b hfired)⟩
      | cons c'' rest => exact ih (c'' :: rest) hcut nofun

end cuts

section recovery

variable {w : Workflow S T A} {actions : T → Option (X → X × ActionResult V E)}

/-- A fresh process finishes what was resumed. -/
theorem resumes_synchronize (hrerun : Rerunnable actions) (x₀ x : X) (d d' : StateDict S T V)
    (b : Bool) (h : Resumes w (endsOf actions x₀) d d' b) :
    ∃ fuel m', synchronize w actions fuel ⟨d, [], x⟩ = (m', .returned b) ∧ m'.stored = d' := by
  cases h with
  | inflight transitionId ds _ hinflight hfired =>
    obtain ⟨fuel, hfire⟩ := fired_fireTransition hrerun x₀ transitionId ∅ d d' ds b hfired
    obtain ⟨m', hrun, hm'⟩ := hfire ⟨d, [], x⟩ rfl
    refine ⟨fuel, m', ?_, hm'⟩
    rw [synchronize]
    dsimp only
    rw [hinflight, ← hrun]
  | automatic s next ds _ hinflight hs hleads hfired =>
    obtain ⟨fuel, hfire⟩ := fired_fireTransition hrerun x₀ next.transitionId ∅ d d' ds b hfired
    obtain ⟨m', hrun, hm'⟩ := hfire ⟨d, [], x⟩ rfl
    obtain ⟨available, hav, hauto⟩ := hleads
    refine ⟨fuel, m', ?_, hm'⟩
    rw [synchronize]
    dsimp only
    rw [hinflight]
    dsimp only
    rw [fireAutomatic]
    dsimp only
    rw [hs, hav]
    dsimp only
    rw [hauto, ← hrun]

/-- A process that dies between two stores of a transition is recovered by `synchronize`: the same
state and variables are reached, but for the variables passed where no more than the transition
in flight was stored. -/
theorem crash_recovered (hrerun : Rerunnable actions) (fuel : Nat) (transitionId : T)
    (vars : Dict String V) (m m' : WorkflowState S T V X) (b : Bool)
    (hfire : fireTransition w actions fuel transitionId vars m = (m', .returned b))
    (before after : List (StateDict S T V)) (d : StateDict S T V)
    (hstores : Stores (before ++ d :: after) m m') (hafter : after ≠ []) (x : X) :
    ∃ fuel' m'' b', synchronize w actions fuel' ⟨d, [], x⟩ = (m'', .returned b') ∧
      m''.stored.transitionId = none ∧ m''.stored.state = m'.stored.state ∧
      (before ≠ [] → m''.stored = m'.stored) ∧
      (before = [] → ∃ fuel₀ m₀,
        fireTransition w actions fuel₀ transitionId ∅ m = (m₀, .returned b) ∧
        m''.stored = m₀.stored) := by
  obtain ⟨ds, hfired, hds⟩ := fireTransition_fired hrerun x fuel transitionId vars m m' b hfire
  have hcut : ds = before ++ d :: after := by
    have happend := hds.symm.trans hstores
    have hreverse := List.append_cancel_right happend
    exact List.reverse_injective hreverse
  have hnone := fired_leaves transitionId vars m.stored m'.stored ds b hfired
  by_cases hbefore : before = []
  · subst hbefore
    obtain ⟨rest, hfirst⟩ := fired_first transitionId vars m.stored m'.stored ds b hfired
    rw [hfirst] at hcut
    obtain ⟨rfl, -⟩ := List.cons.inj hcut
    obtain ⟨ds₀, d₀, hwithout, hstate⟩ := fired_otherwise transitionId vars ∅ m.stored m'.stored
      m.stored ds b hfired rfl
    have hagain := fired_again transitionId ∅ m.stored d₀ (some transitionId) ds₀ b hwithout
    obtain ⟨fuel', m'', hsync, hm''⟩ := resumes_synchronize hrerun x x _ d₀ b
      (.inflight _ d₀ transitionId ds₀ b rfl hagain)
    obtain ⟨fuel₀, hall⟩ := fired_fireTransition hrerun x transitionId ∅ m.stored d₀ ds₀ b hwithout
    obtain ⟨m₀, hrun, hm₀⟩ := hall m rfl
    refine ⟨fuel', m'', b, hsync, ?_, ?_, fun h => absurd rfl h, fun _ => ⟨fuel₀, m₀, hrun, ?_⟩⟩
    · rw [hm'']
      exact fired_leaves transitionId ∅ m.stored d₀ ds₀ b hwithout
    · rw [hm'', hstate]
    · rw [hm'', hm₀]
  · obtain ⟨b', hresumes⟩ := fired_cut transitionId vars m.stored m'.stored ds b hfired before
      after d hcut hafter hbefore
    obtain ⟨fuel', m'', hsync, hm''⟩ := resumes_synchronize hrerun x x d m'.stored b' hresumes
    refine ⟨fuel', m'', b', hsync, ?_, ?_, fun _ => hm'', fun h => absurd h hbefore⟩
    · rw [hm'', hnone]
    · rw [hm'']

end recovery

section hookError

/-- The transition that `on_hook_error` fires, with what it passes. -/
def errorWorkflow : Workflow String String String :=
  [⟨"error", some "up", "error", none, false, none⟩]

def doError (_ : String) : Option (Unit → Unit × ActionResult String Empty) :=
  some fun context => (context, .done none)

def changeVariables : Dict String String :=
  (AList.singleton "change_type" "modified").insert "error_message" "hook failed"

def relationUp : WorkflowState String String String Unit := ⟨⟨some "up", ∅, none⟩, [], ()⟩

theorem doError_rerunnable : Rerunnable doError := fun _ _ _ => rfl

theorem crash_recovered_error :
    ∃ fuel m'' b, synchronize errorWorkflow doError fuel ⟨⟨some "up", ∅, some "error"⟩, [], ()⟩ =
      (m'', .returned b) ∧ m''.stored.state = some "error" := by
  obtain ⟨m', hm'⟩ : ∃ m', m' = setState (setInflight relationUp (some "error")) "error"
    (∅ ∪ changeVariables) := ⟨_, rfl⟩
  have hfire : fireTransition errorWorkflow doError 1 "error" changeVariables relationUp =
      (m', .returned true) := by
    rw [hm']
    rfl
  have hstores : Stores ([] ++ [⟨some "up", ∅, some "error"⟩, m'.stored]) relationUp m' := by
    rw [hm']
    rfl
  obtain ⟨fuel, m'', b, hsync, -, hstate, -⟩ := crash_recovered doError_rerunnable 1 "error"
    changeVariables relationUp m' true hfire [] [m'.stored] _ hstores nofun ()
  rw [hm'] at hstate
  exact ⟨fuel, m'', b, hsync, hstate⟩

/-- The process dies before the state is set, and what was passed with the transition is lost. -/
theorem passed_variables_lost :
    ∃ m' d, fireTransition errorWorkflow doError 1 "error" changeVariables relationUp =
        (m', .returned true) ∧
      Stores [d, m'.stored] relationUp m' ∧
      ∀ fuel m'' b, synchronize errorWorkflow doError fuel ⟨d, [], ()⟩ = (m'', .returned b) →
        m''.stored.stateVariables ≠ m'.stored.stateVariables := by
  refine ⟨_, ⟨some "up", ∅, some "error"⟩, rfl, rfl, ?_⟩
  intro fuel m'' b hsync
  cases fuel with
  | zero => cases hsync
  | succ fuel =>
    obtain ⟨rfl, -⟩ := Prod.mk.inj hsync
    intro hsame
    have hlookup := congrArg (fun vars => AList.lookup "change_type" vars) hsame
    cases hlookup

end hookError

end Juju.Lib

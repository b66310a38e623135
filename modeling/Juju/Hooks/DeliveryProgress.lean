import Juju.Hooks.RelationDelivered

namespace Juju.Hooks
open Juju.Base
open Juju.State (RelationUnitWatcher WatcherEvent WatcherRequest)

variable {U : Type} [LinearOrder U]

namespace WatchedRelation

variable {interested : U → Bool} (r r' : WatchedRelation U)

/-- An event that takes the watcher or the scheduler on. -/
def Moves (r : WatchedRelation U) : RelationEvent U → Prop
  | .watcher e => e ≠ .start ∧ e ≠ .stop
  | .scheduler .run => r.session.scheduler.running = false ∧ r.session.executing = none
  | .scheduler (.hookEnds _) => r.session.executing.isSome
  | _ => False

/-- Where there is no container, the watcher waits for one and for nothing else. -/
structure Unmet (w : RelationUnitWatcher U) : Prop where
  requests : ∀ q ∈ w.requests, q = .children true ∨ q = .container
  calling : w.calling = []
  answered : w.answered = []
  notifying : w.notifying = []
  containerWatches : w.containerWatches = 0
  settingsWatches : w.settingsWatches = []

theorem deliver_watcher (e : SessionEvent U) (h : r.deliver e = .ok r') :
    r'.watcher = r.watcher ∧ r'.container = r.container := by
  obtain ⟨session, shown, -, rfl, -⟩ := deliver_cases r r' e h
  exact ⟨rfl, rfl⟩

theorem callBack_watcher (r₁ : WatchedRelation U) (h : r.callBack r₁ = .ok r') :
    r'.watcher = r₁.watcher ∧ r'.container = r₁.container := by
  simp only [callBack] at h
  cases hm : r.membersCalled r₁ with
  | none =>
    simp only [hm] at h
    split at h
    · exact deliver_watcher r₁ r' _ h
    · obtain rfl := Except.ok.inj h
      exact ⟨rfl, rfl⟩
  | some call =>
    simp only [hm] at h
    split at h
    · obtain ⟨hwatcher, hcontainer⟩ := deliver_watcher _ r' _ h
      exact ⟨hwatcher, hcontainer⟩
    · obtain rfl := Except.ok.inj h
      exact ⟨rfl, rfl⟩

omit [LinearOrder U] in
theorem reads_container (e : WatcherEvent U) : (r.reads e).container = r.container ∧
    (r.reads e).session = r.session := by
  cases e with
  | childrenAnswered children => cases children <;> exact ⟨rfl, rfl⟩
  | existsAnswered stat => simp only [reads]; split <;> exact ⟨rfl, rfl⟩
  | namesAnswered => simp only [reads]; split <;> exact ⟨rfl, rfl⟩
  | settingsTracked i =>
    simp only [reads]
    split
    · split <;> exact ⟨rfl, rfl⟩
    · exact ⟨rfl, rfl⟩
    · exact ⟨rfl, rfl⟩
  | settingsDone i => simp only [reads]; split <;> exact ⟨rfl, rfl⟩
  | _ => exact ⟨rfl, rfl⟩

theorem watcher_unmet (e : WatcherEvent U) (w : RelationUnitWatcher U) (h : Unmet r.watcher)
    (hnone : r.container = none) (htrue : r.Truthful e)
    (hw : r.watcher.step interested e = some w) : Unmet w := by
  cases e with
  | start =>
    simp only [RelationUnitWatcher.step] at hw
    split at hw
    · cases hw
    · obtain rfl := Option.some.inj hw
      refine ⟨fun q hq => ?_, h.calling, h.answered, h.notifying, h.containerWatches,
        h.settingsWatches⟩
      rcases List.mem_append.mp hq with hq | hq
      · exact h.requests q hq
      · exact Or.inl (List.mem_singleton.mp hq)
  | stop =>
    obtain rfl := Option.some.inj hw
    exact ⟨h.requests, h.calling, h.answered, h.notifying, h.containerWatches, h.settingsWatches⟩
  | childrenAnswered children =>
    simp only [RelationUnitWatcher.step] at hw
    split at hw
    · simp [Truthful, hnone] at htrue
    · rename_i rest hreq
      obtain rfl := Option.some.inj hw
      refine ⟨fun q hq => ?_, h.calling, h.answered, h.notifying, h.containerWatches,
        h.settingsWatches⟩
      rcases List.mem_append.mp hq with hq | hq
      · exact h.requests q (hreq ▸ List.mem_cons_of_mem _ hq)
      · exact Or.inr (List.mem_singleton.mp hq)
    · cases hw
  | existsAnswered stat =>
    simp only [RelationUnitWatcher.step] at hw
    split at hw
    · rename_i rest hreq
      have hstat : stat = false := by simpa [Truthful, hreq, hnone] using htrue
      subst hstat
      obtain rfl := Option.some.inj hw
      exact ⟨fun q hq => h.requests q (hreq ▸ List.mem_cons_of_mem _ hq), h.calling, h.answered,
        h.notifying, h.containerWatches, h.settingsWatches⟩
    · rename_i u task rest hreq
      have hhead := h.requests (.settings u task) (hreq ▸ List.mem_cons_self)
      simp at hhead
    · cases hw
  | namesAnswered =>
    simp only [RelationUnitWatcher.step] at hw
    split at hw
    · rename_i hreq
      have hhead := h.requests _ (hreq ▸ List.mem_cons_self)
      simp at hhead
    · rename_i hreq
      have hhead := h.requests _ (hreq ▸ List.mem_cons_self)
      simp at hhead
    · cases hw
  | membersDone i => simp [RelationUnitWatcher.step, h.calling] at hw
  | settingsTracked i => simp [RelationUnitWatcher.step, h.answered] at hw
  | settingsDone i => simp [RelationUnitWatcher.step, h.notifying] at hw
  | containerFired => simp [RelationUnitWatcher.step, h.containerWatches] at hw
  | containerCreated => simp [Truthful, hnone] at htrue
  | settingsFired i => simp [RelationUnitWatcher.step, h.settingsWatches] at hw

theorem step_unmet (e : RelationEvent U) (h : r.container = none → Unmet r.watcher)
    (hs : r.step interested e = some r') (hnone : r'.container = none) : Unmet r'.watcher := by
  cases e with
  | container =>
    simp only [step] at hs
    split at hs
    · obtain rfl := Option.some.inj hs
      cases hnone
    · cases hs
  | writes u =>
    simp only [step] at hs
    obtain rfl := Option.some.inj hs
    exact h hnone
  | joins u =>
    simp only [step] at hs
    split at hs
    · obtain rfl := Option.some.inj hs
      cases hnone
    · cases hs
  | leaves u =>
    simp only [step] at hs
    split at hs
    · obtain rfl := Option.some.inj hs
      cases hnone
    · cases hs
  | watcher e =>
    obtain ⟨htrue, w, hw, hcall⟩ := watcher_cases r r' e hs
    obtain ⟨hwatcher, hcontainer⟩ := callBack_watcher r r' _ hcall
    have hbefore : r.container = none := by
      rw [← (reads_container r e).1]
      exact hcontainer.symm.trans hnone
    rw [hwatcher]
    exact watcher_unmet r e w (h hbefore) hbefore htrue hw
  | scheduler e =>
    have hdelivered (hd : (r.deliver e).toOption = some r') : Unmet r'.watcher := by
      cases hr : r.deliver e with
      | error err => simp [hr, Except.toOption] at hd
      | ok r₁ =>
        obtain rfl : r₁ = r' := by simpa [hr, Except.toOption] using hd
        obtain ⟨hwatcher, hcontainer⟩ := deliver_watcher r r₁ e hr
        exact hwatcher.symm ▸ h (hcontainer.symm.trans hnone)
    cases e with
    | members newUnits => cases hs
    | settings unitVersions => cases hs
    | run => exact hdelivered hs
    | hookEnds success => exact hdelivered hs
    | stop => exact hdelivered hs
  | restarts =>
    obtain rfl := Option.some.inj hs
    exact ⟨by simp [restart, RelationUnitWatcher.constructed], rfl, rfl, rfl, rfl, rfl⟩

omit [LinearOrder U] in
/-- When the scheduler is told of units, these are the ones it was to be told of. -/
theorem step_calls [DecidableEq U] (w w' : RelationUnitWatcher U) (e : WatcherEvent U)
    (hw : w.step interested e = some w') : w'.calls = w.calls ∨
      ∃ oldUnits newUnits, w'.calls = w.calls ++ [(oldUnits, newUnits)] ∧
        ((∃ task, .memberNames task oldUnits newUnits ∈ w.requests) ∨
          oldUnits = w.units ∧ ∃ b rest, w.requests = .children b :: rest) := by
  cases e with
  | start =>
    simp only [RelationUnitWatcher.step] at hw
    split at hw
    · cases hw
    · obtain rfl := Option.some.inj hw
      exact Or.inl rfl
  | stop =>
    obtain rfl := Option.some.inj hw
    exact Or.inl rfl
  | childrenAnswered children =>
    simp only [RelationUnitWatcher.step] at hw
    split at hw
    · rename_i b rest found hreq
      obtain rfl := Option.some.inj hw
      unfold RelationUnitWatcher.cbContainerChildren
      split
      · exact Or.inl rfl
      · simp only
        split
        · exact Or.inr ⟨_, _, rfl, Or.inr ⟨rfl, b, rest, hreq⟩⟩
        · exact Or.inl rfl
    · obtain rfl := Option.some.inj hw
      exact Or.inl rfl
    · cases hw
  | existsAnswered stat =>
    simp only [RelationUnitWatcher.step] at hw
    split at hw
    · obtain rfl := Option.some.inj hw
      cases stat <;> exact Or.inl rfl
    · obtain rfl := Option.some.inj hw
      exact Or.inl rfl
    · cases hw
  | namesAnswered =>
    simp only [RelationUnitWatcher.step] at hw
    split at hw
    · rename_i task oldUnits newUnits rest hreq
      obtain rfl := Option.some.inj hw
      exact Or.inr ⟨oldUnits, newUnits, rfl, Or.inl ⟨task, hreq ▸ List.mem_cons_self⟩⟩
    · obtain rfl := Option.some.inj hw
      exact Or.inl rfl
    · cases hw
  | membersDone i =>
    simp only [RelationUnitWatcher.step] at hw
    split at hw
    · obtain rfl := Option.some.inj hw
      exact Or.inl rfl
    · cases hw
  | settingsTracked i =>
    simp only [RelationUnitWatcher.step] at hw
    split at hw
    · cases hw
    · split at hw
      · cases hw
      · obtain rfl := Option.some.inj hw
        unfold RelationUnitWatcher.notifyUnitSettingsVersion
        split
        · split <;> exact Or.inl rfl
        · exact Or.inl rfl
  | settingsDone i =>
    simp only [RelationUnitWatcher.step] at hw
    split at hw
    · cases hw
    · obtain rfl := Option.some.inj hw
      exact Or.inl rfl
  | containerFired =>
    simp only [RelationUnitWatcher.step] at hw
    split at hw
    · cases hw
    · obtain rfl := Option.some.inj hw
      unfold RelationUnitWatcher.cbContainerChildChange
      split <;> exact Or.inl rfl
  | containerCreated =>
    simp only [RelationUnitWatcher.step] at hw
    split at hw
    · cases hw
    · obtain rfl := Option.some.inj hw
      exact Or.inl rfl
  | settingsFired i =>
    simp only [RelationUnitWatcher.step] at hw
    split at hw
    · cases hw
    · obtain rfl := Option.some.inj hw
      unfold RelationUnitWatcher.cbUnitChange
      split <;> exact Or.inl rfl

theorem deliver_ok (e : SessionEvent U) (session : Session U)
    (hs : r.session.step e = .ok session) : ∃ r', r.deliver e = .ok r' := by
  simp only [deliver, hs, bind, Except.bind]
  exact ⟨_, rfl⟩

theorem deliver_returns (e : SessionEvent U) (h : SessionInv r.session) (ht : Timely r.session e) :
    ∃ r', r.deliver e = .ok r' := by
  obtain ⟨session, hs, -⟩ := step_inv r.session e h ht
  exact deliver_ok r e session hs

/-- What the watcher tells the scheduler is taken up, without an exception. -/
theorem watcher_returns (h : r.Following interested) (e : WatcherEvent U)
    (w : RelationUnitWatcher U) (htrue : r.Truthful e)
    (hrunning : r.watcher.containerTokens = 1) (hw : r.watcher.step interested e = some w)
    (ht : ∀ c ∈ r.called { r.reads e with watcher := w },
      Timely r.session c ∧ r.session.InLoop) :
    ∃ r', r.step interested (.watcher e) = some r' := by
  have hsession := (reads_container r e).2
  set r₁ : WatchedRelation U := { r.reads e with watcher := w } with hr₁
  have hreturns : ∃ r', r.callBack r₁ = .ok r' := by
    rcases step_calls r.watcher w e hw with hcalls | ⟨oldUnits, newUnits, hcalls, hold⟩
    · have hnone : r.membersCalled r₁ = none := by simp [membersCalled, hr₁, hcalls]
      simp only [callBack, hnone]
      cases hc : r.called r₁ with
      | none => exact ⟨r₁, rfl⟩
      | some c =>
        refine deliver_returns r₁ c ?_ ?_
        · exact hsession.symm ▸ h.showing.inv
        · exact hsession.symm ▸ (ht c hc).1
    · have hold : ∀ u ∈ oldUnits, u ∈ r.session.current := by
        rcases hold with ⟨task, hin⟩ | ⟨rfl, b, rest, hreq⟩
        · exact (h.followed.naming task oldUnits newUnits hin).2
        · have hrest := rest_settings r.watcher _ rest hreq rfl hrunning
          have hnames : ¬ r.NamesPending := by
            rintro ⟨t, olds, news, hin⟩
            rw [hreq] at hin
            have hin := (List.mem_cons.mp hin).resolve_left (by simp)
            exact absurd (hrest _ hin) (by simp [WatcherRequest.ofContainer])
          intro u hu
          by_cases hnil : r.watcher.calls = []
          · rw [h.followed.uncalled hnames hnil] at hu
            cases hu
          · exact (h.followed.called hnames hnil u).mpr hu
      obtain ⟨hcalled, hback⟩ := callBack_members r r₁ oldUnits newUnits hcalls
      obtain ⟨session, hs, -⟩ := step_inv r.session _ h.showing.inv (ht _ hcalled).1
      rw [← members_old r.session oldUnits _ h.showing.inv hold] at hs
      rw [hback]
      have hsession₁ : r₁.session = r.session := hsession
      exact deliver_ok _ _ session (hsession₁.symm ▸ hs)
  obtain ⟨r', hr'⟩ := hreturns
  exact ⟨r', by simp [step, htrue, hw, ← hr₁, hr', Except.toOption]⟩

theorem watcher_moves (h : r.Following interested) (hstarted : r.watcher.stopped = some false)
    (e : WatcherEvent U) (hmoves : r.Moves (.watcher e)) (htrue : r.Truthful e)
    (hw : (r.watcher.step interested e).isSome) :
    ∃ e, r.Moves e ∧
      (Undisturbed interested r e → ∃ r', r.step interested e = some r') := by
  obtain ⟨w, hw⟩ := Option.isSome_iff_exists.mp hw
  refine ⟨.watcher e, hmoves, fun hfine => ?_⟩
  have hone : r.watcher.containerTokens = 1 := by
    rcases h.token with hnew | hrunning
    · simp [hnew, RelationUnitWatcher.constructed] at hstarted
    · exact hrunning.2
  exact watcher_returns r h e w htrue hone hw (hfine.2 w hw)

/-- The first request to ZooKeeper can be answered. -/
theorem request_moves (h : r.Following interested) (hunmet : r.container = none → Unmet r.watcher)
    (hstarted : r.watcher.stopped = some false) (q : WatcherRequest U)
    (rest : List (WatcherRequest U)) (hreq : r.watcher.requests = q :: rest) :
    ∃ e, r.Moves e ∧
      (Undisturbed interested r e → ∃ r', r.step interested e = some r') := by
  cases q with
  | children b =>
    cases hcontainer : r.container with
    | none =>
      have hfirst := (hunmet hcontainer).requests (.children b) (hreq ▸ List.mem_cons_self)
      obtain rfl : b = true := by simpa using hfirst
      refine watcher_moves r h hstarted (.childrenAnswered none) ⟨by simp, by simp⟩
        ⟨List.nodup_nil, hcontainer.symm⟩ ?_
      simp [RelationUnitWatcher.step, hreq]
    | some units =>
      refine watcher_moves r h hstarted (.childrenAnswered (some units.toList))
        ⟨by simp, by simp⟩ ⟨units.nodup_toList, by simp [hcontainer]⟩ ?_
      simp [RelationUnitWatcher.step, hreq]
  | container =>
    refine watcher_moves r h hstarted (.existsAnswered r.container.isSome) ⟨by simp, by simp⟩
      (by simp [Truthful, hreq]) ?_
    simp [RelationUnitWatcher.step, hreq]
  | memberNames task oldUnits newUnits =>
    refine watcher_moves r h hstarted .namesAnswered ⟨by simp, by simp⟩ trivial ?_
    simp [RelationUnitWatcher.step, hreq]
  | settings u task =>
    refine watcher_moves r h hstarted (.existsAnswered (r.versions u).isSome) ⟨by simp, by simp⟩
      (by simp [Truthful, hreq]) ?_
    simp [RelationUnitWatcher.step, hreq]
  | unitName u =>
    refine watcher_moves r h hstarted .namesAnswered ⟨by simp, by simp⟩ trivial ?_
    simp [RelationUnitWatcher.step, hreq]

theorem queue_moves (h : r.Following interested)
    (hqueue : r.session.scheduler.runQueue.pending ≠ []) :
    ∃ e, r.Moves e ∧
      (Undisturbed interested r e → ∃ r', r.step interested e = some r') := by
  cases hexec : r.session.executing with
  | some c =>
    obtain ⟨r', hr'⟩ := deliver_returns r (.hookEnds true) h.showing.inv trivial
    exact ⟨.scheduler (.hookEnds true), by simp [Moves, hexec],
      fun _ => ⟨r', by simp [step, hr', Except.toOption]⟩⟩
  | none =>
    have hr : r.session.scheduler.running = false := by
      by_contra hrun
      have hwaits := h.showing.inv.alive hexec (by simpa using hrun)
      exact hqueue (h.showing.inv.told.waits hwaits).2.2
    obtain ⟨r', hr'⟩ := deliver_returns r .run h.showing.inv trivial
    exact ⟨.scheduler .run, ⟨hr, hexec⟩, fun _ => ⟨r', by simp [step, hr', Except.toOption]⟩⟩

/-- A watcher that has been started and a scheduler come to a stop at rest alone. -/
theorem busy_moves (h : r.Following interested) (hunmet : r.container = none → Unmet r.watcher)
    (hstarted : r.watcher.stopped = some false) (hbusy : ¬ r.AtRest) :
    ∃ e, r.Moves e ∧
      (Undisturbed interested r e → ∃ r', r.step interested e = some r') := by
  by_contra hstuck
  have hmoves (e : WatcherEvent U) (he : r.Moves (.watcher e)) (htrue : r.Truthful e)
      (hw : (r.watcher.step interested e).isSome) : False :=
    hstuck (watcher_moves r h hstarted e he htrue hw)
  have hreq : r.watcher.requests = [] := by
    by_contra hne
    obtain ⟨q, rest, hreq⟩ := List.exists_cons_of_ne_nil hne
    exact hstuck (request_moves r h hunmet hstarted q rest hreq)
  have hcalling : r.watcher.calling = [] := by
    by_contra hne
    refine hmoves (.membersDone 0) ⟨by simp, by simp⟩ trivial ?_
    simp [RelationUnitWatcher.step, List.length_pos_iff.mpr hne]
  have hanswered : r.watcher.answered = [] := by
    by_contra hne
    obtain ⟨⟨u, task, stat⟩, rest, hcons⟩ := List.exists_cons_of_ne_nil hne
    refine hmoves (.settingsTracked 0) ⟨by simp, by simp⟩ trivial ?_
    simp [RelationUnitWatcher.step, hcons, RelationUnitWatcher.TaskOpen, hreq, hcalling]
  have hnotifying : r.watcher.notifying = [] := by
    by_contra hne
    obtain ⟨u, rest, hcons⟩ := List.exists_cons_of_ne_nil hne
    refine hmoves (.settingsDone 0) ⟨by simp, by simp⟩ trivial ?_
    simp [RelationUnitWatcher.step, hcons]
  refine hbusy ⟨hstarted, ⟨hreq, hcalling, hanswered, hnotifying⟩, ?_, ?_, ?_, ?_⟩
  · intro hwatch
    by_contra hread
    obtain ⟨n, hn⟩ := Nat.exists_eq_succ_of_ne_zero hwatch
    refine hmoves .containerFired ⟨by simp, by simp⟩ hread ?_
    simp [RelationUnitWatcher.step, hn]
  · intro hwatch
    by_contra hsome
    obtain ⟨n, hn⟩ := Nat.exists_eq_succ_of_ne_zero hwatch
    refine hmoves .containerCreated ⟨by simp, by simp⟩
      (Option.isSome_iff_ne_none.mpr hsome) ?_
    simp [RelationUnitWatcher.step, hn]
  · intro read hin
    by_contra hchanged
    obtain ⟨i, hi⟩ := List.mem_iff_getElem?.mp hin
    refine hmoves (.settingsFired i) ⟨by simp, by simp⟩ ?_ ?_
    · intro read' hread'
      obtain rfl := Option.some.inj (hi.symm.trans hread')
      exact hchanged
    · have hwatch : r.watcher.settingsWatches[i]? = some read.1 := by
        rw [h.passed.watched, List.getElem?_map, hi, Option.map_some]
      simp [RelationUnitWatcher.step, hwatch]
  · by_contra hqueue
    exact hstuck (queue_moves r h hqueue)

/-- Whatever the units on the other side do, and however the answers, the callbacks, the hooks
and new processes come: once nothing is under way the charm has been told of every unit, and has
begun a hook for it since its settings were set last. Until then there is something that goes on,
and the scheduler takes up what it is told. -/
theorem settings_delivered (h : Reachable (fun r => r = fresh) (step interested)
    (Undisturbed interested) r) : (r.AtRest → r.Delivered interested) ∧
      (r.watcher.stopped = some false → ¬ r.AtRest → ∃ e, r.Moves e ∧
        (Undisturbed interested r e → ∃ r', r.step interested e = some r')) := by
  have hfollowing := reachable_following r h
  have hunmet : r.container = none → Unmet r.watcher := by
    refine reachable_invariant (fun r => r.container = none → Unmet r.watcher) ?_ ?_ r h
    · intro r hr _
      obtain rfl : r = fresh := hr
      exact ⟨by simp [fresh, RelationUnitWatcher.constructed], rfl, rfl, rfl, rfl, rfl⟩
    · intro r r' e hr _ hs
      exact step_unmet r r' e hr hs
  exact ⟨rest_delivered r hfollowing, busy_moves r hfollowing hunmet⟩

/-- A unit joins, and sets its settings again once its hooks have been run; the process ends
before they are read, and the next one finds them. -/
def writtenTwice : List (RelationEvent Nat) :=
  [.container, .writes 1, .joins 1, .scheduler .run, .watcher .start,
    .watcher (.childrenAnswered (some [1])), .watcher (.existsAnswered true),
    .watcher .namesAnswered, .watcher (.membersDone 0), .watcher (.settingsTracked 0),
    .watcher (.settingsDone 0), .scheduler (.hookEnds true), .scheduler (.hookEnds true),
    .writes 1, .restarts, .scheduler .run, .watcher .start,
    .watcher (.childrenAnswered (some [1])), .watcher (.existsAnswered true),
    .watcher .namesAnswered, .watcher (.membersDone 0), .watcher (.settingsTracked 0),
    .watcher (.settingsDone 0), .scheduler (.hookEnds true)]

theorem settings_delivered_twice : ∃ r : WatchedRelation Nat,
    stepAll (step fun _ => true) fresh writtenTwice = some r ∧ r.AtRest ∧
      r.Delivered fun _ => true := by
  have hrun : ∃ r : WatchedRelation Nat, stepAll (fun r e =>
      if decide (Undisturbed (fun _ => true) r e) then step (fun _ => true) r e else none)
      fresh writtenTwice = some r ∧ stepAll (step fun _ => true) fresh writtenTwice = some r ∧
        r.AtRest := by
    refine ⟨_, rfl, rfl, rfl, ⟨rfl, rfl, rfl, rfl⟩, fun _ => rfl, fun h => absurd rfl h, ?_, rfl⟩
    intro read hread
    rw [List.mem_singleton.mp hread]
    rfl
  obtain ⟨r, hchecked, hsteps, hrest⟩ := hrun
  have hreached : Reachable (fun r => r = fresh) (step fun _ => true)
      (Undisturbed fun _ => true) r :=
    reachable_checked (fun r e => decide (Undisturbed (fun _ => true) r e))
      (fun r e hfine => of_decide_eq_true hfine) writtenTwice fresh r (.init fresh rfl) hchecked
  exact ⟨r, hsteps, hrest, (settings_delivered r hreached).1 hrest⟩

/-- The last unit leaves while no process watches: the next one tells the charm of no departure. -/
theorem departure_untold : ∃ r : WatchedRelation Nat,
    Reachable (fun r => r = fresh) (step fun _ => true) (Undisturbed fun _ => true) r ∧
      r.AtRest ∧ 1 ∈ present r.session.history ∧ r.children = ∅ := by
  have hrun : ∃ r : WatchedRelation Nat, stepAll (fun r e =>
      if decide (Undisturbed (fun _ => true) r e) then step (fun _ => true) r e else none)
      fresh (writtenTwice.take 13 ++ [.leaves 1, .restarts, .scheduler .run, .watcher .start,
        .watcher (.childrenAnswered (some []))]) = some r ∧ r.AtRest ∧
        1 ∈ present r.session.history ∧ r.children = ∅ := by
    refine ⟨_, rfl, ⟨rfl, ⟨rfl, rfl, rfl, rfl⟩, fun _ => rfl, fun h => absurd rfl h, ?_, rfl⟩,
      by decide, by decide⟩
    intro read hread
    cases hread
  obtain ⟨r, hchecked, hrest, hpresent, hchildren⟩ := hrun
  exact ⟨r, reachable_checked (fun r e => decide (Undisturbed (fun _ => true) r e))
    (fun r e hfine => of_decide_eq_true hfine) _ fresh r (.init fresh rfl) hchecked, hrest,
    hpresent, hchildren⟩

end WatchedRelation

end Juju.Hooks

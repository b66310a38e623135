import Juju.Unit.UnitWatches

namespace Juju.Unit
open Juju.Base Juju.Lib

section callbacks

variable (o : Outcomes) (m : UnitWorkflowState)

/-- A callback has returned, with the unit ready for the next one. -/
structure EndsReady (w : UnitWatch) (flag : Bool) : Prop where
  ready : Ready (operate o m (w.operation flag))
  returned : w.result o m flag = .returned

theorem callbackResult_returned (r : UnitWorkflowState × UnitFireResult) (h : ReturnsReady r) :
    callbackResult r.2 = .returned := by
  obtain ⟨success, hreturned⟩ := h.returned
  rw [hreturned]
  rfl

/-- A resolved setting is taken up, or is no more than logged. -/
theorem resolved_endsReady (retryHooks : Bool) (h : Ready m) :
    EndsReady o m .resolved retryHooks := by
  have halias : ∀ a, Ready (fireTransitionAlias unitWorkflow (unitActions o.loaded) unitFuel a m).1 ∧
      (fireTransitionAlias unitWorkflow (unitActions o.loaded) unitFuel a m).2 ≠ .blocked := by
    intro a
    obtain ⟨available, hav, hnone | ⟨t, hone, hs, -⟩⟩ := alias_transition m.stored.state a
    · simp only [fireTransitionAlias, hav, hnone]
      exact ⟨h, by simp⟩
    · simp only [fireTransitionAlias, hav, hone, unitTransition_id]
      cases fire_ready o m t hs.symm h with
      | inl hdone =>
        obtain ⟨success, hreturned⟩ := hdone.returned
        refine ⟨hdone.ready, fun hblocked => ?_⟩
        cases hreturned.symm.trans hblocked
      | inr hraised =>
        obtain ⟨hready, a, hraised⟩ := hraised
        refine ⟨hready, fun hblocked => ?_⟩
        cases hraised.symm.trans hblocked
  by_cases hs : m.stored.state = some .started
  · constructor
    · simp only [UnitWatch.operation, operate, cbWatchResolved, if_pos hs]
      exact h
    · simp only [UnitWatch.result, resolvedResult, if_pos hs]
  · obtain ⟨hready, hresult⟩ := halias (if retryHooks then .retryHook else .retry)
    constructor
    · simp only [UnitWatch.operation, operate, cbWatchResolved, if_neg hs]
      exact hready
    · simp only [UnitWatch.result, resolvedResult, if_neg hs]

theorem configChanged_endsReady (flag : Bool) (h : Ready m) :
    EndsReady o m .configState flag := by
  by_cases hs : m.stored.state = some .started
  · have hdone : ReturnsReady (fireUnit o .configure m) :=
      configure_ready o.loaded 2 m hs (h.executor (by rw [hs]; decide)) (h.lifecycle (.inl hs))
    constructor
    · simp only [UnitWatch.operation, operate, cbWatchConfigChanged, if_neg (not_not_intro hs)]
      exact hdone.ready
    · simp only [UnitWatch.result, configChangedResult, if_neg (not_not_intro hs)]
      exact callbackResult_returned _ hdone
  · constructor
    · simp only [UnitWatch.operation, operate, cbWatchConfigChanged, if_pos hs]
      exact h
    · simp only [UnitWatch.result, configChangedResult, if_pos hs]

/-- Hooks do not matter to an upgrade that is forced. -/
theorem upgrades_forced : o.upgrades false true ↔
    o.prepared ≠ .failed ∧ (o.prepared = .ready → o.extracted = true) := by
  simp [Outcomes.upgrades]

theorem upgradeFlag_endsReady (force : Bool) (h : Ready m)
    (hup : force = true → m.stored.state ≠ some .started → o.upgrades false true) :
    EndsReady o m .upgradeFlag force := by
  by_cases hs : m.stored.state = some .started
  · have hdone : ReturnsReady (fireUnit o .upgradeCharm m) :=
      upgrade_ready o.loaded 2 m .upgradeCharm .upgradeCharmError true rfl rfl rfl rfl rfl rfl hs
        (h.lifecycle (.inl hs))
    constructor
    · simp only [UnitWatch.operation, operate, cbWatchUpgradeFlag, if_neg (not_not_intro hs)]
      exact hdone.ready
    · simp only [UnitWatch.result, upgradeFlagResult, if_neg (not_not_intro hs)]
      exact callbackResult_returned _ hdone
  · cases force with
    | false =>
      constructor
      · simp only [UnitWatch.operation, operate, cbWatchUpgradeFlag, if_pos hs]
        exact h
      · simp only [UnitWatch.result, upgradeFlagResult, if_pos hs]
        rfl
    | true =>
      obtain ⟨added, -, -, hrun⟩ := upgradeCharm_run o m.context false true
      rw [if_pos (hup rfl hs)] at hrun
      constructor
      · simp only [UnitWatch.operation, operate, cbWatchUpgradeFlag, if_pos hs, hrun]
        exact ⟨fun _ => rfl, h.lifecycle⟩
      · simp only [UnitWatch.result, upgradeFlagResult, if_pos hs, hrun, if_true]

/-- The forced upgrade calls the lifecycle itself, and its failure gets out of the callback. -/
theorem upgradeFlag_raises (hs : m.stored.state ≠ some .started) (hup : ¬ o.upgrades false true) :
    UnitWatch.result o m true .upgradeFlag = .raised := by
  obtain ⟨added, -, -, hrun⟩ := upgradeCharm_run o m.context false true
  rw [if_neg hup] at hrun
  simp only [UnitWatch.result, upgradeFlagResult, if_pos hs, if_true]
  by_cases hprep : o.prepared = .failed
  · rw [hrun, if_pos hprep]
  · rw [hrun, if_neg hprep]

theorem callback_endsReady (w : UnitWatch) (flag : Bool) (h : Ready m)
    (hup : w = .upgradeFlag → flag = true → m.stored.state ≠ some .started →
      o.upgrades false true) : EndsReady o m w flag := by
  cases w with
  | resolved => exact resolved_endsReady o m flag h
  | configState => exact configChanged_endsReady o m flag h
  | upgradeFlag => exact upgradeFlag_endsReady o m flag h (hup rfl)

end callbacks

namespace WatchedUnit

/-- Who waits for what: the callbacks that have come for the lock, each once, and the watches that
`start` has still to set up, the first of which may have its first callback under way. -/
structure Attending (s : WatchedUnit) : Prop where
  ready : Ready s.unit
  heard : ∀ w, s.registered w = true → s.begun w = s.changes w
  alive : ∀ w, s.stage w ≠ .lost ∧ s.stage w ≠ .blocked
  locked : ∀ w, w ∈ s.workflowLock ↔ ∃ flag, s.stage w = .locking flag
  inLine : s.workflowLock.Nodup
  unset : ∀ w, s.stage w = .unset → w ∈ s.toSetUp
  next : ∀ v rest, s.toSetUp = v :: rest →
    s.stage v ≠ .attached ∧ ∀ w ∈ rest, s.stage w = .unset
  inOrder : s.toSetUp.Nodup

section moves

variable (s s' : WatchedUnit) (w : UnitWatch)

@[simp] theorem setStage_self (stage : CallbackStage) : (s.setStage w stage).stage w = stage := by
  simp [setStage]

theorem setStage_of_ne (stage : CallbackStage) (u : UnitWatch) (hu : u ≠ w) :
    (s.setStage w stage).stage u = s.stage u := by
  simp [setStage, hu]

/-- A watch moves on from the stage that it is in, and no other does. -/
theorem attending_move (h : Attending s) (hready : Ready s'.unit)
    (hheard : ∀ u, s'.registered u = true → s'.begun u = s'.changes u)
    (hstage : ∀ u, u ≠ w → s'.stage u = s.stage u)
    (halive : s'.stage w ≠ .lost ∧ s'.stage w ≠ .blocked ∧ s'.stage w ≠ .unset)
    (hothers : ∀ u, u ≠ w → (u ∈ s'.workflowLock ↔ u ∈ s.workflowLock))
    (hown : w ∈ s'.workflowLock ↔ ∃ flag, s'.stage w = .locking flag)
    (hinLine : s'.workflowLock.Nodup)
    (hturn : s.stage w = .unset → s.toSetUp.head? = some w)
    (hsetUp : s'.stage w ≠ .attached ∧ s'.toSetUp = s.toSetUp ∨ s.stage w ≠ .unset ∧
      s'.toSetUp = if s.toSetUp.head? = some w then s.toSetUp.tail else s.toSetUp) :
    Attending s' where
  ready := hready
  heard := hheard
  alive u := by
    by_cases hu : u = w
    · subst hu
      exact ⟨halive.1, halive.2.1⟩
    · rw [hstage u hu]
      exact h.alive u
  locked u := by
    by_cases hu : u = w
    · subst hu
      exact hown
    · rw [hstage u hu, hothers u hu]
      exact h.locked u
  inLine := hinLine
  unset u hunset := by
    have hu : u ≠ w := by
      rintro rfl
      exact halive.2.2 hunset
    rw [hstage u hu] at hunset
    have hmem := h.unset u hunset
    cases hsetUp with
    | inl hsame =>
      rw [hsame.2]
      exact hmem
    | inr hreturned =>
      rw [hreturned.2]
      split
      · rename_i hhead
        obtain ⟨rest, hrest⟩ := List.head?_eq_some_iff.mp hhead
        rw [hrest] at hmem ⊢
        exact (List.mem_cons.mp hmem).resolve_left hu
      · exact hmem
  next v rest hnext := by
    have hrest : ∀ u ∈ rest, s.stage u = .unset → u ∉ s.toSetUp.head? → s'.stage u = .unset := by
      intro u _ hunset hhead
      have hu : u ≠ w := by
        rintro rfl
        exact hhead (hturn hunset)
      rw [hstage u hu]
      exact hunset
    cases hsetUp with
    | inl hsame =>
      rw [hsame.2] at hnext
      obtain ⟨hfirst, hunset⟩ := h.next v rest hnext
      have hnodup := h.inOrder
      rw [hnext] at hnodup hrest
      refine ⟨?_, fun u hu => hrest u hu (hunset u hu) ?_⟩
      · by_cases hv : v = w
        · rw [hv]
          exact hsame.1
        · rw [hstage v hv]
          exact hfirst
      · intro hhead
        rw [Option.some.inj hhead] at hnodup
        exact (List.nodup_cons.mp hnodup).1 hu
    | inr hreturned =>
      have hset : ∀ u, s.stage u = .unset → s'.stage u = .unset := by
        intro u hunset
        have hu : u ≠ w := by
          rintro rfl
          exact hreturned.1 hunset
        rw [hstage u hu]
        exact hunset
      have hnext' := hnext
      rw [hreturned.2] at hnext'
      split at hnext'
      · rename_i hhead
        obtain ⟨line, hline⟩ := List.head?_eq_some_iff.mp hhead
        rw [hline] at hnext'
        obtain ⟨_, hunset⟩ := h.next w line hline
        have hall : ∀ u ∈ v :: rest, s'.stage u = .unset := by
          intro u hu
          rw [← hnext'] at hu
          exact hset u (hunset u hu)
        refine ⟨?_, fun u hu => hall u (List.mem_cons_of_mem _ hu)⟩
        rw [hall v List.mem_cons_self]
        nofun
      · rename_i hhead
        obtain ⟨hfirst, hunset⟩ := h.next v rest hnext'
        refine ⟨?_, fun u hu => hset u (hunset u hu)⟩
        have hv : v ≠ w := by
          rintro rfl
          rw [hnext'] at hhead
          exact hhead rfl
        rw [hstage v hv]
        exact hfirst
  inOrder := by
    cases hsetUp with
    | inl hsame =>
      rw [hsame.2]
      exact h.inOrder
    | inr hreturned =>
      rw [hreturned.2]
      split
      · exact h.inOrder.tail
      · exact h.inOrder

theorem change_attending (h : Attending s) : Attending (s.change w) where
  ready := h.ready
  heard u hu := by
    by_cases hw : u = w
    · subst hw
      simp [change] at hu
    · simp only [change, Function.update_of_ne hw] at hu ⊢
      exact h.heard u hu
  alive := h.alive
  locked := h.locked
  inLine := h.inLine
  unset := h.unset
  next := h.next
  inOrder := h.inOrder

/-- What the nodes hold plays no part. -/
theorem node_attending (node : UnitWatch → Option Bool) (h : Attending s) :
    Attending { s with node := node } :=
  ⟨h.ready, h.heard, h.alive, h.locked, h.inLine, h.unset, h.next, h.inOrder⟩

theorem setFlag_attending (flag : Bool) (h : Attending s) : Attending (s.setFlag w flag) := by
  unfold setFlag
  split
  · exact change_attending _ w (node_attending s _ h)
  · exact h

theorem clearFlag_attending (h : Attending s) : Attending (s.clearFlag w) := by
  unfold clearFlag
  split
  · exact h
  · exact change_attending _ w (node_attending s _ h)

/-- A callback goes on without the lock. -/
theorem setStage_attending (stage : CallbackStage) (h : Attending s)
    (hstage : stage = .reading ∨ (∃ flag, stage = .clearing flag) ∨
      ∃ force, stage = .comparing force)
    (hlock : ∀ flag, s.stage w ≠ .locking flag)
    (hturn : s.stage w = .unset → s.toSetUp.head? = some w) : Attending (s.setStage w stage) := by
  have hown := setStage_self s w stage
  have hne : stage ≠ .lost ∧ stage ≠ .blocked ∧ stage ≠ .unset ∧ stage ≠ .attached ∧
      ∀ flag, stage ≠ .locking flag := by
    obtain rfl | ⟨flag, rfl⟩ | ⟨force, rfl⟩ := hstage
    all_goals exact ⟨nofun, nofun, nofun, nofun, nofun⟩
  apply attending_move s (s.setStage w stage) w h h.ready h.heard (setStage_of_ne s w stage) _
    (fun _ _ => Iff.rfl) _ h.inLine hturn _
  · rw [hown]
    exact ⟨hne.1, hne.2.1, hne.2.2.1⟩
  · rw [hown]
    constructor
    · intro hmem
      obtain ⟨flag, hflag⟩ := (h.locked w).mp hmem
      exact absurd hflag (hlock flag)
    · rintro ⟨flag, hflag⟩
      exact absurd hflag (hne.2.2.2.2 flag)
  · rw [hown]
    exact .inl ⟨hne.2.2.2.1, rfl⟩

theorem comeForLock_attending (flag : Bool) (h : Attending s)
    (hlock : ∀ flag, s.stage w ≠ .locking flag)
    (hturn : s.stage w = .unset → s.toSetUp.head? = some w) : Attending (s.comeForLock w flag) := by
  have hown : (s.comeForLock w flag).stage w = .locking flag := setStage_self s w _
  have hout : w ∉ s.workflowLock := by
    intro hmem
    obtain ⟨flag', hflag⟩ := (h.locked w).mp hmem
    exact hlock flag' hflag
  apply attending_move s (s.comeForLock w flag) w h h.ready h.heard (setStage_of_ne s w _) _ _ _ _
    hturn _
  · rw [hown]
    exact ⟨nofun, nofun, nofun⟩
  · intro u hu
    show u ∈ s.workflowLock ++ [w] ↔ _
    simp [hu]
  · rw [hown]
    exact ⟨fun _ => ⟨flag, rfl⟩, fun _ => List.mem_append_right _ List.mem_cons_self⟩
  · show (s.workflowLock ++ [w]).Nodup
    apply List.nodup_append.mpr
    refine ⟨h.inLine, List.nodup_singleton w, ?_⟩
    intro u hu v hv huv
    rw [huv, List.mem_singleton.mp hv] at hu
    exact hout hu
  · rw [hown]
    exact .inl ⟨nofun, rfl⟩

/-- A callback returns that has not the lock. -/
theorem attach_attending (h : Attending s) (hlock : ∀ flag, s.stage w ≠ .locking flag)
    (hset : s.stage w ≠ .unset) : Attending (s.attach w) := by
  have hown : (s.attach w).stage w = .attached := setStage_self s w _
  apply attending_move s (s.attach w) w h h.ready h.heard (setStage_of_ne s w _) _
    (fun _ _ => Iff.rfl) _ h.inLine (fun hunset => absurd hunset hset) (.inr ⟨hset, rfl⟩)
  · rw [hown]
    exact ⟨nofun, nofun, nofun⟩
  · rw [hown]
    constructor
    · intro hmem
      obtain ⟨flag, hflag⟩ := (h.locked w).mp hmem
      exact absurd hflag (hlock flag)
    · rintro ⟨flag, hflag⟩
      cases hflag

/-- A callback returns that had the lock. -/
theorem finish_attending (flag : Bool) (unit : UnitWorkflowState) (h : Attending s)
    (hunit : Ready unit) (hstage : s.stage w = .locking flag)
    (hholds : s.workflowLock.head? = some w) :
    Attending ({ s with unit := unit, workflowLock := s.workflowLock.tail }.attach w) := by
  obtain ⟨line, hline⟩ := List.head?_eq_some_iff.mp hholds
  have hinLine := h.inLine
  rw [hline] at hinLine
  have hset : s.stage w ≠ .unset := by
    rw [hstage]
    nofun
  have hown : ({ s with unit := unit, workflowLock := s.workflowLock.tail }.attach w).stage w =
      .attached := setStage_self s w _
  refine attending_move s _ w h hunit h.heard (setStage_of_ne s w _) ?_ ?_ ?_ h.inLine.tail
    (fun hunset => absurd hunset hset) (.inr ⟨hset, rfl⟩)
  · rw [hown]
    exact ⟨nofun, nofun, nofun⟩
  · intro u hu
    show u ∈ s.workflowLock.tail ↔ _
    rw [hline]
    exact ⟨List.mem_cons_of_mem w, fun hmem => (List.mem_cons.mp hmem).resolve_left hu⟩
  · rw [hown]
    constructor
    · intro hmem
      have hmem : w ∈ s.workflowLock.tail := hmem
      rw [hline] at hmem
      exact absurd hmem (List.nodup_cons.mp hinLine).1
    · rintro ⟨flag', hflag⟩
      cases hflag

theorem begin_attending (h : Attending s) (hlock : ∀ flag, s.stage w ≠ .locking flag)
    (hturn : s.stage w = .unset → s.toSetUp.head? = some w) : Attending (s.begin_ w) := by
  have hregistered : Attending { s with
      begun := Function.update s.begun w (s.changes w)
      registered := Function.update s.registered w true } := by
    refine ⟨h.ready, ?_, h.alive, h.locked, h.inLine, h.unset, h.next, h.inOrder⟩
    intro u hu
    by_cases hw : u = w
    · subst hw
      simp
    · simp only [Function.update_of_ne hw] at hu ⊢
      exact h.heard u hu
  cases w with
  | configState => exact comeForLock_attending _ .configState false hregistered hlock hturn
  | resolved => exact setStage_attending _ .resolved .reading hregistered (.inl rfl) hlock hturn
  | upgradeFlag =>
    exact setStage_attending _ .upgradeFlag .reading hregistered (.inl rfl) hlock hturn

end moves

section steps

variable (s s' : WatchedUnit)

theorem finish_returned (w : UnitWatch) (flag : Bool) (o : Outcomes)
    (h : EndsReady o s.unit w flag) : s.finish w flag o =
      { s with
        unit := operate o s.unit (w.operation flag)
        workflowLock := s.workflowLock.tail }.attach w := by
  simp only [finish, h.returned]

theorem finish_raised (w : UnitWatch) (flag : Bool) (o : Outcomes)
    (h : w.result o s.unit flag = .raised) : (s.finish w flag o).stage w = .lost := by
  simp only [finish, h, setStage_self]

/-- The callback that ends has the lock. -/
theorem finish_cases (w : UnitWatch) (o : Outcomes) (h : s.step (.finish w o) = some s') :
    ∃ flag, s.stage w = .locking flag ∧ s.workflowLock.head? = some w ∧
      s' = s.finish w flag o := by
  cases hstage : s.stage w with
  | locking flag =>
    simp only [step, hstage] at h
    obtain ⟨hhead, h⟩ := Option.ite_none_right_eq_some.mp h
    exact ⟨flag, rfl, hhead, (Option.some.inj h).symm⟩
  | _ => simp [step, hstage] at h

theorem finish_step_attending (w : UnitWatch) (o : Outcomes) (h : Attending s)
    (hfine : s.Upgrades (.finish w o)) (hs : s.step (.finish w o) = some s') : Attending s' := by
  obtain ⟨flag, hstage, hhead, rfl⟩ := finish_cases s s' w o hs
  have hends : EndsReady o s.unit w flag := by
    apply callback_endsReady o s.unit w flag h.ready
    rintro rfl rfl hstate
    exact (upgrades_forced o).mpr (hfine hstage hstate)
  rw [finish_returned s w flag o hends]
  exact finish_attending s w flag _ h hends.ready hstage hhead

theorem read_attending (w : UnitWatch) (h : Attending s) (hs : s.step (.read w) = some s') :
    Attending s' := by
  obtain ⟨hreading, hs⟩ := Option.ite_none_right_eq_some.mp hs
  have hlock : ∀ flag, s.stage w ≠ .locking flag := by
    intro flag
    rw [hreading]
    nofun
  have hset : s.stage w ≠ .unset := by
    rw [hreading]
    nofun
  cases hnode : s.node w with
  | none =>
    rw [hnode] at hs
    obtain rfl := Option.some.inj hs
    exact attach_attending s w h hlock hset
  | some flag =>
    rw [hnode] at hs
    obtain rfl := Option.some.inj hs
    exact setStage_attending s w _ h (.inr (.inl ⟨flag, rfl⟩)) hlock
      (fun hunset => absurd hunset hset)

@[simp] theorem clearFlag_stage (w : UnitWatch) : (s.clearFlag w).stage = s.stage := by
  unfold clearFlag
  split <;> rfl

theorem clear_attending (w : UnitWatch) (h : Attending s) (hs : s.step (.clear w) = some s') :
    Attending s' := by
  have hcleared := clearFlag_attending s w h
  cases hstage : s.stage w with
  | clearing flag =>
    have hlock : ∀ flag, (s.clearFlag w).stage w ≠ .locking flag := by
      intro flag
      rw [clearFlag_stage, hstage]
      nofun
    have hset : (s.clearFlag w).stage w = .unset → (s.clearFlag w).toSetUp.head? = some w := by
      rw [clearFlag_stage, hstage]
      nofun
    simp only [step, hstage] at hs
    cases w with
    | upgradeFlag =>
      obtain rfl := Option.some.inj hs
      exact setStage_attending _ _ _ hcleared (.inr (.inr ⟨flag, rfl⟩)) hlock hset
    | resolved =>
      obtain rfl := Option.some.inj hs
      exact comeForLock_attending _ _ flag hcleared hlock hset
    | configState =>
      obtain rfl := Option.some.inj hs
      exact comeForLock_attending _ _ flag hcleared hlock hset
  | _ => simp [step, hstage] at hs

theorem compare_attending (w : UnitWatch) (latest : Bool) (h : Attending s)
    (hs : s.step (.compare w latest) = some s') : Attending s' := by
  cases hstage : s.stage w with
  | comparing force =>
    have hlock : ∀ flag, s.stage w ≠ .locking flag := by
      intro flag
      rw [hstage]
      nofun
    have hset : s.stage w ≠ .unset := by
      rw [hstage]
      nofun
    simp only [step, hstage] at hs
    cases latest with
    | true =>
      obtain rfl := Option.some.inj hs
      exact attach_attending s w h hlock hset
    | false =>
      obtain rfl := Option.some.inj hs
      exact comeForLock_attending s w force h hlock (fun hunset => absurd hunset hset)
  | _ => simp [step, hstage] at hs

theorem setUp_attending (h : Attending s) (hs : s.step .setUp = some s') : Attending s' := by
  cases hnext : s.toSetUp with
  | nil => simp [step, hnext] at hs
  | cons w rest =>
    simp only [step, hnext] at hs
    obtain ⟨hunset, hs⟩ := Option.ite_none_right_eq_some.mp hs
    obtain rfl := Option.some.inj hs
    apply begin_attending s w h
    · intro flag
      rw [hunset]
      nofun
    · intro _
      rw [hnext]
      rfl

theorem invoke_attending (w : UnitWatch) (h : Attending s) (hs : s.step (.invoke w) = some s') :
    Attending s' := by
  obtain ⟨⟨hattached, _⟩, hs⟩ := Option.ite_none_right_eq_some.mp hs
  obtain rfl := Option.some.inj hs
  apply begin_attending s w h
  · intro flag
    rw [hattached]
    nofun
  · rw [hattached]
    nofun

theorem step_attending (e : UnitEvent) (h : Attending s) (hfine : s.Upgrades e)
    (hs : s.step e = some s') : Attending s' := by
  cases e with
  | setResolved retryHooks =>
    obtain rfl := Option.some.inj hs
    exact setFlag_attending s .resolved retryHooks h
  | setUpgradeFlag force =>
    obtain rfl := Option.some.inj hs
    exact setFlag_attending s .upgradeFlag force h
  | changeConfig =>
    obtain rfl := Option.some.inj hs
    exact change_attending s .configState h
  | setUp => exact setUp_attending s s' h hs
  | invoke w => exact invoke_attending s s' w h hs
  | read w => exact read_attending s s' w h hs
  | clear w => exact clear_attending s s' w h hs
  | compare w latest => exact compare_attending s s' w latest h hs
  | finish w o => exact finish_step_attending s s' w o h hfine hs

theorem initial_attending (h : s.Initial) : Attending s where
  ready := by
    obtain ⟨o, d, success, hsynchronized⟩ := h.synchronized
    have hready := synchronizeUnit_ready o d success (by rw [hsynchronized])
    rw [hsynchronized] at hready
    exact hready
  heard w hw := by
    rw [h.unregistered w] at hw
    cases hw
  alive w := by
    rw [h.unset w]
    exact ⟨nofun, nofun⟩
  locked w := by
    rw [h.unlocked, h.unset w]
    exact ⟨nofun, nofun⟩
  inLine := by
    rw [h.unlocked]
    exact List.nodup_nil
  unset w _ := by
    rw [h.toSetUp]
    cases w <;> decide
  next v rest _ := by
    rw [h.unset v]
    exact ⟨nofun, fun w _ => h.unset w⟩
  inOrder := by
    rw [h.toSetUp]
    decide

theorem reachable_attending (h : Reachable Initial step Upgrades s) : Attending s :=
  reachable_invariant Attending initial_attending
    (fun s s' e hs hfine hstep => step_attending s s' e hs hfine hstep) s h

end steps

section listening

variable (s : WatchedUnit)

/-- A callback under way can go on, or waits for another that can. -/
theorem running_goes_on (h : Attending s) (w : UnitWatch) (hw : s.Running w) :
    ∃ e : UnitEvent, e.internal = true ∧ s.step e ≠ none := by
  obtain hreading | ⟨flag, hclearing⟩ | ⟨force, hcomparing⟩ | ⟨flag, hlocking⟩ := hw
  · refine ⟨.read w, rfl, ?_⟩
    simp only [step, hreading, if_true]
    cases s.node w <;> exact nofun
  · refine ⟨.clear w, rfl, ?_⟩
    simp only [step, hclearing]
    cases w <;> exact nofun
  · refine ⟨.compare w true, rfl, ?_⟩
    simp only [step, hcomparing, if_true]
    nofun
  · have hmem : w ∈ s.workflowLock := (h.locked w).mpr ⟨flag, hlocking⟩
    cases hline : s.workflowLock with
    | nil =>
      rw [hline] at hmem
      cases hmem
    | cons v line =>
      have hfirst : v ∈ s.workflowLock := by
        rw [hline]
        exact List.mem_cons_self
      obtain ⟨flag', hholder⟩ := (h.locked v).mp hfirst
      refine ⟨.finish v allWell, rfl, ?_⟩
      simp only [step, hholder, hline, List.head?_cons, if_true]
      nofun

/-- Every watch is set up or has its callback under way, or waits for its turn. -/
theorem attending_kept (h : Attending s) (w : UnitWatch) :
    s.Armed w ∨ s.Pending w ∨ s.Running w ∨ s.stage w = .unset := by
  have halive := h.alive w
  cases hstage : s.stage w with
  | attached =>
    cases hregistered : s.registered w with
    | true => exact .inl ⟨hstage, hregistered⟩
    | false => exact .inr (.inl ⟨hstage, hregistered⟩)
  | unset => exact .inr (.inr (.inr rfl))
  | reading => exact .inr (.inr (.inl (.inl hstage)))
  | clearing flag => exact .inr (.inr (.inl (.inr (.inl ⟨flag, hstage⟩))))
  | comparing force => exact .inr (.inr (.inl (.inr (.inr (.inl ⟨force, hstage⟩)))))
  | locking flag => exact .inr (.inr (.inl (.inr (.inr (.inr ⟨flag, hstage⟩)))))
  | blocked => exact absurd hstage halive.2
  | lost => exact absurd hstage halive.1

theorem quiescent_armed (h : Attending s) (hquiet : s.Quiescent) (w : UnitWatch) : s.Armed w := by
  have hidle : ∀ u, ¬ s.Running u := by
    intro u hu
    obtain ⟨e, hinternal, hgoes⟩ := running_goes_on s h u hu
    exact hgoes (hquiet e hinternal)
  have hset : s.toSetUp = [] := by
    cases hnext : s.toSetUp with
    | nil => rfl
    | cons v rest =>
      have hfirst := (h.next v rest hnext).1
      have hsetUp := hquiet .setUp rfl
      obtain ⟨hattached, -⟩ | ⟨hattached, -⟩ | hrunning | hunset := attending_kept s h v
      · exact absurd hattached hfirst
      · exact absurd hattached hfirst
      · exact absurd hrunning (hidle v)
      · simp [step, hnext, hunset] at hsetUp
  obtain harmed | ⟨hattached, hfired⟩ | hrunning | hunset := attending_kept s h w
  · exact harmed
  · have hinvoke := hquiet (.invoke w) rfl
    simp [step, hattached, hfired] at hinvoke
  · exact absurd hrunning (hidle w)
  · have hmem := h.unset w hunset
    rw [hset] at hmem
    cases hmem

theorem attending_listening (h : Attending s) : s.Listening where
  kept := attending_kept s h
  heard hquiet w := by
    have harmed := quiescent_armed s h hquiet w
    exact ⟨harmed, h.heard w harmed.2⟩

/-- A forced upgrade that fails loses the watch of the upgrade flag. -/
theorem failed_upgrade_deaf (s' : WatchedUnit) (e : UnitEvent) (hfails : ¬ s.Upgrades e)
    (hs : s.step e = some s') : ¬ s'.Listening := by
  intro hlistening
  cases e with
  | finish w o =>
    cases w with
    | upgradeFlag =>
      simp only [Upgrades, Classical.not_imp] at hfails
      obtain ⟨hstage, hstate, hfails⟩ := hfails
      obtain ⟨flag, hlocking, _, rfl⟩ := finish_cases s s' .upgradeFlag o hs
      obtain rfl : true = flag := CallbackStage.locking.inj (hstage.symm.trans hlocking)
      have hraised := upgradeFlag_raises o s.unit hstate
        (fun hup => hfails ((upgrades_forced o).mp hup))
      have hlost := finish_raised s .upgradeFlag true o hraised
      have hkept := hlistening.kept .upgradeFlag
      simp [Armed, Pending, Running, hlost] at hkept
    | _ => exact hfails trivial
  | _ => exact hfails trivial

/-- As long as the forced upgrades of units that are not started succeed, the agent keeps
listening; the first one that fails makes it deaf. -/
theorem agent_keeps_listening (h : Reachable Initial step Upgrades s) :
    s.Listening ∧ ∀ e s', s.step e = some s' → (s'.Listening ↔ s.Upgrades e) := by
  have hattending := reachable_attending s h
  refine ⟨attending_listening s hattending, fun e s' hs => ⟨?_, ?_⟩⟩
  · intro hlistening
    by_contra hfails
    exact failed_upgrade_deaf s s' e hfails hs hlistening
  · intro hfine
    exact attending_listening s' (step_attending s s' e hattending hfine hs)

end listening

section forced

def installFails : Outcomes := { allWell with hook := fun name => name ≠ .install }

/-- A unit whose install hook has failed. -/
def notInstalled : WatchedUnit where
  unit := (synchronizeUnit installFails (restarted ⟨none, ∅, none⟩)).1
  node _ := none
  changes _ := 0
  begun _ := 0
  registered _ := false
  stage _ := .unset
  toSetUp := [.resolved, .configState, .upgradeFlag]
  workflowLock := []

theorem notInstalled_initial : notInstalled.Initial where
  synchronized := ⟨installFails, ⟨none, ∅, none⟩, false, rfl⟩
  unset _ := rfl
  unregistered _ := rfl
  toSetUp := rfl
  unlocked := rfl

/-- The watches are set up, an upgrade is forced, and its callback comes for the lock. -/
def forcedUpgrade : List UnitEvent :=
  [.setUp, .read .resolved, .setUp, .finish .configState allWell, .setUp, .read .upgradeFlag,
    .setUpgradeFlag true, .invoke .upgradeFlag, .read .upgradeFlag, .clear .upgradeFlag,
    .compare .upgradeFlag false]

theorem forcedUpgrade_upgrades : ∀ e ∈ forcedUpgrade, ∀ s : WatchedUnit, s.Upgrades e := by
  simp [forcedUpgrade, Upgrades]

theorem agent_keeps_listening_forced :
    ∃ s : WatchedUnit, s.Listening ∧ s.unit.stored.state = some .installError ∧
      s.Pending .upgradeFlag := by
  have hlocking : Reachable Initial step Upgrades _ :=
    reachable_events forcedUpgrade forcedUpgrade_upgrades notInstalled _
      (.init notInstalled notInstalled_initial) rfl
  have hupgraded : Reachable Initial step Upgrades _ :=
    .step _ _ (UnitEvent.finish .upgradeFlag allWell) hlocking
      (fun _ _ => ⟨by decide, fun _ => rfl⟩) rfl
  exact ⟨_, (agent_keeps_listening _ hupgraded).1, rfl, rfl, rfl⟩

theorem quiescent_of_idle (s : WatchedUnit) (hset : s.toSetUp = [])
    (hidle : ∀ w, s.stage w = .lost ∨ s.Armed w) : s.Quiescent := by
  intro e he
  cases e with
  | setResolved retryHooks => cases he
  | setUpgradeFlag force => cases he
  | changeConfig => cases he
  | setUp => simp [step, hset]
  | invoke w =>
    obtain hlost | ⟨hattached, hregistered⟩ := hidle w
    · simp [step, hlost]
    · simp [step, hregistered]
  | read w =>
    obtain hlost | ⟨hattached, hregistered⟩ := hidle w
    · simp [step, hlost]
    · simp [step, hattached]
  | clear w =>
    obtain hlost | ⟨hattached, hregistered⟩ := hidle w
    · simp [step, hlost]
    · simp [step, hattached]
  | compare w latest =>
    obtain hlost | ⟨hattached, hregistered⟩ := hidle w
    · simp [step, hlost]
    · simp [step, hattached]
  | finish w o =>
    obtain hlost | ⟨hattached, hregistered⟩ := hidle w
    · simp [step, hlost]
    · simp [step, hattached]

/-- The charm of a forced upgrade cannot be downloaded, and the agent takes no notice of the
upgrade that is requested then. -/
theorem forced_upgrade_deaf :
    ∃ s, Reachable Initial step (fun _ _ => True) s ∧ s.Quiescent ∧
      s.stage .upgradeFlag = .lost ∧ s.node .upgradeFlag = some false ∧
      s.begun .upgradeFlag ≠ s.changes .upgradeFlag ∧ ¬ s.Listening := by
  have hdeaf : Reachable Initial step (fun _ _ => True) _ :=
    reachable_stepAll (fun _ _ => trivial)
      (forcedUpgrade ++ [.finish .upgradeFlag { allWell with prepared := .failed },
        .setUpgradeFlag false])
      notInstalled _ (.init notInstalled notInstalled_initial) rfl
  refine ⟨_, hdeaf, quiescent_of_idle _ rfl ?_, rfl, rfl, by decide, fun hlistening => ?_⟩
  · intro w
    cases w with
    | resolved => exact .inr ⟨rfl, rfl⟩
    | configState => exact .inr ⟨rfl, rfl⟩
    | upgradeFlag => exact .inl rfl
  · obtain ⟨hattached, -⟩ | ⟨hattached, -⟩ | hrunning | hunset := hlistening.kept .upgradeFlag
    · cases hattached
    · cases hattached
    · obtain h | ⟨_, h⟩ | ⟨_, h⟩ | ⟨_, h⟩ := hrunning
      all_goals cases h
    · cases hunset

end forced

end WatchedUnit

end Juju.Unit

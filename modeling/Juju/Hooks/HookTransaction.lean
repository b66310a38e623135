import Juju.Hooks.HookFlush

namespace Juju.Hooks
open Juju.Base Juju.Lib Juju.State

/-- What holds of a hook between its events. -/
structure HookInv (t : InternalTopology) (k : TextKind) (rel : HookRelations)
    (views : String → UnitRelationState → ContextView String String String)
    (exit : Option ProcessReason) (contents : String → Option (Dict String String))
    (s : HookRun) (log : List NodeChange) : Prop where
  shared : ∀ ident ∈ rel.relations, (s.contexts ident).contents = replay contents log
  stage : StageInv t k rel views exit s log s.stage
  right : RightlyFlushed t k rel views log contents

section events

variable {t : InternalTopology} {k : TextKind} {rel : HookRelations}
  {views : String → UnitRelationState → ContextView String String String}
  {exit : Option ProcessReason} {contents : String → Option (Dict String String)}
  {s : HookRun} {log : List NodeChange}

theorem right_append (entry : NodeChange) (h : RightlyFlushed t k rel views log contents)
    (hentry : ∀ ident path content, entry = .flushed ident path content →
      ident ∉ log.filterMap NodeChange.ident? ∧ ∃ r, rel.relations.lookup ident = some r ∧
        WrittenBack t k r (views ident r) (replay contents log) path content) :
    RightlyFlushed t k rel views (log ++ [entry]) contents := by
  intro before ident path content after hsplit
  rcases List.eq_nil_or_concat after with rfl | ⟨after, last, rfl⟩
  · obtain ⟨rfl, hlast⟩ := List.append_inj' hsplit rfl
    exact hentry ident path content (List.head_eq_of_cons_eq hlast)
  · rw [List.concat_eq_append, ← List.cons_append, ← List.append_assoc] at hsplit
    obtain ⟨hlog, -⟩ := List.append_inj' hsplit rfl
    exact h before ident path content after hlog

theorem unlogged_inv (contexts : String → RelationHookContext String String) (stage : HookStage)
    (hcontents : ∀ i, (contexts i).contents = (s.contexts i).contents)
    (hinv : StageInv t k rel views exit ⟨contexts, stage⟩ log stage)
    (h : HookInv t k rel views exit contents s log) :
    HookInv t k rel views exit contents ⟨contexts, stage⟩ (log ++ []) := by
  rw [List.append_nil]
  exact ⟨fun i hi => (hcontents i).trans (h.shared i hi), hinv, h.right⟩

theorem update_contents (ident : String) (x : RelationHookContext String String)
    (hcontents : x.contents = (s.contexts ident).contents) (i : String) :
    (Function.update s.contexts ident x i).contents = (s.contexts i).contents := by
  by_cases hi : i = ident
  · rw [hi, Function.update_self, hcontents]
  · rw [Function.update_of_ne hi]

section flush

variable (r : UnitRelationState) (ident : String) (left : List String)
  (hr : rel.relations.lookup ident = some r) (h : HookInv t k rel views exit contents s log)
include hr h

theorem flushContext_start_inv (hstage : s.stage = .flushing ident left .start) :
    HookInv t k rel views exit contents (flushContext t k s r ident left .start .start).1
        (log ++ (flushContext t k s r ident left .start .start).2) ∧
      (flushContext t k s r ident left .start .start).2.filterMap NodeChange.byOthers = [] := by
  have hinv := h.stage
  rw [hstage] at hinv
  cases hinv with
  | flushing _ _ _ handled rest hmem hexit hkeys hhandled hleft hat =>
    obtain ⟨rfl, hwaiting⟩ := hat
    have hstart := flushStart_inv ident left handled r hexit hkeys hhandled hleft hr hwaiting
    cases hout : flushStart t k r (s.contexts ident) with
    | mk x result =>
      rw [hout] at hstart
      have hgoes (hnot : ∀ e, result ≠ .raised e) :
          HookInv t k rel views exit contents ⟨Function.update s.contexts ident x,
            .flushing ident left (if x.flushing = none then .config else .settings)⟩
            (log ++ []) := by
        obtain ⟨hcontents, hstage'⟩ := hstart hnot
        exact unlogged_inv _ _ (update_contents ident x hcontents) hstage' h
      simp only [flushContext, hout]
      cases result with
      | raised e => exact ⟨unlogged_inv _ _ (fun _ => rfl) (.raised _ hexit) h, rfl⟩
      | settings settings => exact ⟨hgoes fun e => by simp, rfl⟩
      | value value => exact ⟨hgoes fun e => by simp, rfl⟩
      | done => exact ⟨hgoes fun e => by simp, rfl⟩

/-- A commit that succeeds shows the others the merge, and one that does not is tried again. -/
theorem flushContext_commit_inv (hstage : s.stage = .flushing ident left .settings) :
    HookInv t k rel views exit contents (flushContext t k s r ident left .settings .commit).1
        (log ++ (flushContext t k s r ident left .settings .commit).2) ∧
      (flushContext t k s r ident left .settings .commit).2.filterMap NodeChange.byOthers = [] := by
  have hinv := h.stage
  rw [hstage] at hinv
  have hmem : ident ∈ rel.relations := (Dict.mem_iff_lookup _ _).mpr ⟨r, hr⟩
  simp only [flushContext]
  cases hafter : (flushStep (s.contexts ident) .commit).flushing with
  | some path' =>
    obtain ⟨hcontents, hstage'⟩ := commit_again_inv ident left hinv (by rw [hafter]; simp)
    rw [← hstage] at hstage'
    have hkept := unlogged_inv _ _ (update_contents ident _ hcontents) hstage' h
    cases (s.contexts ident).flushing with
    | none => exact ⟨hkept, rfl⟩
    | some path => exact ⟨hkept, rfl⟩
  | none =>
    cases hflushing : (s.contexts ident).flushing with
    | none =>
      cases hinv with
      | flushing _ _ _ handled rest hmem hexit hkeys hhandled hleft hat =>
        obtain ⟨-, r', own, path, first, -, -, -, -, -, hsome, -⟩ := hat
        exact absurd (hflushing.symm.trans hsome) (by simp)
    | some path =>
      obtain ⟨hcontents, hentry, hstage'⟩ :=
        commit_inv contents ident left path hflushing (h.shared ident hmem) hinv hafter
      refine ⟨⟨fun i hi => ?_, hstage', right_append _ h.right ?_⟩, rfl⟩
      · by_cases hi' : some i = some ident
        · obtain rfl := Option.some.inj hi'
          simp only [shareChange, if_true, Function.update_self]
          exact hcontents
        · have hne : i ≠ ident := fun he => hi' (congrArg some he)
          simp only [shareChange, if_neg hi', Function.update_of_ne hne]
          rw [changeNode_contents, replay_append, replay_flushed, h.shared i hi]
      · intro ident' path' content' he
        obtain ⟨rfl, rfl, rfl⟩ := NodeChange.flushed.inj he
        exact hentry

theorem flushContext_inv (point : FlushPoint) (step : CleanupStep)
    (hstage : s.stage = .flushing ident left point) :
    HookInv t k rel views exit contents (flushContext t k s r ident left point step).1
        (log ++ (flushContext t k s r ident left point step).2) ∧
      (flushContext t k s r ident left point step).2.filterMap NodeChange.byOthers = [] := by
  have hinv := h.stage
  rw [hstage] at hinv
  have hignored : HookInv t k rel views exit contents s (log ++ []) := by
    rw [List.append_nil]
    exact h
  cases point with
  | start =>
    cases step with
    | start => exact flushContext_start_inv r ident left hr h hstage
    | attempt => exact ⟨hignored, rfl⟩
    | commit => exact ⟨hignored, rfl⟩
    | fail => exact ⟨hignored, rfl⟩
    | config ok => exact ⟨hignored, rfl⟩
  | settings =>
    cases step with
    | start => exact ⟨hignored, rfl⟩
    | attempt =>
      obtain ⟨hcontents, hstage'⟩ := attempt_inv ident left hinv
      rw [← hstage] at hstage'
      exact ⟨unlogged_inv _ _ (update_contents ident _ hcontents) hstage' h, rfl⟩
    | commit => exact flushContext_commit_inv r ident left hr h hstage
    | fail =>
      cases hinv with
      | flushing _ _ _ handled rest hmem hexit hkeys hhandled hleft hat =>
        exact ⟨unlogged_inv _ _ (fun _ => rfl) (.raised _ hexit) h, rfl⟩
    | config ok => exact ⟨hignored, rfl⟩
  | config =>
    cases step with
    | start => exact ⟨hignored, rfl⟩
    | attempt => exact ⟨hignored, rfl⟩
    | commit => exact ⟨hignored, rfl⟩
    | fail => exact ⟨hignored, rfl⟩
    | config ok =>
      cases hinv with
      | flushing _ _ _ handled rest hmem hexit hkeys hhandled hleft hat =>
        obtain rfl : rest = left := hat
        cases ok with
        | true =>
          exact ⟨unlogged_inv _ _ (fun _ => rfl)
            (flushNext_inv handled rest hexit hkeys hhandled hleft) h, rfl⟩
        | false => exact ⟨unlogged_inv _ _ (fun _ => rfl) (.raised _ hexit) h, rfl⟩

end flush

theorem handled_others (path : String) (content : Option (Dict String String))
    (handled : List String) (h : Handled rel views log handled) :
    Handled rel views (log ++ [.others path content]) handled := by
  have hidents : (log ++ [NodeChange.others path content]).filterMap NodeChange.ident? =
      log.filterMap NodeChange.ident? := by
    rw [List.filterMap_append]
    exact List.append_nil _
  exact ⟨fun i hi => h.only i (hidents ▸ hi), fun i hi r hr hw => hidents ▸ h.written i hi r hr hw⟩

/-- Someone else changes a node, after the process has exited. -/
theorem others_inv (path : String) (content : Option (Dict String String)) (stage : HookStage)
    (hstage : stage ≠ .running) (h : StageInv t k rel views exit s log stage) :
    StageInv t k rel views exit ⟨shareChange s.contexts none path content, s.stage⟩
      (log ++ [.others path content]) stage := by
  have hwaiting (i : String) (hi : AwaitsFlush t k rel views s i) :
      AwaitsFlush t k rel views ⟨shareChange s.contexts none path content, s.stage⟩ i :=
    shareChange_waiting (s := s) s.contexts none path content s.stage i (by simp) hi
  cases h with
  | running => exact absurd rfl hstage
  | flushing ident left point handled rest hmem hexit hkeys hhandled hleft hat =>
    refine .flushing ident left point handled rest hmem hexit hkeys
      (handled_others path content handled hhandled) (fun i hi => hwaiting i (hleft i hi)) ?_
    cases point with
    | start => exact ⟨hat.1, hwaiting ident hat.2⟩
    | settings => exact ⟨hat.1, shareChange_atWork (s := s) s.contexts path content s.stage ident hat.2⟩
    | config => exact hat
  | exited code hexit hhandled => exact .exited code hexit (handled_others path content _ hhandled)
  | failed e hexit hnothing =>
    refine .failed e hexit ?_
    rw [List.filterMap_append, hnothing]
    rfl
  | raised e hexit => exact .raised e hexit

theorem exited_of_stage (stage : HookStage) (hstage : stage ≠ .running)
    (h : StageInv t k rel views exit s log stage) : exit.isSome = true := by
  have hzero (hexit : ExitedZero exit) : exit.isSome = true := by
    obtain ⟨reason, rfl, -⟩ := hexit
    rfl
  cases h with
  | running => exact absurd rfl hstage
  | flushing ident left point handled rest hmem hexit hkeys hhandled hleft hat => exact hzero hexit
  | exited code hexit hhandled => exact hzero hexit
  | failed e hexit hnothing => exact hexit
  | raised e hexit => exact hzero hexit

theorem exited_of_flushed (stage : HookStage) (hflushed : log.filterMap NodeChange.ident? ≠ [])
    (h : StageInv t k rel views exit s log stage) : ExitedZero exit := by
  cases h with
  | running _ hnothing => exact absurd hnothing hflushed
  | flushing ident left point handled rest hmem hexit hkeys hhandled hleft hat => exact hexit
  | exited code hexit hhandled => exact hexit
  | failed e _ hnothing => exact absurd hnothing hflushed
  | raised e hexit => exact hexit

end events

section run

variable (t : InternalTopology) (k : TextKind) (rel : HookRelations)
  (contents : String → Option (Dict String String))

theorem viewOf_exited (past : List HookEvent) (e : HookEvent) (h : (exitOf past).isSome = true) :
    (fun ident r => viewOf t k rel contents ident r (past ++ [e])) =
        (fun ident r => viewOf t k rel contents ident r past) ∧
      exitOf (past ++ [e]) = exitOf past := by
  constructor
  · funext ident r
    rw [viewOf, seenBy_append, if_pos h]
    rfl
  · rw [exitOf_append]
    cases hexit : exitOf past with
    | none => simp [hexit] at h
    | some reason => rfl

theorem viewOf_running (past : List HookEvent) (e : HookEvent) (ident : String)
    (r : UnitRelationState) (h : exitOf past = none) :
    viewOf t k rel contents ident r (past ++ [e]) =
      ((viewOf t k rel contents ident r past).run t k r byName "" (seenBy rel ident [e])).1 := by
  rw [viewOf, seenBy_append, h, if_neg (by decide), view_run_append]
  rfl

variable {t k rel contents}

/-- An event while the hook runs. -/
theorem running_step_inv (hookName : String) (s : HookRun) (past : List HookEvent)
    (log : List NodeChange) (e : HookEvent) (hrunning : s.stage = .running)
    (h : HookInv t k rel (fun ident r => viewOf t k rel contents ident r past) (exitOf past) contents
      s log) :
    HookInv t k rel (fun ident r => viewOf t k rel contents ident r (past ++ [e]))
        (exitOf (past ++ [e])) contents (hookStep t k rel hookName s e).1
        (log ++ (hookStep t k rel hookName s e).2) ∧
      (hookStep t k rel hookName s e).2.filterMap NodeChange.byOthers =
        [e].filterMap HookEvent.byOthers := by
  have hinv := h.stage
  rw [hrunning] at hinv
  cases hinv with
  | running hexit hnothing hfollows =>
    have hviews (ident : String) (r : UnitRelationState) :=
      viewOf_running t k rel contents past e ident r hexit
    have hright (log' : List NodeChange) (hnone : log'.filterMap NodeChange.ident? = [])
        (views : String → UnitRelationState → ContextView String String String) :
        RightlyFlushed t k rel views log' contents := by
      intro before ident path content after hsplit
      rw [hsplit, List.filterMap_append] at hnone
      exact absurd hnone (by simp [NodeChange.ident?])
    cases e with
    | command c =>
      have hexit' : exitOf (past ++ [.command c]) = none := by
        rw [exitOf_append, hexit]
        rfl
      simp only [hookStep, List.append_nil]
      rw [hexit']
      have hcommand (ident : String) (r : UnitRelationState)
          (hr : rel.relations.lookup ident = some r) :=
        hookCommand_follows rel s c ident hr (hfollows ident r hr)
      refine ⟨⟨fun ident hident => ?_, ?_, hright log hnothing _⟩, rfl⟩
      · obtain ⟨r, hr⟩ := (Dict.mem_iff_lookup _ _).mp hident
        exact (hcommand ident r hr).2.trans (h.shared ident hident)
      · rw [hookCommand_stage, hrunning]
        refine .running rfl hnothing fun ident r hr => ?_
        rw [hviews, seenBy, seenBy, List.append_nil]
        exact (hcommand ident r hr).1
    | changeNode path content =>
      have hexit' : exitOf (past ++ [.changeNode path content]) = none := by
        rw [exitOf_append, hexit]
        rfl
      have hnothing' : (log ++ [NodeChange.others path content]).filterMap NodeChange.ident? = [] := by
        rw [List.filterMap_append, hnothing]
        rfl
      simp only [hookStep]
      rw [hexit']
      refine ⟨⟨fun ident hident => ?_, ?_, hright _ hnothing' _⟩, rfl⟩
      · simp only [shareChange, reduceCtorEq, if_false]
        rw [changeNode_contents, replay_append, replay_others, h.shared ident hident]
      · rw [hrunning]
        refine .running rfl hnothing' fun ident r hr => ?_
        rw [hviews]
        simp only [shareChange, reduceCtorEq, if_false]
        exact changeNode_followed path content (hfollows ident r hr)
    | exited reason =>
      have hexit' : exitOf (past ++ [.exited reason]) = some reason := by
        rw [exitOf_append, hexit]
        rfl
      have hwaiting (i : String) : AwaitsFlush t k rel
          (fun ident r => viewOf t k rel contents ident r (past ++ [.exited reason])) s i := by
        intro r hr
        simp only [hviews]
        have hsame := (hfollows i r hr).contents
        show Follows t k r byName (fun _ => True) (s.contexts i)
          { viewOf t k rel contents i r past with contents := (s.contexts i).contents }
        rw [hsame]
        exact hfollows i r hr
      simp only [hookStep, hrunning, List.append_nil]
      rw [hexit']
      refine ⟨⟨h.shared, ?_, hright log hnothing _⟩, rfl⟩
      unfold afterExit
      cases hreason : processReason hookName reason with
      | error e => exact .failed e rfl hnothing
      | ok code =>
        have hzero : ExitedZero (some reason) :=
          ⟨reason, rfl, exited_zero hookName reason code hreason⟩
        refine flushNext_inv [] rel.relations.keys hzero rfl ⟨?_, ?_⟩ fun i _ => hwaiting i
        · rw [hnothing]
          exact fun i hi => hi
        · exact fun i hi => absurd hi List.not_mem_nil
    | cleanup step =>
      have hexit' : exitOf (past ++ [.cleanup step]) = none := by
        rw [exitOf_append, hexit]
        rfl
      simp only [hookStep, hrunning, List.append_nil]
      rw [hexit']
      refine ⟨⟨h.shared, ?_, hright log hnothing _⟩, rfl⟩
      rw [hrunning]
      refine .running rfl hnothing fun ident r hr => ?_
      rw [hviews]
      exact hfollows ident r hr

/-- An event after the process has exited. -/
theorem exited_step_inv (hookName : String) (s : HookRun) (past : List HookEvent)
    (log : List NodeChange) (e : HookEvent) (hrunning : s.stage ≠ .running)
    (hanswered : ∀ c, e = .command c → exitOf past = none)
    (h : HookInv t k rel (fun ident r => viewOf t k rel contents ident r past) (exitOf past) contents
      s log) :
    HookInv t k rel (fun ident r => viewOf t k rel contents ident r (past ++ [e]))
        (exitOf (past ++ [e])) contents (hookStep t k rel hookName s e).1
        (log ++ (hookStep t k rel hookName s e).2) ∧
      (hookStep t k rel hookName s e).2.filterMap NodeChange.byOthers =
        [e].filterMap HookEvent.byOthers := by
  have hinv := h.stage
  obtain ⟨hviews, hexit⟩ := viewOf_exited t k rel contents past e
    (exited_of_stage s.stage hrunning hinv)
  rw [hviews, hexit]
  have hignored : HookInv t k rel (fun ident r => viewOf t k rel contents ident r past)
      (exitOf past) contents s (log ++ []) := by
    rw [List.append_nil]
    exact h
  cases e with
  | command c =>
    have hnone := hanswered c rfl
    have hsome := exited_of_stage s.stage hrunning hinv
    simp [hnone] at hsome
  | changeNode path content =>
    refine ⟨⟨fun ident hident => ?_, others_inv path content s.stage hrunning hinv,
      right_append _ h.right ?_⟩, rfl⟩
    · simp only [hookStep, shareChange, reduceCtorEq, if_false]
      rw [changeNode_contents, replay_append, replay_others, h.shared ident hident]
    · intro ident path' content' he
      cases he
  | exited reason =>
    cases hstage : s.stage with
    | running => exact absurd hstage hrunning
    | flushing ident left point => simpa only [hookStep, hstage] using ⟨hignored, rfl⟩
    | ended result => simpa only [hookStep, hstage] using ⟨hignored, rfl⟩
  | cleanup step =>
    cases hstage : s.stage with
    | running => exact absurd hstage hrunning
    | ended result => simpa only [hookStep, hstage] using ⟨hignored, rfl⟩
    | flushing ident left point =>
      simp only [hookStep, hstage]
      cases hr : rel.relations.lookup ident with
      | none => exact ⟨hignored, rfl⟩
      | some r => exact flushContext_inv r ident left hr h point step hstage

theorem hookStep_inv (hookName : String) (s : HookRun) (past : List HookEvent)
    (log : List NodeChange) (e : HookEvent)
    (hanswered : ∀ c, e = .command c → exitOf past = none)
    (h : HookInv t k rel (fun ident r => viewOf t k rel contents ident r past) (exitOf past) contents
      s log) :
    HookInv t k rel (fun ident r => viewOf t k rel contents ident r (past ++ [e]))
        (exitOf (past ++ [e])) contents (hookStep t k rel hookName s e).1
        (log ++ (hookStep t k rel hookName s e).2) ∧
      (hookStep t k rel hookName s e).2.filterMap NodeChange.byOthers =
        [e].filterMap HookEvent.byOthers := by
  by_cases hrunning : s.stage = .running
  · exact running_step_inv hookName s past log e hrunning h
  · exact exited_step_inv hookName s past log e hrunning hanswered h

theorem hookEvents_inv (hookName : String) (s : HookRun) (past events : List HookEvent)
    (log : List NodeChange) (hanswered : Answered (past ++ events))
    (h : HookInv t k rel (fun ident r => viewOf t k rel contents ident r past) (exitOf past) contents
      s log) :
    HookInv t k rel (fun ident r => viewOf t k rel contents ident r (past ++ events))
        (exitOf (past ++ events)) contents (hookEvents t k rel hookName s events).1
        (log ++ (hookEvents t k rel hookName s events).2) ∧
      (hookEvents t k rel hookName s events).2.filterMap NodeChange.byOthers =
        events.filterMap HookEvent.byOthers := by
  induction events generalizing s past log with
  | nil => simpa only [hookEvents, List.append_nil] using ⟨h, rfl⟩
  | cons e events ih =>
    have hbefore (c : HookCommand) (he : e = .command c) : exitOf past = none :=
      hanswered past c events (he ▸ rfl)
    obtain ⟨hone, hothers⟩ := hookStep_inv hookName s past log e hbefore h
    have hafter : Answered ((past ++ [e]) ++ events) := by
      rwa [List.append_assoc, List.singleton_append]
    obtain ⟨hrest, hothers'⟩ := ih _ _ _ hafter hone
    rw [List.append_assoc, List.append_assoc, List.singleton_append] at hrest
    refine ⟨hrest, ?_⟩
    rw [hookEvents, List.filterMap_append, hothers, hothers', ← List.filterMap_append]
    rfl

theorem newHookRun_inv :
    HookInv t k rel (fun ident r => viewOf t k rel contents ident r []) (exitOf []) contents
      (newHookRun contents) [] := by
  refine ⟨fun _ _ => rfl, .running rfl rfl fun ident r _ => newContext_follows contents, ?_⟩
  intro before ident path content after hsplit
  exact absurd hsplit (by simp)

end run

section progress

variable {t : InternalTopology} {k : TextKind} {rel : HookRelations}
  {views : String → UnitRelationState → ContextView String String String}
  {exit : Option ProcessReason} {contents : String → Option (Dict String String)}
  (hookName : String) (s : HookRun) (log : List NodeChange)

/-- The steps of `_cleanup_process` for `n` contexts, which nobody comes between. -/
def undisturbed : Nat → List HookEvent
  | 0 => []
  | n + 1 =>
    [.cleanup .start, .cleanup .attempt, .cleanup .commit, .cleanup (.config true)] ++ undisturbed n

theorem undisturbed_steps (n : Nat) :
    ∃ steps : List CleanupStep, undisturbed n = steps.map .cleanup := by
  induction n with
  | zero => exact ⟨[], rfl⟩
  | succ n ih =>
    obtain ⟨steps, hsteps⟩ := ih
    refine ⟨[.start, .attempt, .commit, .config true] ++ steps, ?_⟩
    rw [undisturbed, hsteps, List.map_append]
    rfl

theorem hookEvents_append (before after : List HookEvent) :
    (hookEvents t k rel hookName s (before ++ after)).1 =
      (hookEvents t k rel hookName (hookEvents t k rel hookName s before).1 after).1 := by
  induction before generalizing s with
  | nil => rfl
  | cons e before ih => exact ih _

theorem ended_stays (result : HookResult) (hstage : s.stage = .ended result)
    (steps : List CleanupStep) :
    (hookEvents t k rel hookName s (steps.map .cleanup)).1.stage = .ended result := by
  induction steps with
  | nil => exact hstage
  | cons step steps ih =>
    have hsame : hookStep t k rel hookName s (.cleanup step) = (s, []) := by
      simp only [hookStep, hstage]
    rw [List.map_cons, hookEvents, hsame]
    exact ih

theorem config_round (ident : String) (left : List String) (r : UnitRelationState)
    (hr : rel.relations.lookup ident = some r) (hstage : s.stage = .flushing ident left .config) :
    (hookEvents t k rel hookName s
      [.cleanup .attempt, .cleanup .commit, .cleanup (.config true)]).1.stage = flushNext left := by
  simp [hookEvents, hookStep, hstage, hr, flushContext]

theorem settings_round (ident : String) (left : List String) (r : UnitRelationState)
    (hr : rel.relations.lookup ident = some r)
    (hstage : s.stage = .flushing ident left .settings)
    (h : StageInv t k rel views exit s log (.flushing ident left .settings)) :
    (hookEvents t k rel hookName s
      [.cleanup .attempt, .cleanup .commit, .cleanup (.config true)]).1.stage = flushNext left := by
  cases h with
  | flushing _ _ _ handled rest hmem hexit hkeys hhandled hleft hat =>
    obtain ⟨-, r', own, path, first, -, -, -, -, -, hflushing, hflush⟩ := hat
    have hattempt : (flushStep (s.contexts ident) .attempt).flushing = some path := by
      simp [flushStep, hflushing, RelationHookContext.setNode]
    have hcommit := attempt_commit_flushing hflush
    simp [hookEvents, hookStep, hstage, hr, flushContext, hattempt, hcommit]

/-- A context is flushed in four steps, or its flush raises. -/
theorem round_ends (ident : String) (left : List String) (point : FlushPoint)
    (hstage : s.stage = .flushing ident left point)
    (h : HookInv t k rel views exit contents s log) :
    let s' := (hookEvents t k rel hookName s (undisturbed 1)).1
    s'.stage = flushNext left ∨ ∃ result, s'.stage = .ended result := by
  intro s'
  have hinv := h.stage
  rw [hstage] at hinv
  have hmem : ident ∈ rel.relations := by
    cases hinv with
    | flushing _ _ _ handled rest hmem hexit hkeys hhandled hleft hat => exact hmem
  obtain ⟨r, hr⟩ := (Dict.mem_iff_lookup _ _).mp hmem
  have hstep : hookStep t k rel hookName s (.cleanup .start) =
      flushContext t k s r ident left point .start := by
    simp only [hookStep, hstage, hr]
  have hsplit : s' = (hookEvents t k rel hookName (flushContext t k s r ident left point .start).1
      [.cleanup .attempt, .cleanup .commit, .cleanup (.config true)]).1 := by
    rw [← hstep]
    rfl
  rw [hsplit]
  cases point with
  | settings =>
    exact Or.inl (settings_round hookName s log ident left r hr hstage hinv)
  | config => exact Or.inl (config_round hookName s ident left r hr hstage)
  | start =>
    have hafter := (flushContext_start_inv r ident left hr h hstage).1
    cases hout : flushStart t k r (s.contexts ident) with
    | mk x result =>
      have hcases : (∃ e, (flushContext t k s r ident left .start .start).1.stage =
            .ended (.raised e)) ∨
          (flushContext t k s r ident left .start .start).1.stage =
            .flushing ident left (if x.flushing = none then .config else .settings) := by
        simp only [flushContext, hout]
        cases result with
        | raised e => exact Or.inl ⟨some e, rfl⟩
        | settings settings => exact Or.inr rfl
        | value value => exact Or.inr rfl
        | done => exact Or.inr rfl
      rcases hcases with ⟨e, hended⟩ | hflushing
      · exact Or.inr ⟨.raised e, ended_stays hookName _ (.raised e) hended
          [.attempt, .commit, .config true]⟩
      · left
        by_cases hnone : x.flushing = none
        · rw [if_pos hnone] at hflushing
          exact config_round hookName _ ident left r hr hflushing
        · rw [if_neg hnone] at hflushing
          have hinv' := hafter.stage
          rw [hflushing] at hinv'
          exact settings_round hookName _ _ ident left r hr hflushing hinv'

/-- The steps of `_cleanup_process` are no commands. -/
theorem answered_cleanup (past : List HookEvent) (steps : List CleanupStep) (h : Answered past) :
    Answered (past ++ steps.map .cleanup) := by
  intro before c after hsplit
  have hnone (rest : List HookEvent) (hrest : rest = .command c :: after)
      (hin : ∀ e ∈ rest, e ∈ steps.map HookEvent.cleanup) : False := by
    have hcommand := hin (.command c) (by simp [hrest])
    simp at hcommand
  rcases List.append_eq_append_iff.mp hsplit with ⟨a, -, hsteps⟩ | ⟨a, hpast, hsteps⟩
  · exact (hnone _ rfl fun e he => hsteps ▸ List.mem_append_right a he).elim
  · cases a with
    | nil =>
      rw [List.nil_append] at hsteps
      exact (hnone _ rfl fun e he => hsteps ▸ he).elim
    | cons e a =>
      obtain ⟨rfl, -⟩ := List.cons.inj hsteps
      exact h before c a hpast

theorem flush_ends (ident : String) (left : List String) (point : FlushPoint)
    (past : List HookEvent) (hstage : s.stage = .flushing ident left point)
    (hanswered : Answered past)
    (h : HookInv t k rel (fun ident r => viewOf t k rel contents ident r past) (exitOf past) contents
      s log) :
    ∃ result, (hookEvents t k rel hookName s (undisturbed (left.length + 1))).1.stage =
      .ended result := by
  induction left generalizing s log ident point past with
  | nil =>
    rcases round_ends hookName s log ident [] point hstage h with hnext | hended
    · exact ⟨.exited 0, hnext⟩
    · exact hended
  | cons next left ih =>
    have hround := round_ends hookName s log ident (next :: left) point hstage h
    obtain ⟨steps, hsteps⟩ := undisturbed_steps 1
    have hafter : Answered (past ++ undisturbed 1) := by
      rw [hsteps]
      exact answered_cleanup past steps hanswered
    have hinv := (hookEvents_inv hookName s past (undisturbed 1) log hafter h).1
    have hsplit : undisturbed ((next :: left).length + 1) =
        undisturbed 1 ++ undisturbed (left.length + 1) := rfl
    rw [hsplit, hookEvents_append]
    rcases hround with hnext | ⟨result, hended⟩
    · exact ih _ _ next .start _ hnext hafter hinv
    · obtain ⟨steps, hsteps⟩ := undisturbed_steps (left.length + 1)
      rw [hsteps]
      exact ⟨result, ended_stays hookName _ result hended steps⟩

end progress

/-- The settings that a hook writes take effect as a whole: none of them unless its process exits
with 0, and then each relation's once. -/
structure Transacted (t : InternalTopology) (k : TextKind) (rel : HookRelations) (hookName : String)
    (contents : String → Option (Dict String String)) (events : List HookEvent) (s : HookRun)
    (log : List NodeChange) : Prop where
  /-- The contexts see the nodes as the changes have left them. -/
  shared : ∀ ident ∈ rel.relations, (s.contexts ident).contents = replay contents log
  /-- The changes that are not those of flushes are those that others have made. -/
  others : log.filterMap NodeChange.byOthers = events.filterMap HookEvent.byOthers
  /-- The hook is shown of a relation what its view says. -/
  isolated : exitOf events = none → ∀ ident r c, rel.relations.lookup ident = some r →
    lookups (contextCall t k r "" (s.contexts ident) c).2 =
      ((viewOf t k rel contents ident r events).call t k r byName "" c).2
  nothing : log.filterMap NodeChange.ident? ≠ [] → ExitedZero (exitOf events)
  right : RightlyFlushed t k rel (fun ident r => viewOf t k rel contents ident r events) log contents
  complete : ∀ code, s.stage = .ended (.exited code) → ∀ ident r,
    rel.relations.lookup ident = some r → (viewOf t k rel contents ident r events).written = true →
      ident ∈ log.filterMap NodeChange.ident?
  ends : ∀ ident left point, s.stage = .flushing ident left point →
    ∃ result, (hookEvents t k rel hookName s (undisturbed (left.length + 1))).1.stage =
      .ended result

/-- The relation of a unit whose hook is run. -/
def wordpressRelations : HookRelations where
  relations := (∅ : Dict String UnitRelationState).insert "db:0" wordpressInRelation
  own := some "db:0"
  own_mem := by
    intro ident hident
    exact (AList.mem_insert _).mpr (Or.inl (Option.some.inj hident).symm)

end Juju.Hooks

import Juju.Hooks.HookViews

namespace Juju.Hooks
open Juju.Base Juju.Lib Juju.State

section invariant

variable (t : InternalTopology) (k : TextKind) (rel : HookRelations)
  (views : String → UnitRelationState → ContextView String String String)
  (exit : Option ProcessReason) (s : HookRun) (log : List NodeChange)

/-- A context follows the view, but for the changes of nodes since. -/
def AwaitsFlush (ident : String) : Prop :=
  ∀ r, rel.relations.lookup ident = some r →
    Follows t k r byName (fun _ => True) (s.contexts ident) { views ident r with contents := (s.contexts ident).contents }

/-- The settings of a context are being written. -/
def AtWork (ident : String) : Prop :=
  ∃ r own path first, rel.relations.lookup ident = some r ∧
    resolveUnit t r none = .ok own ∧ unitSettingsPath t k r own = .ok path ∧
    (views ident r).written = true ∧
    ((views ident r).seen own = some first ∨ (views ident r).edits = []) ∧
    (s.contexts ident).flushing = some path ∧
    Flushing (s.contexts ident) path first (overlay first (views ident r).edits)

/-- The relations that the flush has dealt with. -/
structure Handled (handled : List String) : Prop where
  only : ∀ ident ∈ log.filterMap NodeChange.ident?, ident ∈ handled
  written : ∀ ident ∈ handled, ∀ r, rel.relations.lookup ident = some r →
    (views ident r).written = true → ident ∈ log.filterMap NodeChange.ident?

/-- The relations from the one at hand on, by where its flush is. -/
def FlushAt (ident : String) (left rest : List String) : FlushPoint → Prop
  | .start => rest = ident :: left ∧ AwaitsFlush t k rel views s ident
  | .settings => rest = ident :: left ∧ AtWork t k rel views s ident
  | .config => rest = left

def ExitedZero : Prop := ∃ reason, exit = some reason ∧ reason.exitCode = some 0

inductive StageInv : HookStage → Prop where
  | running : exit = none → log.filterMap NodeChange.ident? = [] →
      (∀ ident r, rel.relations.lookup ident = some r →
        Follows t k r byName (fun _ => True) (s.contexts ident) (views ident r)) → StageInv .running
  | flushing (ident : String) (left : List String) (point : FlushPoint)
      (handled rest : List String) : ident ∈ rel.relations → ExitedZero exit →
      rel.relations.keys = handled ++ rest → Handled rel views log handled →
      (∀ i ∈ left, AwaitsFlush t k rel views s i) →
      FlushAt t k rel views s ident left rest point → StageInv (.flushing ident left point)
  | exited (code : Int) : ExitedZero exit → Handled rel views log rel.relations.keys →
      StageInv (.ended (.exited code))
  | failed (e : CharmInvocationError) : exit.isSome = true →
      log.filterMap NodeChange.ident? = [] → StageInv (.ended (.failed e))
  | raised (e : Option ContextError) : ExitedZero exit → StageInv (.ended (.raised e))

/-- Each write of a flush is right, and the only one of its relation so far. -/
def RightlyFlushed (contents : String → Option (Dict String String)) : Prop :=
  ∀ before ident path content after, log = before ++ .flushed ident path content :: after →
    ident ∉ before.filterMap NodeChange.ident? ∧
      ∃ r, rel.relations.lookup ident = some r ∧
        WrittenBack t k r (views ident r) (replay contents before) path content

end invariant

section steps

variable {t : InternalTopology} {k : TextKind} {rel : HookRelations}
  {views : String → UnitRelationState → ContextView String String String}
  {exit : Option ProcessReason} {s : HookRun} {log : List NodeChange}

theorem ident_once (ident : String) (left handled : List String)
    (hkeys : rel.relations.keys = handled ++ ident :: left) : ident ∉ left ∧ ident ∉ handled := by
  have hnodup : (handled ++ ident :: left).Nodup := hkeys ▸ rel.relations.nodupKeys
  obtain ⟨-, hrest, hapart⟩ := List.nodup_append.mp hnodup
  exact ⟨(List.nodup_cons.mp hrest).1, fun hin => hapart ident hin ident List.mem_cons_self rfl⟩

/-- The loop goes on to a relation that has waited, or is over. -/
theorem flushNext_inv (handled left : List String) (hexit : ExitedZero exit)
    (hkeys : rel.relations.keys = handled ++ left) (h : Handled rel views log handled)
    (hleft : ∀ i ∈ left, AwaitsFlush t k rel views s i) :
    StageInv t k rel views exit s log (flushNext left) := by
  cases left with
  | nil =>
    rw [List.append_nil] at hkeys
    exact .exited 0 hexit (hkeys ▸ h)
  | cons ident left =>
    have hmem : ident ∈ rel.relations.keys := by simp [hkeys]
    exact .flushing ident left .start handled (ident :: left) hmem hexit hkeys h
      (fun i hi => hleft i (List.mem_cons_of_mem _ hi)) ⟨rfl, hleft ident List.mem_cons_self⟩

theorem shareChange_waiting (contexts : String → RelationHookContext String String)
    (writer : Option String) (path : String) (content : Option (Dict String String))
    (stage : HookStage) (ident : String) (hother : some ident ≠ writer)
    (h : AwaitsFlush t k rel views ⟨contexts, s.stage⟩ ident) :
    AwaitsFlush t k rel views ⟨shareChange contexts writer path content, stage⟩ ident := by
  intro r hr
  have hchange := changeNode_followed path content (h r hr)
  simp only [shareChange, if_neg hother]
  rw [changeNode_contents]
  exact hchange

theorem shareChange_atWork (contexts : String → RelationHookContext String String)
    (path : String) (content : Option (Dict String String)) (stage : HookStage) (ident : String)
    (h : AtWork t k rel views ⟨contexts, s.stage⟩ ident) :
    AtWork t k rel views ⟨shareChange contexts none path content, stage⟩ ident := by
  obtain ⟨r, own, path', first, hr, hown, hpath, hwritten, hfirst, hflushing, hflush⟩ := h
  exact ⟨r, own, path', first, hr, hown, hpath, hwritten, hfirst, hflushing,
    changeNode_flushing hflush path content⟩

theorem update_waiting (ident i : String) (x : RelationHookContext String String)
    (stage : HookStage) (hne : i ≠ ident) (h : AwaitsFlush t k rel views s i) :
    AwaitsFlush t k rel views ⟨Function.update s.contexts ident x, stage⟩ i := by
  intro r hr
  simp only [Function.update_of_ne hne]
  exact h r hr

/-- A flush that has something to write, and starts, is under way. -/
theorem flushStart_under_way (r : UnitRelationState) (x : RelationHookContext String String)
    (hneeds : x.needsFlushing = true) (h : (flushStart t k r x).1.flushing = none) :
    ∃ e, (flushStart t k r x).2 = .raised e := by
  unfold flushStart at h ⊢
  rw [if_pos hneeds] at h ⊢
  cases hsetup : setupRelationState t k r x none with
  | mk x' result =>
    cases result with
    | error e => exact ⟨e, rfl⟩
    | ok found => simp [hsetup] at h

/-- A flush starts, of a context that has waited. -/
theorem flushStart_inv (ident : String) (left handled : List String) (r : UnitRelationState)
    (hexit : ExitedZero exit) (hkeys : rel.relations.keys = handled ++ ident :: left)
    (h : Handled rel views log handled) (hleft : ∀ i ∈ left, AwaitsFlush t k rel views s i)
    (hr : rel.relations.lookup ident = some r) (hwaiting : AwaitsFlush t k rel views s ident)
    (hstarted : ∀ e, (flushStart t k r (s.contexts ident)).2 ≠ .raised e) :
    let x := (flushStart t k r (s.contexts ident)).1
    let stage := HookStage.flushing ident left (if x.flushing = none then .config else .settings)
    x.contents = (s.contexts ident).contents ∧
      StageInv t k rel views exit ⟨Function.update s.contexts ident x, stage⟩ log stage := by
  intro x stage
  have hmem : ident ∈ rel.relations := (Dict.mem_iff_lookup _ _).mpr ⟨r, hr⟩
  obtain ⟨hnot, -⟩ := ident_once ident left handled hkeys
  have hwait : ∀ i ∈ left,
      AwaitsFlush t k rel views ⟨Function.update s.contexts ident x, stage⟩ i := fun i hi =>
    update_waiting ident i x stage (fun he => hnot (he ▸ hi)) (hleft i hi)
  have hfollows := hwaiting r hr
  obtain ⟨hcontents, hcases⟩ := flushStart_follows (distinct_byName t r) hfollows
  refine ⟨hcontents, ?_⟩
  cases hflushing : x.flushing with
  | none =>
    have hunwritten : (views ident r).written = false := by
      rw [← Bool.not_eq_true]
      intro hwritten
      obtain ⟨e, he⟩ := flushStart_under_way r _ (hfollows.written.trans hwritten) hflushing
      exact hstarted e he
    have hconfig : stage = .flushing ident left .config := by
      simp only [stage, hflushing, if_true]
    rw [hconfig] at hwait ⊢
    refine .flushing ident left .config (handled ++ [ident]) left hmem hexit ?_ ⟨?_, ?_⟩ hwait rfl
    · rw [hkeys, List.append_assoc]
      rfl
    · exact fun i hi => List.mem_append_left _ (h.only i hi)
    · intro i hi r' hr' hwritten
      rcases List.mem_append.mp hi with hi | hi
      · exact h.written i hi r' hr' hwritten
      · obtain rfl := List.mem_singleton.mp hi
        obtain rfl : r = r' := Option.some.inj (hr.symm.trans hr')
        rw [hunwritten] at hwritten
        cases hwritten
  | some path =>
    have hsettings : stage = .flushing ident left .settings := by
      simp only [stage, hflushing, reduceCtorEq, if_false]
    rw [hsettings] at hwait ⊢
    rcases hcases with ⟨-, hnone⟩ | ⟨hwritten, ⟨e, -, hnone⟩ |
        ⟨own, path', first, haccess, hown, hpath, hsome, hflush⟩⟩
    · exact absurd (hflushing.symm.trans hnone) (by simp)
    · exact absurd (hflushing.symm.trans hnone) (by simp)
    · refine .flushing ident left .settings handled (ident :: left) hmem hexit hkeys h hwait
        ⟨rfl, r, own, path', first, hr, hown, hpath, hwritten, ?_, ?_, ?_⟩
      · refine (access_seen _ own first haccess).imp id fun hnone => ?_
        have hcache := hfollows.caches own trivial
        have hseen : (views ident r).seen (byName own) = none := hnone
        unfold Caches at hcache
        simp only [hseen] at hcache
        exact hcache.2 (by rw [ownKey, hown, Except.map])
      · simp only [Function.update_self]
        exact hsome
      · simp only [Function.update_self]
        exact hflush

/-- The flush goes on, with the same settings still to be written. -/
theorem flushing_inv (ident : String) (left : List String) (x : RelationHookContext String String)
    (hx : ∀ path first target, Flushing (s.contexts ident) path first target →
      x.contents = (s.contexts ident).contents ∧ x.flushing = (s.contexts ident).flushing ∧
        Flushing x path first target)
    (h : StageInv t k rel views exit s log (.flushing ident left .settings)) :
    x.contents = (s.contexts ident).contents ∧
      StageInv t k rel views exit ⟨Function.update s.contexts ident x, s.stage⟩ log
        (.flushing ident left .settings) := by
  cases h with
  | flushing _ _ _ handled rest hmem hexit hkeys hhandled hleft hat =>
    obtain ⟨rfl, r, own, path, first, hr, hown, hpath, hwritten, hfirst, hflushing, hflush⟩ := hat
    obtain ⟨hnot, -⟩ := ident_once ident left handled hkeys
    obtain ⟨hcontents, hsame, hafter⟩ := hx _ _ _ hflush
    refine ⟨hcontents, .flushing ident left .settings handled (ident :: left) hmem hexit
      hkeys hhandled (fun i hi => ?_)
      ⟨rfl, r, own, path, first, hr, hown, hpath, hwritten, hfirst, ?_, ?_⟩⟩
    · exact update_waiting ident i x _ (fun he => hnot (he ▸ hi)) (hleft i hi)
    · simp only [Function.update_self]
      exact hsame.trans hflushing
    · simp only [Function.update_self]
      exact hafter

theorem attempt_inv (ident : String) (left : List String)
    (h : StageInv t k rel views exit s log (.flushing ident left .settings)) :
    let x := flushStep (s.contexts ident) .attempt
    x.contents = (s.contexts ident).contents ∧
      StageInv t k rel views exit ⟨Function.update s.contexts ident x, s.stage⟩ log
        (.flushing ident left .settings) := by
  apply flushing_inv ident left _ _ h
  intro path first target hflush
  refine ⟨attempt_contents hflush, ?_, attempt_flushing hflush⟩
  cases hflushing : (s.contexts ident).flushing with
  | none => simp [flushStep, hflushing]
  | some path' => simp [flushStep, hflushing, RelationHookContext.setNode]

/-- A commit that another change came before: the flush goes on. -/
theorem commit_again_inv (ident : String) (left : List String)
    (h : StageInv t k rel views exit s log (.flushing ident left .settings))
    (hagain : (flushStep (s.contexts ident) .commit).flushing ≠ none) :
    let x := flushStep (s.contexts ident) .commit
    x.contents = (s.contexts ident).contents ∧
      StageInv t k rel views exit ⟨Function.update s.contexts ident x, s.stage⟩ log
        (.flushing ident left .settings) := by
  apply flushing_inv ident left _ _ h
  intro path first target hflush
  obtain ⟨hafter, ⟨hcontents, hsame⟩ | ⟨-, hnone, -⟩⟩ := commit_flushing hflush
  · exact ⟨hcontents, hsame, hafter⟩
  · exact absurd hnone hagain

/-- A commit that succeeds gives the settings node the merge. -/
theorem commit_inv (contents : String → Option (Dict String String)) (ident : String)
    (left : List String) (path : String) (hflushing : (s.contexts ident).flushing = some path)
    (hshared : (s.contexts ident).contents = replay contents log)
    (h : StageInv t k rel views exit s log (.flushing ident left .settings))
    (hdone : (flushStep (s.contexts ident) .commit).flushing = none) :
    let x := flushStep (s.contexts ident) .commit
    let entry := NodeChange.flushed ident path (x.contents path)
    x.contents = replay contents (log ++ [entry]) ∧
      (ident ∉ log.filterMap NodeChange.ident? ∧ ∃ r, rel.relations.lookup ident = some r ∧
        WrittenBack t k r (views ident r) (replay contents log) path (x.contents path)) ∧
      StageInv t k rel views exit
        ⟨shareChange (Function.update s.contexts ident x) (some ident) path (x.contents path),
          .flushing ident left .config⟩ (log ++ [entry]) (.flushing ident left .config) := by
  intro x entry
  cases h with
  | flushing _ _ _ handled rest hmem hexit hkeys hhandled hleft hat =>
    obtain ⟨rfl, r, own, path', first, hr, hown, hpath, hwritten, hfirst, hsome, hflush⟩ := hat
    obtain rfl : path' = path := Option.some.inj (hsome.symm.trans hflushing)
    obtain ⟨hnot, hnew⟩ := ident_once ident left handled hkeys
    have hfresh : ident ∉ log.filterMap NodeChange.ident? := fun hin =>
      hnew (hhandled.only ident hin)
    have hidents : (log ++ [entry]).filterMap NodeChange.ident? =
        log.filterMap NodeChange.ident? ++ [ident] := by
      rw [List.filterMap_append]
      rfl
    obtain ⟨-, ⟨-, hsame⟩ | ⟨-, -, data, hcontents, hdata⟩⟩ := commit_flushing hflush
    · exact absurd (hdone.symm.trans (hsame.trans hflushing)) (by simp)
    · have hcontent : x.contents path' = some data := by
        rw [hcontents, Function.update_self]
      refine ⟨?_, ⟨hfresh, r, hr, hwritten, own, data, hown, hpath, hcontent, ?_⟩, ?_⟩
      · rw [replay_append, replay_flushed, ← hshared, hcontent]
        exact hcontents
      · rw [← hshared]
        refine hfirst.imp (fun hseen => ⟨first, hseen, hdata⟩) fun hedits => ⟨hedits, ?_⟩
        rw [hdata, hedits]
        exact threeWay_self first _
      · refine .flushing ident left .config (handled ++ [ident]) left hmem hexit ?_ ⟨?_, ?_⟩
          (fun i hi => ?_) rfl
        · rw [hkeys, List.append_assoc]
          rfl
        · intro i hi
          rw [hidents] at hi
          exact List.mem_append.mpr ((List.mem_append.mp hi).imp_left (hhandled.only i))
        · intro i hi r' hr' hw
          rw [hidents]
          exact List.mem_append.mpr ((List.mem_append.mp hi).imp_left
            fun hin => hhandled.written i hin r' hr' hw)
        · have hne : i ≠ ident := fun he => hnot (he ▸ hi)
          have hwait := update_waiting (s := s) ident i x s.stage hne (hleft i hi)
          exact shareChange_waiting (s := s) _ (some ident) path' _ _ i
            (fun he => hne (Option.some.inj he)) hwait

end steps

end Juju.Hooks

import Juju.Lib.Entries
import Juju.Unit.LoadedRuns

namespace Juju.Unit
open Juju.Base Juju.Lib

namespace FoundRelation

variable (r : FoundRelation)

/-- The synchronization of the workflow makes a watch. -/
def ReadsRole : Prop :=
  r.state ≠ some .departed ∧ (r.state = some .down → r.inflight = some .restart)

/-- A step of the synchronization comes after a hook: the one of a departure, or one of the
scheduler. -/
def WaitsForHook : Prop :=
  r.inflight = some .depart ∨ r.inflight = some .downDepart ∨ r.inflight = some .errorDepart ∨
    r.hookDue = true ∧ (r.inflight = some .stop ∨ r.inflight = some .error)

/-- The workflow is synchronized without a watch, and can be brought up later. -/
def StaysDown : Prop := r.state = some .down ∧ r.inflight = none

/-- `_add_relation` comes to its end. -/
structure Joinable (executing : Bool) : Prop where
  joins : r.joins = true
  role : r.ReadsRole → r.hasRole = true
  hook : executing = false → ¬ r.WaitsForHook

end FoundRelation

/-- The relations that are found do not keep `start` from its end. -/
structure FoundRelations.Startable (executing startRelations : Bool) (found : FoundRelations) :
    Prop where
  listed : ∀ r ∈ found.known, r.listed = true → r.Joinable executing
  added : ∀ r ∈ found.added, r.Joinable executing
  /-- A relation that is brought up has a role to be read. -/
  down : ∀ r ∈ found.known, r.listed = true → r.StaysDown →
    startRelations = true ∨ r.resolved = true ∧ (found.resolvedFirst = true ∨ r.notified = true) →
    r.hasRole = true
  addedDown : ∀ r ∈ found.added, r.StaysDown → r.resolved = true → found.resolvedFirst = false →
    r.hasRole = true
  /-- A relation that is gone is not brought up. -/
  gone : ∀ r ∈ found.known, r.listed = false →
    (startRelations = true → r.state ≠ some .down) ∧
    (found.resolvedFirst = true → r.resolved = true → r.state = some .up ∨ r.state = some .departed)
  /-- A relation that has to be departed has an executor for its hook. -/
  removed : ∀ r ∈ found.known, r.notified = false → executing = false →
    r.state = some .departed ∨ r.listed = false ∧ r.state = none

section tables

/-- The state of a workflow that has been synchronized. -/
def settledState (state : Option RelationState) (inflight : Option RelationTransition) :
    Option RelationState :=
  match inflight with
  | some t => some (relationTransition t).destination
  | none => if state = none then some .up else state

/-- What a synchronization needs and what it leaves, from the stored state and transition. -/
theorem synchronize_table (state : Option RelationState) (inflight : Option RelationTransition)
    (h : ∀ t, inflight = some t → (relationTransition t).source = state) :
    let ops := synchronizeRelation state inflight
    (LoadedWorkflow.makesWatch ops = true ↔
      state ≠ some .departed ∧ (state = some .down → inflight = some .restart)) ∧
    (WorkflowOp.executeHook ∈ ops ↔ inflight = some .depart ∨ inflight = some .downDepart ∨
      inflight = some .errorDepart) ∧
    (LoadedWorkflow.relocks (false, false) ops = true ↔
      inflight = some .depart ∨ inflight = some .stop ∨ inflight = some .error) ∧
    (ops.foldl RelationSide.perform ⟨state, inflight, false, false, false⟩).state =
      settledState state inflight ∧
    ((ops.foldl LoadedWorkflow.lockAfter (false, false)).2 = true →
      settledState state inflight = some .up) := by
  cases inflight with
  | none => cases state with
    | none => decide
    | some s => cases s <;> decide
  | some t =>
    obtain rfl := (h t rfl).symm
    cases t <;> decide

/-- A workflow that is synchronized is up, or departed, or has a watch, or else stays down. -/
theorem settled_table (state : Option RelationState) (inflight : Option RelationTransition)
    (h : ∀ t, inflight = some t → (relationTransition t).source = state) :
    (settledState state inflight = some .up ∨ settledState state inflight = some .departed ∨
      (state ≠ some .departed ∧ (state = some .down → inflight = some .restart)) ∨
      state = some .down ∧ inflight = none) ∧ settledState state inflight ≠ none := by
  cases inflight with
  | none => cases state with
    | none => decide
    | some s => cases s <;> decide
  | some t =>
    obtain rfl := (h t rfl).symm
    cases t <;> decide

/-- The ways up, from a state that is neither up nor departed. -/
theorem up_table (state : Option RelationState) (running : Bool) (hup : state ≠ some .up)
    (hdeparted : state ≠ some .departed) :
    let ops := transitionState state .up
    LoadedWorkflow.makesWatch ops = true ∧ WorkflowOp.executeHook ∉ ops ∧
    LoadedWorkflow.relocks (running, false) ops = false ∧
    ∀ side : RelationSide, (ops.foldl RelationSide.perform side).state = some .up := by
  cases state with
  | none => cases running <;> exact ⟨by decide, by decide, by decide, fun _ => rfl⟩
  | some s =>
    cases s with
    | up => exact absurd rfl hup
    | departed => exact absurd rfl hdeparted
    | down => cases running <;> exact ⟨by decide, by decide, by decide, fun _ => rfl⟩
    | error => cases running <;> exact ⟨by decide, by decide, by decide, fun _ => rfl⟩

theorem departed_table (state : Option RelationState) (running : Bool) :
    let ops := transitionState state .departed
    LoadedWorkflow.makesWatch ops = false ∧
    (WorkflowOp.executeHook ∈ ops ↔ state ≠ none ∧ state ≠ some .departed) ∧
    LoadedWorkflow.relocks (running, false) ops = false := by
  cases state with
  | none => cases running <;> decide
  | some s => cases running <;> cases s <;> decide

theorem stop_table (running held : Bool) :
    LoadedWorkflow.makesWatch (lifecycleStop true) = false ∧
    WorkflowOp.executeHook ∉ lifecycleStop true ∧
    LoadedWorkflow.relocks (running, held) (lifecycleStop true) = held ∧
    (lifecycleStop true).foldl LoadedWorkflow.lockAfter (running, held) = (false, false) := by
  cases running <;> cases held <;> decide

end tables

section workflows

variable (executing : Bool) (r : FoundRelation) (w w' : LoadedWorkflow)

/-- A hook that holds the run lock is one of a workflow that is up, at a stopped executor. -/
def LoadedWorkflow.Calm : Prop := w.held = true → executing = false ∧ w.side.state = some .up

theorem calm_free (h : LoadedWorkflow.Calm executing w)
    (hfree : executing = true ∨ w.side.state ≠ some .up) : w.held = false := by
  by_contra hheld
  obtain ⟨hexecuting, hup⟩ := h (by simpa using hheld)
  rcases hfree with hrunning | hdown
  · rw [hexecuting] at hrunning
    cases hrunning
  · exact hdown hup

theorem calm_of_tracks (lock : Bool × Bool) (h : LoadedWorkflow.Tracks executing w lock)
    (hup : lock.2 = true → w.side.state = some .up) : LoadedWorkflow.Calm executing w := by
  intro hheld
  rw [h.held, Bool.and_eq_true, Bool.and_eq_true, Bool.not_eq_true'] at hheld
  exact ⟨hheld.1.1, hup hheld.2⟩

/-- What `_add_relation` leaves. -/
structure Joined : Prop where
  relation : w.relation = r
  state : w.side.state = settledState r.state r.inflight
  watched : w.watched = true ↔ r.ReadsRole
  calm : LoadedWorkflow.Calm executing w

theorem workflow_tracks : LoadedWorkflow.Tracks executing r.workflow (false, false) :=
  ⟨rfl, (Bool.and_false _).symm⟩

theorem joinable_runs (h : r.Joinable executing) : LoadedWorkflow.Runs executing r.workflow
    (false, false) (synchronizeRelation r.state r.inflight) := by
  obtain ⟨hmakes, hhook, hlocks, -⟩ := synchronize_table r.state r.inflight r.recorded
  refine ⟨fun hyes => Or.inr (h.role (hmakes.mp hyes)), fun he hin => h.hook he ?_,
    fun he hdue => ?_⟩
  · rcases hhook.mp hin with hdep | hdep | hdep
    · exact Or.inl hdep
    · exact Or.inr (Or.inl hdep)
    · exact Or.inr (Or.inr (Or.inl hdep))
  · by_contra hrelocks
    apply h.hook he
    rcases hlocks.mp (by simpa using hrelocks) with hdep | hstop | herror
    · exact Or.inl hdep
    · exact Or.inr (Or.inr (Or.inr ⟨hdue, Or.inl hstop⟩))
    · exact Or.inr (Or.inr (Or.inr ⟨hdue, Or.inr herror⟩))

theorem addRelation_returns (h : r.Joinable executing) :
    ∃ w, UnitLifecycle.addRelation executing r = .ok w := by
  obtain ⟨w, hw, -⟩ := LoadedWorkflow.run_ok executing r.workflow (false, false) _
    (workflow_tracks executing r) (joinable_runs executing r h)
  exact ⟨w, by rw [UnitLifecycle.addRelation, if_pos h.joins, hw]⟩

theorem addRelation_joined (h : UnitLifecycle.addRelation executing r = .ok w) :
    r.Joinable executing ∧ Joined executing r w := by
  unfold UnitLifecycle.addRelation at h
  split at h
  · rename_i hjoins
    obtain ⟨hmakes, hhook, hlocks, hstate, hlast⟩ :=
      synchronize_table r.state r.inflight r.recorded
    have htracks := workflow_tracks executing r
    have hruns := LoadedWorkflow.run_needs executing r.workflow w (false, false) _ htracks h
    have hran := LoadedWorkflow.run_ran executing r.workflow w (false, false) _ htracks h
    have hsettled : w.side.state = settledState r.state r.inflight := by
      rw [hran.side]
      exact hstate
    refine ⟨⟨hjoins, fun hreads => ?_, fun he hwaits => ?_⟩, hran.relation, hsettled, ?_, ?_⟩
    · exact (hruns.role (hmakes.mpr hreads)).resolve_left Bool.false_ne_true
    · have hnohook := fun hdep => hruns.hook he (hhook.mpr hdep)
      rcases hwaits with hdep | hdep | hdep | ⟨hdue, hlate⟩
      · exact hnohook (Or.inl hdep)
      · exact hnohook (Or.inr (Or.inl hdep))
      · exact hnohook (Or.inr (Or.inr hdep))
      · have hfree := hruns.free he hdue
        rw [hlocks.mpr (Or.inr hlate)] at hfree
        cases hfree
    · rw [hran.watched]
      exact hmakes
    · exact calm_of_tracks executing w _ hran.lock fun hheld => hsettled.trans (hlast hheld)
  · cases h

/-- A workflow that is not up is brought up by a watch, which needs the role of the unit. -/
def LoadedWorkflow.CanRise : Prop :=
  w.side.state = some .departed ∨ w.watched = true ∨ w.relation.hasRole = true

/-- What it leaves to be brought up. -/
structure Risen : Prop where
  relation : w'.relation = w.relation
  state : w'.side.state = if w.side.state = some .departed then some .departed else some .up
  watched : w.watched = true → w'.watched = true
  calm : LoadedWorkflow.Calm executing w'

variable (hcalm : LoadedWorkflow.Calm executing w) (hup : w.side.state ≠ some .up)
include hcalm hup

theorem rise_returns (h : w.CanRise) : ∃ w', w.transitionTo executing .up = .ok w' := by
  have hheld := calm_free executing w hcalm (Or.inr hup)
  have htracks := LoadedWorkflow.tracks_free executing w hheld
  by_cases hdeparted : w.side.state = some .departed
  · exact ⟨w, by rw [LoadedWorkflow.transitionTo, hdeparted]; rfl⟩
  · obtain ⟨-, hhook, hfree, -⟩ := up_table w.side.state w.side.executing hup hdeparted
    obtain ⟨w', hw', -⟩ := LoadedWorkflow.run_ok executing w _ _ htracks
      ⟨fun _ => h.resolve_left hdeparted, fun _ => hhook, fun _ _ => hfree⟩
    exact ⟨w', hw'⟩

theorem rise_risen (h : w.transitionTo executing .up = .ok w') :
    w.CanRise ∧ Risen executing w w' := by
  have hheld := calm_free executing w hcalm (Or.inr hup)
  have htracks := LoadedWorkflow.tracks_free executing w hheld
  by_cases hdeparted : w.side.state = some .departed
  · rw [LoadedWorkflow.transitionTo, hdeparted] at h
    obtain rfl := Except.ok.inj h
    exact ⟨Or.inl hdeparted, rfl, by rw [if_pos hdeparted, hdeparted], id, hcalm⟩
  · obtain ⟨hmakes, hhook, hfree, hstate⟩ :=
      up_table w.side.state w.side.executing hup hdeparted
    have hruns := LoadedWorkflow.run_needs executing w w' _ _ htracks h
    have hran := LoadedWorkflow.run_ran executing w w' _ _ htracks h
    have hrisen : w'.side.state = some .up := by
      rw [hran.side]
      exact hstate w.side
    refine ⟨Or.inr (hruns.role hmakes), hran.relation, ?_, fun hw => ?_, ?_⟩
    · rw [if_neg hdeparted, hrisen]
    · rw [hran.watched, hw]
      rfl
    · exact calm_of_tracks executing w' _ hran.lock fun _ => hrisen

end workflows

section callbacks

variable (executing : Bool) (w w' : LoadedWorkflow)

/-- A workflow that need not be departed, or for which the executor runs the hook. -/
def LoadedWorkflow.CanDepart : Prop :=
  executing = true ∨ w.side.state = none ∨ w.side.state = some .departed

theorem relationStop_returns (h : w.held = false) :
    ∃ w', w.run executing (lifecycleStop true) = .ok w' := by
  obtain ⟨hmakes, hhook, hlocks, -⟩ := stop_table w.side.executing false
  obtain ⟨w', hw', -⟩ := LoadedWorkflow.run_ok executing w _ (lifecycleStop true)
    (LoadedWorkflow.tracks_free executing w h)
    ⟨fun hyes => (by rw [hmakes] at hyes; cases hyes), fun _ => hhook, fun _ _ => hlocks⟩
  exact ⟨w', hw'⟩

theorem relationStop_stopped (h : w.run executing (lifecycleStop true) = .ok w') :
    w.held = false ∧ w'.held = false ∧ w'.side.state = w.side.state := by
  have hheld : w.held = false := by
    cases hheld : w.held with
    | false => rfl
    | true =>
      rw [LoadedWorkflow.run, lifecycleStop, List.foldlM_cons] at h
      obtain ⟨w₁, hfirst, -⟩ := except_bind_ok _ _ _ h
      simp [LoadedWorkflow.perform, hheld] at hfirst
  have hran := LoadedWorkflow.run_ran executing w w' _ _
    (LoadedWorkflow.tracks_free executing w hheld) h
  obtain ⟨-, -, -, hlast⟩ := stop_table w.side.executing false
  have hlock := hran.lock
  rw [hlast] at hlock
  exact ⟨hheld, by rw [hlock.held, Bool.and_false], by rw [hran.side]; rfl⟩

theorem depart_iff (h : w.held = false) :
    (∃ w', w.transitionTo executing .departed = .ok w') ↔ w.CanDepart executing := by
  obtain ⟨hmakes, hhook, hfree⟩ := departed_table w.side.state w.side.executing
  have htracks := LoadedWorkflow.tracks_free executing w h
  constructor
  · rintro ⟨w', hw'⟩
    have hruns := LoadedWorkflow.run_needs executing w w' _ _ htracks hw'
    cases hexecuting : executing with
    | true => exact Or.inl rfl
    | false =>
      by_contra hnot
      rw [LoadedWorkflow.CanDepart, not_or, not_or] at hnot
      exact hruns.hook hexecuting (hhook.mpr ⟨hnot.2.1, hnot.2.2⟩)
  · intro hcan
    have hruns : LoadedWorkflow.Runs executing w (w.side.executing, false)
        (transitionState w.side.state .departed) := by
      refine ⟨fun hyes => ?_, fun he hin => ?_, fun _ _ => hfree⟩
      · rw [hmakes] at hyes
        cases hyes
      · obtain ⟨hsome, hlive⟩ := hhook.mp hin
        rcases hcan with hrunning | hnone | hdeparted
        · rw [he] at hrunning
          cases hrunning
        · exact hsome hnone
        · exact hlive hdeparted
    obtain ⟨w', hw', -⟩ := LoadedWorkflow.run_ok executing w _ _ htracks hruns
    exact ⟨w', hw'⟩

theorem canDepart_free (hcalm : w.Calm executing) (h : w.CanDepart executing) : w.held = false := by
  apply calm_free executing w hcalm
  refine h.imp_right fun hor hup => ?_
  rcases hor with hnone | hdeparted
  · rw [hnone] at hup
    cases hup
  · rw [hdeparted] at hup
    cases hup

/-- What the callback for the relations of the service needs. -/
structure ChangesFine (added : List FoundRelation) (workflows : List LoadedWorkflow) : Prop where
  removed : ∀ w ∈ workflows, w.relation.notified = false → w.CanDepart executing
  added : ∀ r ∈ added, r.Joinable executing

variable (added : List FoundRelation) (workflows workflows' : List LoadedWorkflow)

theorem processServiceChanges_returns (hcalm : ∀ w ∈ workflows, w.Calm executing)
    (h : ChangesFine executing added workflows) :
    ∃ ws, UnitLifecycle.processServiceChanges executing added workflows = .ok ws := by
  have hremoved (w : LoadedWorkflow)
      (hw : w ∈ workflows.filter fun w => !w.relation.notified) : w.CanDepart executing := by
    obtain ⟨hin, hnot⟩ := List.mem_filter.mp hw
    exact h.removed w hin (by simpa using hnot)
  obtain ⟨stopped, hstopped⟩ := Entries.mapM_returns
    (fun w : LoadedWorkflow => w.run executing (lifecycleStop true)) _ fun w hw =>
      relationStop_returns executing w
        (canDepart_free executing w (hcalm w (List.mem_filter.mp hw).1) (hremoved w hw))
  obtain ⟨departed, hdeparted⟩ := Entries.mapM_returns
    (fun w : LoadedWorkflow => w.transitionTo executing .departed) stopped (by
      intro w hw
      obtain ⟨w₀, hw₀, hstop⟩ := Entries.mapM_mem_right _ _ _ hstopped w hw
      obtain ⟨-, hheld, hstate⟩ := relationStop_stopped executing w₀ w hstop
      have hcan := hremoved w₀ hw₀
      rw [LoadedWorkflow.CanDepart, ← hstate] at hcan
      exact (depart_iff executing w hheld).mpr hcan)
  obtain ⟨joined, hjoined⟩ := Entries.mapM_returns (UnitLifecycle.addRelation executing) added
    fun r hr => addRelation_returns executing r (h.added r hr)
  refine ⟨workflows.filter (fun w => w.relation.notified) ++ joined, ?_⟩
  exact (except_bind_of_ok _ _ _ hstopped).trans ((except_bind_of_ok _ _ _ hdeparted).trans
    (except_bind_of_ok _ _ _ hjoined))

/-- What the callback for the relations of the service leaves. -/
structure ChangesLeave : Prop where
  origin : ∀ w ∈ workflows', w ∈ workflows ∧ w.relation.notified = true ∨
    ∃ r ∈ added, Joined executing r w
  kept : ∀ w ∈ workflows, w.relation.notified = true → w ∈ workflows'
  joined : ∀ r ∈ added, ∃ w ∈ workflows', Joined executing r w

theorem processServiceChanges_needs
    (h : UnitLifecycle.processServiceChanges executing added workflows = .ok workflows') :
    ChangesFine executing added workflows ∧ ChangesLeave executing added workflows workflows' := by
  obtain ⟨stopped, hstopped, h⟩ := except_bind_ok _ _ _ h
  obtain ⟨departed, hdeparted, h⟩ := except_bind_ok _ _ _ h
  obtain ⟨joined, hjoined, h⟩ := except_bind_ok _ _ _ h
  obtain rfl := Except.ok.inj h
  refine ⟨⟨fun w hw hnot => ?_, fun r hr => ?_⟩, fun w hw => ?_, fun w hw hnotified => ?_,
    fun r hr => ?_⟩
  · have hin : w ∈ workflows.filter fun w => !w.relation.notified :=
      List.mem_filter.mpr ⟨hw, by rw [hnot]; rfl⟩
    obtain ⟨w₁, hw₁, hstop⟩ := Entries.mapM_mem_left _ _ _ hstopped w hin
    obtain ⟨w₂, -, hdepart⟩ := Entries.mapM_mem_left _ _ _ hdeparted w₁ hw₁
    obtain ⟨-, hheld, hstate⟩ := relationStop_stopped executing w w₁ hstop
    have hcan := (depart_iff executing w₁ hheld).mp ⟨w₂, hdepart⟩
    rwa [LoadedWorkflow.CanDepart, hstate] at hcan
  · obtain ⟨w, -, hjoin⟩ := Entries.mapM_mem_left _ _ _ hjoined r hr
    exact (addRelation_joined executing r w hjoin).1
  · rcases List.mem_append.mp hw with hin | hin
    · exact Or.inl (List.mem_filter.mp hin)
    · obtain ⟨r, hr, hjoin⟩ := Entries.mapM_mem_right _ _ _ hjoined w hin
      exact Or.inr ⟨r, hr, (addRelation_joined executing r w hjoin).2⟩
  · exact List.mem_append_left _ (List.mem_filter.mpr ⟨hw, hnotified⟩)
  · obtain ⟨w, hw, hjoin⟩ := Entries.mapM_mem_left _ _ _ hjoined r hr
    exact ⟨w, List.mem_append_right _ hw, (addRelation_joined executing r w hjoin).2⟩

/-- What a relation needs when its mark is processed. -/
def LoadedWorkflow.CanResolve : Prop :=
  w.relation.resolved = true → w.side.state ≠ some .up → w.CanRise

theorem resolveRelation_returns (hcalm : w.Calm executing) (h : w.CanResolve) :
    ∃ w', UnitLifecycle.resolveRelation executing w = .ok w' := by
  unfold UnitLifecycle.resolveRelation
  split
  · rename_i hdue
    exact rise_returns executing w hcalm hdue.2 (h hdue.1 hdue.2)
  · exact ⟨w, rfl⟩

/-- What the callback for the resolved relations leaves of a workflow. -/
structure Resolved : Prop where
  relation : w'.relation = w.relation
  state : w'.side.state = w.side.state ∨
    w.relation.resolved = true ∧ w.side.state ≠ some .departed ∧ w'.side.state = some .up
  calm : w'.Calm executing

theorem resolveRelation_resolved (hcalm : w.Calm executing)
    (h : UnitLifecycle.resolveRelation executing w = .ok w') :
    w.CanResolve ∧ Resolved executing w w' := by
  unfold UnitLifecycle.resolveRelation at h
  split at h
  · rename_i hdue
    obtain ⟨hrise, hrisen⟩ := rise_risen executing w w' hcalm hdue.2 h
    refine ⟨fun _ _ => hrise, hrisen.relation, ?_, hrisen.calm⟩
    by_cases hdeparted : w.side.state = some .departed
    · left
      rw [hrisen.state, if_pos hdeparted, hdeparted]
    · exact Or.inr ⟨hdue.1, hdeparted, by rw [hrisen.state, if_neg hdeparted]⟩
  · rename_i hdue
    obtain rfl := Except.ok.inj h
    exact ⟨fun hresolved hup => absurd ⟨hresolved, hup⟩ hdue, rfl, Or.inl rfl, hcalm⟩

/-- What the first calls of the callbacks need. -/
structure CallsFine (found : FoundRelations) : Prop where
  changes : ChangesFine executing found.added workflows
  resolve : ∀ w ∈ workflows, found.resolvedFirst = true ∨ w.relation.notified = true → w.CanResolve
  addedDown : ∀ r ∈ found.added, r.StaysDown → r.resolved = true → found.resolvedFirst = false →
    r.hasRole = true

/-- A relation without a state is one that is gone. -/
def LoadedWorkflow.NoStateGone : Prop := w.side.state = none → ¬ w.CanRise

/-- Bringing up what is resolved leaves no more to be departed. -/
theorem canDepart_resolved (hgone : w.NoStateGone) (hcan : w.CanResolve)
    (h : Resolved executing w w') : w'.CanDepart executing ↔ w.CanDepart executing := by
  unfold LoadedWorkflow.CanDepart
  rcases h.state with hsame | ⟨hresolved, hlive, hup⟩
  · rw [hsame]
  · have hsome : w.side.state ≠ none := by
      intro hnone
      exact hgone hnone (hcan hresolved (by rw [hnone]; simp))
    simp [hup, hsome, hlive]

/-- A workflow that is added can be brought up unless it stays down without a role. -/
theorem joined_canRise (r : FoundRelation) (h : Joined executing r w) :
    (w.side.state ≠ some .up → w.CanRise) ↔ (r.StaysDown → r.hasRole = true) := by
  unfold LoadedWorkflow.CanRise
  rw [h.state, h.watched, h.relation]
  constructor
  · rintro hrise ⟨hstate, hinflight⟩
    have hdown : settledState r.state r.inflight = some .down := by rw [hstate, hinflight]; rfl
    rw [hdown] at hrise
    rcases hrise (by simp) with hdeparted | ⟨-, hreads⟩ | hrole
    · cases hdeparted
    · rw [hinflight] at hreads
      cases hreads hstate
    · exact hrole
  · intro hrole hup
    rcases (settled_table r.state r.inflight r.recorded).1 with h' | h' | h' | h'
    · exact absurd h' hup
    · exact Or.inl h'
    · exact Or.inr (Or.inl h')
    · exact Or.inr (Or.inr (hrole h'))

theorem initialCalls_needs (found : FoundRelations) (hcalm : ∀ w ∈ workflows, w.Calm executing)
    (hgone : ∀ w ∈ workflows, w.NoStateGone)
    (h : UnitLifecycle.initialCalls executing found workflows = .ok ()) :
    CallsFine executing workflows found := by
  unfold UnitLifecycle.initialCalls at h
  cases hfirst : found.resolvedFirst with
  | true =>
    rw [hfirst, if_pos rfl] at h
    obtain ⟨resolved, hresolved, h⟩ := except_bind_ok _ _ _ h
    obtain ⟨rest, hrest, -⟩ := except_bind_ok _ _ _ h
    obtain ⟨hfine, -⟩ := processServiceChanges_needs executing found.added resolved rest hrest
    refine ⟨⟨fun w hw hnot => ?_, hfine.added⟩, fun w hw _ => ?_, fun r _ _ _ hlater => ?_⟩
    · obtain ⟨w', hw', hresolve⟩ := Entries.mapM_mem_left _ _ _ hresolved w hw
      obtain ⟨hcan, hleaves⟩ := resolveRelation_resolved executing w w' (hcalm w hw) hresolve
      have hdepart := hfine.removed w' hw' (by rw [hleaves.relation, hnot])
      exact (canDepart_resolved executing w w' (hgone w hw) hcan hleaves).mp hdepart
    · obtain ⟨w', -, hresolve⟩ := Entries.mapM_mem_left _ _ _ hresolved w hw
      exact (resolveRelation_resolved executing w w' (hcalm w hw) hresolve).1
    · rw [hfirst] at hlater
      cases hlater
  | false =>
    rw [hfirst, if_neg Bool.false_ne_true] at h
    obtain ⟨changed, hchanged, h⟩ := except_bind_ok _ _ _ h
    obtain ⟨rest, hrest, -⟩ := except_bind_ok _ _ _ h
    obtain ⟨hfine, hleave⟩ :=
      processServiceChanges_needs executing found.added workflows changed hchanged
    have hcan (w : LoadedWorkflow) (hw : w ∈ changed) (hcalm : w.Calm executing) :
        w.CanResolve := by
      obtain ⟨w', -, hresolve⟩ := Entries.mapM_mem_left _ _ _ hrest w hw
      exact (resolveRelation_resolved executing w w' hcalm hresolve).1
    refine ⟨hfine, fun w hw hor => ?_, fun r hr hdown hresolved _ => ?_⟩
    · rw [hfirst] at hor
      have hnotified := hor.resolve_left Bool.false_ne_true
      exact hcan w (hleave.kept w hw hnotified) (hcalm w hw)
    · obtain ⟨w, hw, hjoined⟩ := hleave.joined r hr
      have hrise := hcan w hw hjoined.calm (by rw [hjoined.relation, hresolved])
      exact (joined_canRise executing w r hjoined).mp hrise hdown

theorem initialCalls_returns (found : FoundRelations) (hcalm : ∀ w ∈ workflows, w.Calm executing)
    (hgone : ∀ w ∈ workflows, w.NoStateGone) (h : CallsFine executing workflows found) :
    UnitLifecycle.initialCalls executing found workflows = .ok () := by
  unfold UnitLifecycle.initialCalls
  cases hfirst : found.resolvedFirst with
  | true =>
    rw [if_pos rfl]
    obtain ⟨resolved, hresolved⟩ := Entries.mapM_returns (UnitLifecycle.resolveRelation executing)
      workflows fun w hw => resolveRelation_returns executing w (hcalm w hw)
        (h.resolve w hw (Or.inl hfirst))
    have hleaves (w' : LoadedWorkflow) (hw' : w' ∈ resolved) :
        ∃ w ∈ workflows, w.CanResolve ∧ Resolved executing w w' := by
      obtain ⟨w, hw, hresolve⟩ := Entries.mapM_mem_right _ _ _ hresolved w' hw'
      exact ⟨w, hw, resolveRelation_resolved executing w w' (hcalm w hw) hresolve⟩
    obtain ⟨rest, hrest⟩ := processServiceChanges_returns executing found.added resolved
      (fun w' hw' => by
        obtain ⟨w, -, -, hleave⟩ := hleaves w' hw'
        exact hleave.calm)
      ⟨fun w' hw' hnot => by
        obtain ⟨w, hw, hcan, hleave⟩ := hleaves w' hw'
        rw [hleave.relation] at hnot
        exact (canDepart_resolved executing w w' (hgone w hw) hcan hleave).mpr
          (h.changes.removed w hw hnot), h.changes.added⟩
    exact (except_bind_of_ok _ _ _ hresolved).trans (except_bind_of_ok _ _ _ hrest)
  | false =>
    rw [if_neg Bool.false_ne_true]
    obtain ⟨changed, hchanged⟩ :=
      processServiceChanges_returns executing found.added workflows hcalm h.changes
    obtain ⟨-, hleave⟩ :=
      processServiceChanges_needs executing found.added workflows changed hchanged
    obtain ⟨rest, hrest⟩ := Entries.mapM_returns (UnitLifecycle.resolveRelation executing) changed (by
      intro w hw
      rcases hleave.origin w hw with ⟨hin, hnotified⟩ | ⟨r, hr, hjoined⟩
      · exact resolveRelation_returns executing w (hcalm w hin)
          (h.resolve w hin (Or.inr hnotified))
      · apply resolveRelation_returns executing w hjoined.calm
        intro hresolved
        rw [hjoined.relation] at hresolved
        exact (joined_canRise executing w r hjoined).mpr
          fun hdown => h.addedDown r hr hdown hresolved hfirst)
    exact (except_bind_of_ok _ _ _ hchanged).trans (except_bind_of_ok _ _ _ hrest)

end callbacks

section start

variable (executing startRelations : Bool) (r : FoundRelation) (w w' : LoadedWorkflow)

/-- What is known of a relation of the file when it is loaded. -/
structure Loaded : Prop where
  relation : w.relation = r
  calm : w.Calm executing
  listed : r.listed = true → Joined executing r w
  gone : r.listed = false → w.side.state = r.state ∧ w.watched = false

theorem loadRelation_returns (h : r.listed = true → r.Joinable executing) :
    ∃ w, UnitLifecycle.loadRelation executing r = .ok w := by
  unfold UnitLifecycle.loadRelation
  split
  · rename_i hlisted
    exact addRelation_returns executing r (h hlisted)
  · exact ⟨_, rfl⟩

theorem loadRelation_loaded (h : UnitLifecycle.loadRelation executing r = .ok w) :
    (r.listed = true → r.Joinable executing) ∧ Loaded executing r w := by
  unfold UnitLifecycle.loadRelation at h
  split at h
  · rename_i hlisted
    obtain ⟨hjoinable, hjoined⟩ := addRelation_joined executing r w h
    refine ⟨fun _ => hjoinable, hjoined.relation, hjoined.calm, fun _ => hjoined, fun hgone => ?_⟩
    rw [hlisted] at hgone
    cases hgone
  · rename_i hgone
    obtain rfl := Except.ok.inj h
    refine ⟨fun hlisted => absurd hlisted hgone, rfl, ?_, fun hlisted => absurd hlisted hgone,
      fun _ => ⟨rfl, rfl⟩⟩
    intro hheld
    cases hheld

/-- What `start` needs to bring a relation up that is down. -/
def LoadedWorkflow.CanRestart : Prop := w.side.state = some .down → w.CanRise

theorem restartRelation_returns (hcalm : w.Calm executing) (h : w.CanRestart) :
    ∃ w', UnitLifecycle.restartRelation executing w = .ok w' := by
  unfold UnitLifecycle.restartRelation
  split
  · rename_i hdown
    exact rise_returns executing w hcalm (by rw [hdown]; simp) (h hdown)
  · exact ⟨w, rfl⟩

/-- What it leaves of the workflow. -/
structure Restarted : Prop where
  relation : w'.relation = w.relation
  calm : w'.Calm executing
  state : w'.side.state = if w.side.state = some .down then some .up else w.side.state
  same : w.side.state ≠ some .down → w' = w

theorem restartRelation_restarted (hcalm : w.Calm executing)
    (h : UnitLifecycle.restartRelation executing w = .ok w') :
    w.CanRestart ∧ Restarted executing w w' := by
  unfold UnitLifecycle.restartRelation at h
  split at h
  · rename_i hdown
    obtain ⟨hrise, hrisen⟩ := rise_risen executing w w' hcalm (by rw [hdown]; simp) h
    refine ⟨fun _ => hrise, hrisen.relation, hrisen.calm, ?_, fun hup => absurd hdown hup⟩
    rw [hrisen.state, hdown]
    rfl
  · rename_i hdown
    obtain rfl := Except.ok.inj h
    exact ⟨fun hnow => absurd hnow hdown, rfl, hcalm, (if_neg hdown).symm, fun _ => rfl⟩

/-- What `start` needs of a relation of the file before it makes its watches. -/
structure FoundRelation.Loadable : Prop where
  joinable : r.listed = true → r.Joinable executing
  down : startRelations = true → r.listed = true → r.StaysDown → r.hasRole = true
  gone : startRelations = true → r.listed = false → r.state ≠ some .down

/-- What is known of its workflow when it makes them. -/
structure Watchable : Prop where
  relation : w.relation = r
  calm : w.Calm executing
  stated : r.listed = true → w.side.state ≠ none
  rise : r.listed = true → ((w.side.state ≠ some .up → w.CanRise) ↔
    (startRelations = false → r.StaysDown → r.hasRole = true))
  departed : r.listed = true → executing = false → startRelations = false →
    (w.side.state = some .departed ↔ r.state = some .departed)
  gone : r.listed = false → w.side.state = r.state ∧ w.watched = false

/-- A synchronization that runs no hook departs nothing. -/
theorem settled_departed (hjoinable : r.Joinable false) :
    settledState r.state r.inflight = some .departed ↔ r.state = some .departed := by
  have hnowait := hjoinable.hook rfl
  unfold FoundRelation.WaitsForHook at hnowait
  cases hinflight : r.inflight with
  | none => cases hstate : r.state with
    | none => decide
    | some s => cases s <;> decide
  | some t =>
    rw [hinflight] at hnowait
    rw [(r.recorded t hinflight).symm]
    cases t <;> first | decide | exact absurd (by simp) hnowait

/-- A workflow that stays down is down, without a watch. -/
theorem staysDown_loaded (h : Joined executing r w) (hdown : r.StaysDown) :
    w.side.state = some .down ∧ w.watched = false := by
  obtain ⟨hstate, hinflight⟩ := hdown
  refine ⟨by rw [h.state, hstate, hinflight]; rfl, ?_⟩
  rw [← Bool.not_eq_true, h.watched]
  rintro ⟨-, hreads⟩
  rw [hinflight] at hreads
  cases hreads hstate

theorem watchable_loaded (h : Loaded executing r w)
    (hjoinable : r.listed = true → r.Joinable executing) :
    r.Loadable executing false ∧ Watchable executing false r w := by
  refine ⟨⟨hjoinable, fun hstart => absurd hstart Bool.false_ne_true,
    fun hstart => absurd hstart Bool.false_ne_true⟩, h.relation, h.calm, fun hlisted => ?_,
    fun hlisted => ?_, fun hlisted he _ => ?_, h.gone⟩
  · rw [(h.listed hlisted).state]
    exact (settled_table r.state r.inflight r.recorded).2
  · rw [joined_canRise executing w r (h.listed hlisted)]
    exact ⟨fun hrole _ => hrole, fun hrole => hrole rfl⟩
  · subst he
    rw [(h.listed hlisted).state]
    exact settled_departed r (hjoinable hlisted)

theorem watchable_restarted (h : Loaded executing r w)
    (hjoinable : r.listed = true → r.Joinable executing) (hcan : w.CanRestart)
    (hrestarted : Restarted executing w w') :
    r.Loadable executing true ∧ Watchable executing true r w' := by
  have hgone (hgone : r.listed = false) : w.side.state ≠ some .down := by
    intro hdown
    rcases hcan hdown with hdeparted | hwatched | hrole
    · rw [hdown] at hdeparted
      cases hdeparted
    · rw [(h.gone hgone).2] at hwatched
      cases hwatched
    · rw [h.relation] at hrole
      rw [r.role_listed hrole] at hgone
      cases hgone
  have hsame (hlisted : r.listed = true) : w.side.state ≠ none := by
    rw [(h.listed hlisted).state]
    exact (settled_table r.state r.inflight r.recorded).2
  refine ⟨⟨hjoinable, fun _ hlisted hdown => ?_, fun _ hlost => ?_⟩,
    hrestarted.relation.trans h.relation, hrestarted.calm, fun hlisted => ?_,
    fun hlisted => ⟨fun _ hstart => absurd hstart.symm Bool.false_ne_true, fun _ hup => ?_⟩,
    fun _ _ hstart => absurd hstart.symm Bool.false_ne_true, fun hlost => ?_⟩
  · obtain ⟨hstate, hunwatched⟩ := staysDown_loaded executing r w (h.listed hlisted) hdown
    rcases hcan hstate with hdeparted | hwatched | hrole
    · rw [hstate] at hdeparted
      cases hdeparted
    · rw [hunwatched] at hwatched
      cases hwatched
    · rwa [h.relation] at hrole
  · rw [← (h.gone hlost).1]
    exact hgone hlost
  · rw [hrestarted.state]
    split
    · simp
    · exact hsame hlisted
  · have hnotDown : w.side.state ≠ some .down := by
      intro hdown
      rw [hrestarted.state, if_pos hdown] at hup
      exact hup rfl
    rw [hrestarted.same hnotDown] at hup ⊢
    refine (joined_canRise executing w r (h.listed hlisted)).mpr (fun hdown => ?_) hup
    exact absurd (staysDown_loaded executing r w (h.listed hlisted) hdown).1 hnotDown
  · rw [hrestarted.same (hgone hlost)]
    exact h.gone hlost

theorem loadRelations_needs (known : List FoundRelation) (workflows : List LoadedWorkflow)
    (h : UnitLifecycle.loadRelations executing startRelations known = .ok workflows) :
    (∀ r ∈ known, r.Loadable executing startRelations ∧
      ∃ w ∈ workflows, Watchable executing startRelations r w) ∧
    ∀ w ∈ workflows, ∃ r ∈ known, Watchable executing startRelations r w := by
  obtain ⟨loaded, hloaded, h⟩ := except_bind_ok _ _ _ h
  cases startRelations with
  | false =>
    obtain rfl := Except.ok.inj h
    refine ⟨fun r hr => ?_, fun w hw => ?_⟩
    · obtain ⟨w, hw, hload⟩ := Entries.mapM_mem_left _ _ _ hloaded r hr
      obtain ⟨hjoinable, hleft⟩ := loadRelation_loaded executing r w hload
      obtain ⟨hfine, hwatchable⟩ := watchable_loaded executing r w hleft hjoinable
      exact ⟨hfine, w, hw, hwatchable⟩
    · obtain ⟨r, hr, hload⟩ := Entries.mapM_mem_right _ _ _ hloaded w hw
      obtain ⟨hjoinable, hleft⟩ := loadRelation_loaded executing r w hload
      exact ⟨r, hr, (watchable_loaded executing r w hleft hjoinable).2⟩
  | true =>
    refine ⟨fun r hr => ?_, fun w hw => ?_⟩
    · obtain ⟨w, hw, hload⟩ := Entries.mapM_mem_left _ _ _ hloaded r hr
      obtain ⟨w', hw', hrestart⟩ := Entries.mapM_mem_left _ _ _ h w hw
      obtain ⟨hjoinable, hleft⟩ := loadRelation_loaded executing r w hload
      obtain ⟨hcan, hleft'⟩ := restartRelation_restarted executing w w' hleft.calm hrestart
      obtain ⟨hfine, hwatchable⟩ :=
        watchable_restarted executing r w w' hleft hjoinable hcan hleft'
      exact ⟨hfine, w', hw', hwatchable⟩
    · obtain ⟨w₀, hw₀, hrestart⟩ := Entries.mapM_mem_right _ _ _ h w hw
      obtain ⟨r, hr, hload⟩ := Entries.mapM_mem_right _ _ _ hloaded w₀ hw₀
      obtain ⟨hjoinable, hleft⟩ := loadRelation_loaded executing r w₀ hload
      obtain ⟨hcan, hleft'⟩ := restartRelation_restarted executing w₀ w hleft.calm hrestart
      exact ⟨r, hr, (watchable_restarted executing r w₀ w hleft hjoinable hcan hleft').2⟩

theorem loadRelations_returns (known : List FoundRelation)
    (h : ∀ r ∈ known, r.Loadable executing startRelations) :
    ∃ ws, UnitLifecycle.loadRelations executing startRelations known = .ok ws := by
  obtain ⟨loaded, hloaded⟩ := Entries.mapM_returns (UnitLifecycle.loadRelation executing) known
    fun r hr => loadRelation_returns executing r (h r hr).joinable
  cases hstart : startRelations with
  | false => exact ⟨loaded, (except_bind_of_ok _ _ _ hloaded).trans rfl⟩
  | true =>
    obtain ⟨workflows, hrestarted⟩ := Entries.mapM_returns
      (UnitLifecycle.restartRelation executing) loaded (by
        intro w hw
        obtain ⟨r, hr, hload⟩ := Entries.mapM_mem_right _ _ _ hloaded w hw
        obtain ⟨-, hleft⟩ := loadRelation_loaded executing r w hload
        apply restartRelation_returns executing w hleft.calm
        intro hdown
        cases hlisted : r.listed with
        | false =>
          rw [(hleft.gone hlisted).1] at hdown
          exact absurd hdown ((h r hr).gone hstart hlisted)
        | true =>
          refine (joined_canRise executing w r (hleft.listed hlisted)).mpr
            ((h r hr).down hstart hlisted) ?_
          rw [hdown]
          simp)
    exact ⟨workflows, (except_bind_of_ok _ _ _ hloaded).trans hrestarted⟩

theorem watchable_canDepart (hexecutes : startRelations = true → executing = true)
    (h : Watchable executing startRelations r w) : w.CanDepart executing ↔
      (executing = false → r.state = some .departed ∨ r.listed = false ∧ r.state = none) := by
  unfold LoadedWorkflow.CanDepart
  cases hexecuting : executing with
  | true => exact ⟨fun _ he => absurd he.symm Bool.false_ne_true, fun _ => Or.inl rfl⟩
  | false =>
    have hstart : startRelations = false := by
      cases hstart : startRelations with
      | false => rfl
      | true =>
        rw [hexecutes hstart] at hexecuting
        cases hexecuting
    cases hlisted : r.listed with
    | true =>
      have hstated := h.stated hlisted
      have hdeparted := h.departed hlisted hexecuting hstart
      simp [hstated, hdeparted]
    | false =>
      rw [(h.gone hlisted).1]
      simp [or_comm]

theorem watchable_canResolve (h : Watchable executing startRelations r w) : w.CanResolve ↔
    (r.resolved = true →
      (r.listed = true → startRelations = false → r.StaysDown → r.hasRole = true) ∧
      (r.listed = false → r.state = some .up ∨ r.state = some .departed)) := by
  unfold LoadedWorkflow.CanResolve
  rw [h.relation]
  cases hlisted : r.listed with
  | true =>
    have hrise := h.rise hlisted
    simp [hrise]
  | false =>
    obtain ⟨hstate, hunwatched⟩ := h.gone hlisted
    have hrole : r.hasRole = false := by
      cases hrole : r.hasRole with
      | false => rfl
      | true =>
        rw [r.role_listed hrole] at hlisted
        cases hlisted
    have hrise : w.CanRise ↔ r.state = some .departed := by
      simp [LoadedWorkflow.CanRise, hstate, hunwatched, h.relation, hrole]
    rw [hstate, hrise]
    simp only [Bool.false_eq_true, false_implies, true_and, forall_const]
    exact imp_congr_right fun _ => or_iff_not_imp_left.symm

theorem noStateGone_watchable (h : Watchable executing startRelations r w) : w.NoStateGone := by
  intro hnone hrise
  cases hlisted : r.listed with
  | true => exact h.stated hlisted hnone
  | false =>
    obtain ⟨-, hunwatched⟩ := h.gone hlisted
    rcases hrise with hdeparted | hwatched | hrole
    · rw [hnone] at hdeparted
      cases hdeparted
    · rw [hunwatched] at hwatched
      cases hwatched
    · rw [h.relation] at hrole
      rw [r.role_listed hrole] at hlisted
      cases hlisted

theorem startable_loadable (found : FoundRelations)
    (h : found.Startable executing startRelations) (hr : r ∈ found.known) :
    r.Loadable executing startRelations :=
  ⟨h.listed r hr, fun hstart hlisted hdown => h.down r hr hlisted hdown (Or.inl hstart),
    fun hstart hlost => (h.gone r hr hlost).1 hstart⟩

/-- Where `start` comes to its end with the relations that are found. -/
theorem startable_iff (found : FoundRelations)
    (hexecutes : startRelations = true → executing = true) :
    found.Startable executing startRelations ↔ ∃ workflows,
      UnitLifecycle.loadRelations executing startRelations found.known = .ok workflows ∧
      UnitLifecycle.initialCalls executing found workflows = .ok () := by
  constructor
  · intro h
    obtain ⟨workflows, hloaded⟩ := loadRelations_returns executing startRelations found.known
      fun r hr => startable_loadable executing startRelations r found h hr
    obtain ⟨-, hwatchable⟩ :=
      loadRelations_needs executing startRelations found.known workflows hloaded
    refine ⟨workflows, hloaded, ?_⟩
    apply initialCalls_returns executing workflows found
    · intro w hw
      obtain ⟨r, -, hr⟩ := hwatchable w hw
      exact hr.calm
    · intro w hw
      obtain ⟨r, -, hr⟩ := hwatchable w hw
      exact noStateGone_watchable executing startRelations r w hr
    · refine ⟨⟨fun w hw hnot => ?_, h.added⟩, fun w hw hor => ?_, h.addedDown⟩
      · obtain ⟨r, hin, hr⟩ := hwatchable w hw
        rw [hr.relation] at hnot
        exact (watchable_canDepart executing startRelations r w hexecutes hr).mpr
          (h.removed r hin hnot)
      · obtain ⟨r, hin, hr⟩ := hwatchable w hw
        rw [hr.relation] at hor
        refine (watchable_canResolve executing startRelations r w hr).mpr fun hresolved =>
          ⟨fun hlisted _ hdown => ?_, fun hlost => ?_⟩
        · exact h.down r hin hlisted hdown (Or.inr ⟨hresolved, hor⟩)
        · refine (h.gone r hin hlost).2 (hor.resolve_right fun hnotified => ?_) hresolved
          rw [r.notified_listed hnotified] at hlost
          cases hlost
  · rintro ⟨workflows, hloaded, hcalls⟩
    obtain ⟨hloadable, hwatchable⟩ :=
      loadRelations_needs executing startRelations found.known workflows hloaded
    have hfine := initialCalls_needs executing workflows found
      (fun w hw => by
        obtain ⟨r, -, hr⟩ := hwatchable w hw
        exact hr.calm)
      (fun w hw => by
        obtain ⟨r, -, hr⟩ := hwatchable w hw
        exact noStateGone_watchable executing startRelations r w hr) hcalls
    refine ⟨fun r hr => (hloadable r hr).1.joinable, hfine.changes.added,
      fun r hr hlisted hdown hbrought => ?_, hfine.addedDown, fun r hr hlost => ⟨fun hstart => ?_,
      fun hfirst hresolved => ?_⟩, fun r hr hnot => ?_⟩
    · obtain ⟨hload, w, hw, hknown⟩ := hloadable r hr
      rcases hbrought with hstart | ⟨hresolved, hor⟩
      · exact hload.down hstart hlisted hdown
      · cases hstart : startRelations with
        | true => exact hload.down hstart hlisted hdown
        | false =>
          have hcan := hfine.resolve w hw (by rwa [hknown.relation])
          exact ((watchable_canResolve executing startRelations r w hknown).mp hcan
            hresolved).1 hlisted hstart hdown
    · exact (hloadable r hr).1.gone hstart hlost
    · obtain ⟨-, w, hw, hknown⟩ := hloadable r hr
      have hcan := hfine.resolve w hw (Or.inl hfirst)
      exact ((watchable_canResolve executing startRelations r w hknown).mp hcan hresolved).2 hlost
    · obtain ⟨-, w, hw, hknown⟩ := hloadable r hr
      have hcan := hfine.changes.removed w hw (by rwa [hknown.relation])
      exact (watchable_canDepart executing startRelations r w hexecutes hknown).mp hcan

theorem nothing_startable : FoundRelations.nothing.Startable executing startRelations := by
  constructor <;> exact fun r hr => absurd hr List.not_mem_nil

end start

end Juju.Unit

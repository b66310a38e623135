import Mathlib.Data.List.Infix
import Juju.Unit.RelationTasks

namespace Juju.Unit
open Juju.Base Juju.Lib

namespace RelationSide

/-- What operations leave. -/
def settle (side : RelationSide) (ops : List WorkflowOp) : RelationSide := ops.foldl perform side

def Stopped (side : RelationSide) : Prop := side.watching = false ∧ side.executing = false

theorem settle_cons (side : RelationSide) (op : WorkflowOp) (ops : List WorkflowOp) :
    side.settle (op :: ops) = (side.perform op).settle ops := rfl

/-- The flags do not tell on the state. -/
theorem settle_state (a b : RelationSide) (ops : List WorkflowOp) (hstate : a.state = b.state)
    (hinflight : a.inflight = b.inflight) :
    (a.settle ops).state = (b.settle ops).state ∧
      (a.settle ops).inflight = (b.settle ops).inflight := by
  induction ops generalizing a b with
  | nil => exact ⟨hstate, hinflight⟩
  | cons op ops ih =>
    rw [settle_cons, settle_cons]
    apply ih
    · cases op <;> first | exact hstate | rfl
    · cases op <;> first | exact hinflight | rfl

/-- Nor does the state on the flags. -/
theorem settle_flags (a b : RelationSide) (ops : List WorkflowOp)
    (hwatching : a.watching = b.watching) (hexecuting : a.executing = b.executing) :
    (a.settle ops).watching = (b.settle ops).watching ∧
      (a.settle ops).executing = (b.settle ops).executing := by
  induction ops generalizing a b with
  | nil => exact ⟨hwatching, hexecuting⟩
  | cons op ops ih =>
    rw [settle_cons, settle_cons]
    apply ih
    · cases op <;> simp [perform, stopLifecycle, hwatching]
    · cases op <;> simp [perform, stopLifecycle, hexecuting]

theorem stopLifecycle_stopped (side : RelationSide) : (side.stopLifecycle true).Stopped :=
  ⟨Bool.and_false _, rfl⟩

/-- A lifecycle that is stopped is stopped in the end. -/
def LeavesStopped (ops : List WorkflowOp) : Prop :=
  ((⟨none, none, false, false, true⟩ : RelationSide).settle ops).Stopped

theorem settle_stopped (side : RelationSide) (ops : List WorkflowOp) (h : side.Stopped)
    (hleaves : LeavesStopped ops) : (side.settle ops).Stopped := by
  obtain ⟨hwatching, hexecuting⟩ :=
    settle_flags side ⟨none, none, false, false, true⟩ ops h.1 h.2
  exact ⟨hwatching.trans hleaves.1, hexecuting.trans hleaves.2⟩

/-- Nothing has the scheduler run. -/
def NeverRuns (ops : List WorkflowOp) : Prop := ∀ op ∈ ops, op ≠ .runScheduler

theorem settle_executing (side : RelationSide) (ops : List WorkflowOp)
    (h : side.executing = false) (hnever : NeverRuns ops) :
    (side.settle ops).executing = false := by
  induction ops generalizing side with
  | nil => exact h
  | cons op ops ih =>
    rw [settle_cons]
    refine ih _ ?_ fun op hop => hnever op (List.mem_cons_of_mem _ hop)
    have hop := hnever op List.mem_cons_self
    cases op with
    | runScheduler => exact absurd rfl hop
    | stopLifecycle stopWatches => rfl
    | _ => exact h

end RelationSide

/-- What is left to do comes to a state with no transition in flight, and so does it after a
departure has stopped the lifecycle at any point; the scheduler is stopped after an error. -/
structure Lands (side : RelationSide) (ops : List WorkflowOp) : Prop where
  named : (side.settle ops).state ≠ none
  landed : (side.settle ops).inflight = none
  departed : (side.settle ops).state = some .departed →
    (side.settle ops).Stopped ∧ ∀ rest, rest <:+ ops → RelationSide.LeavesStopped rest

/-- Where nobody is about to have the relation depart, what the holder of the workflow lock does
comes to the table. -/
structure Tracked {C : Type} (s : RelationTasks C) : Prop where
  idle : s.workflowLock = [] → s.ops = []
  lands : Lands s.side s.ops
  error : ∀ loop line, s.workflowLock = .error loop :: line →
    RelationSide.NeverRuns s.ops ∧ (s.side.settle s.ops).executing = false
  table : s.departing = [] → (∀ caller, .depart caller ∉ s.workflowLock.tail) →
    (s.side.settle s.ops).InTable

instance (ops : List WorkflowOp) : Decidable (RelationSide.LeavesStopped ops) :=
  inferInstanceAs (Decidable (_ ∧ _))

theorem leavesStopped_suffix (ops : List WorkflowOp)
    (h : ∀ rest ∈ ops.tails, RelationSide.LeavesStopped rest) (rest : List WorkflowOp)
    (hrest : rest <:+ ops) : RelationSide.LeavesStopped rest :=
  h rest ((List.mem_tails rest ops).mpr hrest)

theorem lands_of_stopped (side : RelationSide) (ops : List WorkflowOp)
    (hnamed : (side.settle ops).state ≠ none) (hlanded : (side.settle ops).inflight = none)
    (hleaves : (side.settle ops).state = some .departed →
      (side.settle ops).Stopped ∧ ∀ rest ∈ ops.tails, RelationSide.LeavesStopped rest) :
    Lands side ops :=
  ⟨hnamed, hlanded, fun h => ⟨(hleaves h).1, leavesStopped_suffix ops (hleaves h).2⟩⟩

theorem fireRelation_lands (side : RelationSide) (t : RelationTransition) :
    Lands side (fireRelation t) := by
  apply lands_of_stopped
  · cases t <;> nofun
  · cases t <;> rfl
  · intro h
    cases t with
    | depart => exact ⟨⟨Bool.and_false _, rfl⟩, by decide⟩
    | downDepart => exact ⟨⟨Bool.and_false _, rfl⟩, by decide⟩
    | errorDepart => exact ⟨⟨Bool.and_false _, rfl⟩, by decide⟩
    | _ => cases h

theorem fireError_neverRuns : RelationSide.NeverRuns (fireRelation .error) := by
  show ∀ op ∈ fireRelation .error, op ≠ .runScheduler
  decide

/-- A transition from a state in step with its flags leaves them in step. -/
theorem fireRelation_inTable (side : RelationSide) (t : RelationTransition)
    (hsource : (relationTransition t).source = side.state)
    (h : side.InTable ∨ (relationTransition t).destination = .departed) :
    (side.settle (fireRelation t)).InTable := by
  refine ⟨by cases t <;> nofun, ?_⟩
  have hwatching (hwatches : (relationTransition t).source = some .up ∨
      (relationTransition t).source = some .error)
      (hstays : (relationTransition t).destination ≠ .departed) : side.watching = true := by
    obtain ⟨-, hflags⟩ := h.resolve_right hstays
    rw [← hsource] at hflags
    rcases hwatches with hup | herror
    · rw [hup] at hflags
      exact congrArg Prod.fst hflags
    · rw [herror] at hflags
      exact congrArg Prod.fst hflags
  cases t with
  | error => exact Prod.ext ((Bool.and_true _).trans (hwatching (Or.inl rfl) nofun)) rfl
  | reset => exact Prod.ext (hwatching (Or.inr rfl) nofun) rfl
  | start => rfl
  | restart => rfl
  | _ => exact Prod.ext (Bool.and_false _) rfl

theorem synchronizeDepart_leaves (t : RelationTransition)
    (h : (relationTransition t).destination = .departed) :
    ∀ rest ∈ (synchronizeRelation (relationTransition t).source (some t)).tails,
      RelationSide.LeavesStopped rest := by
  cases t with
  | depart => decide
  | downDepart => decide
  | errorDepart => decide
  | _ => cases h

theorem synchronizeDeparted_leaves :
    ∀ rest ∈ (synchronizeRelation (some .departed) none).tails, RelationSide.LeavesStopped rest := by
  decide

theorem synchronizeRelation_lands (side : RelationSide)
    (h : ∀ t, side.inflight = some t → (relationTransition t).source = side.state) :
    Lands side (synchronizeRelation side.state side.inflight) ∧
      (side.settle (synchronizeRelation side.state side.inflight)).InTable := by
  obtain ⟨state, inflight, watching, executing, handled⟩ := side
  cases inflight with
  | none =>
    cases state with
    | none => exact ⟨lands_of_stopped _ _ nofun rfl nofun, nofun, rfl⟩
    | some state =>
      cases state with
      | up => exact ⟨lands_of_stopped _ _ nofun rfl nofun, nofun, rfl⟩
      | error => exact ⟨lands_of_stopped _ _ nofun rfl nofun, nofun, rfl⟩
      | down =>
        exact ⟨lands_of_stopped _ _ nofun rfl nofun, nofun, Prod.ext (Bool.and_false _) rfl⟩
      | departed =>
        exact ⟨lands_of_stopped _ _ nofun rfl fun _ =>
          ⟨⟨Bool.and_false _, rfl⟩, synchronizeDeparted_leaves⟩,
          nofun, Prod.ext (Bool.and_false _) rfl⟩
  | some t =>
    obtain rfl := h t rfl
    have hleaves := synchronizeDepart_leaves t
    cases t with
    | depart =>
      exact ⟨lands_of_stopped _ _ nofun rfl fun _ => ⟨⟨rfl, rfl⟩, hleaves rfl⟩, nofun, rfl⟩
    | downDepart =>
      exact ⟨lands_of_stopped _ _ nofun rfl fun _ => ⟨⟨Bool.and_false _, rfl⟩, hleaves rfl⟩,
        nofun, Prod.ext (Bool.and_false _) rfl⟩
    | errorDepart =>
      exact ⟨lands_of_stopped _ _ nofun rfl fun _ => ⟨⟨rfl, rfl⟩, hleaves rfl⟩, nofun, rfl⟩
    | _ => exact ⟨lands_of_stopped _ _ nofun rfl nofun, nofun, rfl⟩

/-- The ids of the transitions from a state. -/
def transitionsFrom : Option RelationState → List RelationTransition
  | none => [.start]
  | some .up => [.stop, .error, .depart]
  | some .down => [.restart, .downDepart]
  | some .error => [.reset, .errorDepart]
  | some .departed => []

theorem relationTransitions_eq (s : Option RelationState) :
    relationTransitions s = (transitionsFrom s).map relationTransition := by
  rcases s with _ | state
  · rfl
  · cases state <;> rfl

theorem transitionsFrom_source (s : Option RelationState) (t : RelationTransition)
    (h : t ∈ transitionsFrom s) : (relationTransition t).source = s := by
  rcases s with _ | state
  · obtain rfl := List.mem_singleton.mp h
    rfl
  · cases state <;> simp only [transitionsFrom, List.mem_cons, List.not_mem_nil, or_false] at h
    · rcases h with rfl | rfl | rfl <;> rfl
    · rcases h with rfl | rfl <;> rfl
    · rcases h with rfl | rfl <;> rfl

theorem transitionId_eq (t : RelationTransition) : (relationTransition t).transitionId = t := by
  cases t <;> rfl

theorem relationTransitions_spec (s : Option RelationState)
    (transition : Transition RelationState RelationTransition RelationAlias)
    (h : transition ∈ relationTransitions s) :
    relationTransition transition.transitionId = transition ∧ transition.source = s := by
  rw [relationTransitions_eq] at h
  obtain ⟨t, ht, rfl⟩ := List.mem_map.mp h
  rw [transitionId_eq]
  exact ⟨rfl, transitionsFrom_source s t ht⟩

/-- `transition_state` fires a transition from the state to the destination, where there is one. -/
theorem transitionState_fires (s : Option RelationState) (destination : RelationState) :
    transitionState s destination = [] ∨ ∃ t, transitionState s destination = fireRelation t ∧
      (relationTransition t).source = s ∧ (relationTransition t).destination = destination := by
  unfold transitionState
  split
  · rename_i transition hfind
    obtain ⟨hid, hsource⟩ := relationTransitions_spec s transition (List.mem_of_find?_eq_some hfind)
    have hdestination := List.find?_some hfind
    refine Or.inr ⟨transition.transitionId, rfl, ?_, ?_⟩
    · rw [hid, hsource]
    · rw [hid]
      exact of_decide_eq_true hdestination
  · exact Or.inl rfl

theorem transitionState_departed (s : Option RelationState) (hs : s ≠ none)
    (h : transitionState s .departed = []) : s = some .departed := by
  rcases s with _ | state
  · exact absurd rfl hs
  · cases state with
    | departed => rfl
    | _ => cases h

/-- What a task finds to do fires a transition from the state found, an error only its own. -/
theorem program_fires {C : Type} (side : RelationSide) (task : WorkflowTask C)
    (htask : ∀ caller, task ≠ .synchronize caller) :
    task.program side = [] ∨ ∃ t, task.program side = fireRelation t ∧
      (relationTransition t).source = side.state ∧
      (∀ loop, task = .error loop → t = .error) ∧
      (∀ caller, task = .depart caller → (relationTransition t).destination = .departed) := by
  have hstate (destination : RelationState) (hprogram : task.program side = [] ∨
      task.program side = transitionState side.state destination)
      (herror : ∀ loop, task ≠ .error loop)
      (hdepart : ∀ caller, task = .depart caller → destination = .departed) :
      task.program side = [] ∨ ∃ t, task.program side = fireRelation t ∧
        (relationTransition t).source = side.state ∧
        (∀ loop, task = .error loop → t = .error) ∧
        (∀ caller, task = .depart caller → (relationTransition t).destination = .departed) := by
    rcases hprogram with hprogram | hprogram
    · exact Or.inl hprogram
    · rw [hprogram]
      rcases transitionState_fires side.state destination with hnone | ⟨t, hfire, hsource, hto⟩
      · exact Or.inl hnone
      · exact Or.inr ⟨t, hfire, hsource, fun loop hloop => absurd hloop (herror loop),
          fun caller hcaller => hto.trans (hdepart caller hcaller)⟩
  cases task with
  | error loop =>
    simp only [WorkflowTask.program, fireIfAvailable]
    split
    · rename_i havailable
      obtain ⟨transition, hmem, hid⟩ := List.mem_map.mp havailable
      obtain ⟨hspec, hsource⟩ := relationTransitions_spec _ transition hmem
      refine Or.inr ⟨.error, rfl, ?_, fun _ _ => rfl, nofun⟩
      rw [← hid, hspec, hsource]
    · exact Or.inl rfl
  | resolved caller =>
    refine hstate .up ?_ nofun nofun
    simp only [WorkflowTask.program]
    split
    · exact Or.inr rfl
    · exact Or.inl rfl
  | stop caller => exact hstate .down (Or.inr rfl) nofun nofun
  | restart caller =>
    refine hstate .up ?_ nofun nofun
    simp only [WorkflowTask.program]
    split
    · exact Or.inr rfl
    · exact Or.inl rfl
  | depart caller => exact hstate .departed (Or.inr rfl) nofun fun _ _ => rfl
  | synchronize caller => exact absurd rfl (htask caller)

namespace RelationTasks

variable {C : Type}

theorem takeWorkflow_side (s : RelationTasks C) (line : List (WorkflowTask C)) :
    (s.takeWorkflow line).side = s.side := by
  induction line with
  | nil => rfl
  | cons task line ih =>
    unfold takeWorkflow
    split
    · exact ih
    · rfl

/-- What a free workflow lock leaves behind. -/
structure Rests (side : RelationSide) : Prop where
  named : side.state ≠ none
  landed : side.inflight = none
  departed : side.state = some .departed → side.Stopped

theorem takeWorkflow_tracked (s : RelationTasks C) (line : List (WorkflowTask C))
    (hrests : Rests s.side)
    (htable : s.departing = [] → (∀ caller, .depart caller ∉ line) → s.side.InTable) :
    Tracked (s.takeWorkflow line) := by
  induction line with
  | nil =>
    refine ⟨fun _ => rfl, ⟨hrests.named, hrests.landed, fun h => ⟨hrests.departed h, ?_⟩⟩,
      nofun, fun hnone _ => htable hnone nofun⟩
    intro rest hrest
    obtain rfl := List.suffix_nil.mp hrest
    exact ⟨rfl, rfl⟩
  | cons task line ih =>
    unfold takeWorkflow
    split
    · rename_i hprogram
      refine ih fun hnone hline => ?_
      by_cases hdepart : ∃ caller, task = .depart caller
      · obtain ⟨caller, rfl⟩ := hdepart
        have hstate := transitionState_departed s.side.state hrests.named hprogram
        have hstopped := hrests.departed hstate
        refine ⟨hrests.named, ?_⟩
        rw [hstate]
        exact Prod.ext hstopped.1 hstopped.2
      · refine htable hnone fun caller hmem => ?_
        rcases List.mem_cons.mp hmem with rfl | hmem
        · exact hdepart ⟨caller, rfl⟩
        · exact hline caller hmem
    · rename_i op ops hprogram
      by_cases hsync : ∃ caller, task = .synchronize caller
      · obtain ⟨caller, rfl⟩ := hsync
        obtain ⟨hlands, hend⟩ := synchronizeRelation_lands s.side (by rw [hrests.landed]; nofun)
        rw [WorkflowTask.program] at hprogram
        rw [hprogram] at hlands hend
        exact ⟨nofun, hlands, nofun, fun _ _ => hend⟩
      · rcases program_fires s.side task fun caller h => hsync ⟨caller, h⟩ with
          hnone | ⟨t, hfire, hsource, herror, hdepart⟩
        · rw [hnone] at hprogram
          cases hprogram
        · rw [hfire] at hprogram
          rw [← hprogram]
          refine ⟨nofun, fireRelation_lands s.side t, ?_, ?_⟩
          · intro loop line' hline
            obtain rfl := herror loop (List.cons.inj hline).1
            exact ⟨fireError_neverRuns, rfl⟩
          · intro hnone hline
            apply fireRelation_inTable s.side t hsource
            by_cases hto : ∃ caller, task = .depart caller
            · obtain ⟨caller, hcaller⟩ := hto
              exact Or.inr (hdepart caller hcaller)
            · refine Or.inl (htable hnone fun caller hmem => ?_)
              rcases List.mem_cons.mp hmem with rfl | hmem
              · exact hto ⟨caller, rfl⟩
              · exact hline caller hmem

theorem tracked_rests (s : RelationTasks C) (h : Tracked s) (hops : s.ops = []) :
    Rests s.side := by
  have hlands := h.lands
  rw [hops] at hlands
  exact ⟨hlands.named, hlands.landed, fun hstate => (hlands.departed hstate).1⟩

/-- A task that joins the line behind a holder. -/
theorem joined_tracked (s : RelationTasks C) (task : WorkflowTask C) (departing : List C)
    (hheld : s.workflowLock ≠ []) (h : Tracked s)
    (hdeparting : departing = [] → (∀ caller, task ≠ .depart caller) → s.departing = []) :
    Tracked { s with departing := departing, workflowLock := s.workflowLock ++ [task] } := by
  obtain ⟨holder, line, hline⟩ := List.exists_cons_of_ne_nil hheld
  refine ⟨fun hnil => absurd hnil (by simp), h.lands, ?_, ?_⟩
  · intro loop rest hrest
    simp only [hline, List.cons_append] at hrest
    obtain rfl := (List.cons.inj hrest).1
    exact h.error loop line hline
  · intro hnone hdepart
    simp only [hline, List.cons_append, List.tail_cons, List.mem_append, List.mem_singleton,
      not_or] at hdepart
    apply h.table (hdeparting hnone fun caller htask => (hdepart caller).2 htask.symm)
    rw [hline]
    exact fun caller => (hdepart caller).1

theorem acquireWorkflow_tracked (s : RelationTasks C) (task : WorkflowTask C) (h : Tracked s) :
    Tracked (s.acquireWorkflow task) := by
  unfold acquireWorkflow
  split
  · rename_i hfree
    have hops := h.idle hfree
    refine takeWorkflow_tracked s [task] (tracked_rests s h hops) fun hnone _ => ?_
    have htable := h.table hnone
    rw [hops, hfree] at htable
    exact htable nofun
  · rename_i hheld
    exact joined_tracked s task s.departing hheld h fun hnone _ => hnone

/-- A departure that comes for the workflow lock, of a caller that has been between the halves. -/
theorem acquireDepart_tracked (s : RelationTasks C) (caller : C) (i : Nat) (h : Tracked s) :
    Tracked ({ s with departing := s.departing.eraseIdx i }.acquireWorkflow (.depart caller)) := by
  unfold acquireWorkflow
  split
  · rename_i hfree
    have hops := h.idle hfree
    refine takeWorkflow_tracked _ [.depart caller] (tracked_rests s h hops) fun _ hdepart => ?_
    exact absurd List.mem_cons_self (hdepart caller)
  · rename_i hheld
    exact joined_tracked s (.depart caller) _ hheld h fun _ htask => absurd rfl (htask caller)

/-- An error handler that is done has stopped the scheduler, so that its loop clears a flag that
is clear already. -/
theorem releaseWorkflow_eq (s : RelationTasks C) (task : WorkflowTask C)
    (line : List (WorkflowTask C)) (h : Tracked s) (hops : s.ops = [])
    (hline : s.workflowLock = task :: line) :
    s.releaseWorkflow line task = s.takeWorkflow line := by
  cases task with
  | error loop =>
    have hclear := (h.error loop line hline).2
    rw [hops] at hclear
    have hside : { (s.takeWorkflow line).side with executing := false } =
        (s.takeWorkflow line).side := by
      rw [takeWorkflow_side]
      exact congrArg (fun b => { s.side with executing := b }) hclear.symm
    simp only [releaseWorkflow, hside]
  | _ => rfl

/-- The holder of the workflow lock is done. -/
theorem releaseWorkflow_tracked (s : RelationTasks C) (task : WorkflowTask C)
    (line : List (WorkflowTask C)) (h : Tracked s) (hops : s.ops = [])
    (hline : s.workflowLock = task :: line) : Tracked (s.releaseWorkflow line task) := by
  rw [releaseWorkflow_eq s task line h hops hline]
  refine takeWorkflow_tracked s line (tracked_rests s h hops) fun hnone hdepart => ?_
  have htable := h.table hnone
  rw [hops, hline] at htable
  exact htable hdepart

theorem perform_tracked (s : RelationTasks C) (op : WorkflowOp) (ops : List WorkflowOp)
    (h : Tracked s) (hops : s.ops = op :: ops) : Tracked ({ s with ops := ops }.perform op) := by
  obtain ⟨hside, hlock, hrest, hdeparting⟩ :
      ({ s with ops := ops }.perform op).side = s.side.perform op ∧
      ({ s with ops := ops }.perform op).workflowLock = s.workflowLock ∧
      ({ s with ops := ops }.perform op).ops = ops ∧
      ({ s with ops := ops }.perform op).departing = s.departing := by
    unfold perform
    split
    · exact ⟨rfl, rfl, rfl, rfl⟩
    · exact ⟨rfl, rfl, rfl, rfl⟩
    · split <;> exact ⟨rfl, rfl, rfl, rfl⟩
    · exact ⟨rfl, rfl, rfl, rfl⟩
  obtain ⟨hidle, ⟨hnamed, hlanded, hdeparted⟩, herror, htable⟩ := h
  rw [hops] at hidle hnamed hlanded hdeparted herror htable
  constructor
  · intro hfree
    rw [hlock] at hfree
    cases hidle hfree
  · rw [hside, hrest]
    exact ⟨hnamed, hlanded, fun hstate => ⟨(hdeparted hstate).1,
      fun rest hrest => (hdeparted hstate).2 rest (hrest.trans (List.suffix_cons op ops))⟩⟩
  · rw [hside, hlock, hrest]
    intro loop line hline
    obtain ⟨hnever, hexecuting⟩ := herror loop line hline
    exact ⟨fun op hop => hnever op (List.mem_cons_of_mem _ hop), hexecuting⟩
  · rw [hside, hlock, hrest, hdeparting]
    exact htable

/-- A departure that stops the lifecycle comes upon whatever the holder of the workflow lock is
about to do. -/
theorem departureStops_tracked (s : RelationTasks C) (caller : C) (line : List (RunTask C))
    (h : Tracked s) :
    Tracked { s with
      side := s.side.stopLifecycle true
      runLock := line
      departing := s.departing ++ [caller] } := by
  obtain ⟨hstate, hinflight⟩ :=
    RelationSide.settle_state (s.side.stopLifecycle true) s.side s.ops rfl rfl
  refine ⟨h.idle, ⟨?_, ?_, ?_⟩, ?_, fun hnone => absurd hnone (by simp)⟩
  · rw [hstate]
    exact h.lands.named
  · rw [hinflight]
    exact h.lands.landed
  · intro hdeparted
    rw [hstate] at hdeparted
    have hleaves := (h.lands.departed hdeparted).2
    exact ⟨RelationSide.settle_stopped _ _ (RelationSide.stopLifecycle_stopped _)
      (hleaves s.ops List.suffix_rfl), hleaves⟩
  · intro loop rest hrest
    have hnever := (h.error loop rest hrest).1
    exact ⟨hnever, RelationSide.settle_executing _ _ rfl hnever⟩

theorem step_tracked (s s' : RelationTasks C) (e : RelationEvent C) (h : Tracked s)
    (hs : s.step e = some s') : Tracked s' := by
  cases e with
  | resolved caller =>
    obtain rfl := Option.some.inj hs
    exact acquireWorkflow_tracked s _ h
  | stop caller =>
    obtain rfl := Option.some.inj hs
    exact acquireWorkflow_tracked s _ h
  | restart caller =>
    obtain rfl := Option.some.inj hs
    exact acquireWorkflow_tracked s _ h
  | depart caller =>
    obtain rfl := Option.some.inj hs
    exact ⟨h.idle, h.lands, h.error, h.table⟩
  | goOn =>
    simp only [step] at hs
    split at hs
    · cases hs
    · split at hs
      · cases hs
      · rename_i hline hops
        obtain rfl := Option.some.inj hs
        exact releaseWorkflow_tracked s _ _ h hops hline
      · cases hs
      · rename_i hops _
        obtain rfl := Option.some.inj hs
        exact perform_tracked s _ _ h hops
  | departureStops =>
    simp only [step] at hs
    split at hs
    · obtain rfl := Option.some.inj hs
      exact departureStops_tracked s _ _ h
    · cases hs
  | departureGoesOn i =>
    simp only [step] at hs
    split at hs
    · cases hs
    · obtain rfl := Option.some.inj hs
      exact acquireDepart_tracked s _ i h
  | change i =>
    simp only [step] at hs
    split at hs
    · cases hs
    · obtain rfl := Option.some.inj hs
      exact ⟨h.idle, h.lands, h.error, h.table⟩
  | loopEnds i =>
    simp only [step] at hs
    split at hs
    · obtain rfl := Option.some.inj hs
      exact ⟨h.idle, h.lands, h.error, h.table⟩
    · cases hs
  | hookEnds success =>
    simp only [step] at hs
    split at hs
    · obtain rfl := Option.some.inj hs
      split <;> exact ⟨h.idle, h.lands, h.error, h.table⟩
    · rename_i hops
      obtain rfl := Option.some.inj hs
      exact perform_tracked s .executeHook _ h hops
    · cases hs
  | errorReported i =>
    simp only [step] at hs
    split at hs
    · cases hs
    · obtain rfl := Option.some.inj hs
      split
      · exact acquireWorkflow_tracked _ _ ⟨h.idle, h.lands, h.error, h.table⟩
      · exact ⟨h.idle, h.lands, h.error, h.table⟩

theorem synchronizing_tracked (s : RelationTasks C) (h : Synchronizing s) : Tracked s := by
  cases h with
  | begun caller state inflight hsource =>
    obtain ⟨hlands, hend⟩ := synchronizeRelation_lands ⟨state, inflight, false, false, true⟩ hsource
    exact ⟨nofun, hlands, nofun, fun _ _ => hend⟩

/-- Whenever no caller, no error handler and no hook is in progress, the lifecycle watches and
executes as `synchronize` would have it. -/
theorem relation_in_step (s : RelationTasks C)
    (h : Reachable Synchronizing step (fun _ _ => True) s) (hquiet : s.Quiet) :
    s.side.InTable := by
  have htracked := reachable_invariant Tracked synchronizing_tracked
    (fun s s' e hi _ hs => step_tracked s s' e hi hs) s h
  have htable := htracked.table hquiet.departing
  rw [htracked.idle hquiet.workflowLock, hquiet.workflowLock] at htable
  exact htable nofun

theorem relation_in_step_resolved :
    ∃ s : RelationTasks Nat, Reachable Synchronizing step (fun _ _ => True) s ∧ s.Quiet ∧
      s.nextLoop = 2 ∧ s.side.state = some .up ∧ s.side.InTable := by
  -- a hook fails, and the relation is resolved while its error is handled
  have hrun : Reachable Synchronizing step (fun _ _ => True) _ :=
    reachable_stepAll (fun _ _ => trivial)
      (List.replicate 10 .goOn ++ [.change 0, .hookEnds false, .errorReported 0, .resolved 1] ++
        List.replicate 12 .goOn)
      (⟨⟨none, none, false, false, true⟩, [.synchronize 0], synchronizeRelation none none, [], [],
        0, [], []⟩ : RelationTasks Nat) _ (.init _ (.begun 0 none none nofun)) rfl
  exact ⟨_, hrun, ⟨rfl, rfl, rfl, rfl⟩, rfl, rfl,
    relation_in_step _ hrun ⟨rfl, rfl, rfl, rfl⟩⟩

end RelationTasks

end Juju.Unit

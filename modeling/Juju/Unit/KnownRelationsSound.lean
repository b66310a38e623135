import Juju.Unit.KnownRelations

namespace Juju.Unit.KnownRelations
open Juju.Base

/-- The transition leads out of the workflow. -/
def departs (t : RelationTransition) : Bool := (relationTransition t).destination = .departed

/-- The departure of a relation has begun. -/
def Ended (side : RelationSide) : Prop :=
  side.state = some .departed ∨ ∃ t, side.inflight = some t ∧ departs t = true

def endsOp : WorkflowOp → Bool
  | .setState .departed => true
  | .setInflight t => departs t
  | _ => false

def setsOp : WorkflowOp → Bool
  | .setState _ => true
  | _ => false

/-- The operation can be the first thing done to a new workflow. -/
def freshOp : WorkflowOp → Bool
  | .setInflight t => t = .start
  | _ => true

/-- Operations that leave the workflow in a state, and do not depart it. -/
structure SyncOps (state : Option RelationState) (ops : List WorkflowOp) : Prop where
  quiet : ∀ op ∈ ops, op ≠ .executeHook ∧ endsOp op = false
  sets : state ≠ none ∨ ∃ op ∈ ops, setsOp op = true
  fresh : state = none → ∀ op ∈ ops, freshOp op = true

/-- What is still to be done of a departure, with whether the broken hook has run. -/
def DepartOps (state : Option RelationState) (broken : Prop) (ops : List WorkflowOp) : Prop :=
  (ops = [] ∧ state = some .departed ∧ broken) ∨
    ∃ first, ops = first ++ [.setState .departed] ∧ (∀ op ∈ first, setsOp op = false) ∧
      (.executeHook ∈ first ∨ broken) ∧ state ≠ none

theorem departOps_mono (state : Option RelationState) (broken broken' : Prop)
    (ops : List WorkflowOp) (hb : broken → broken') (h : DepartOps state broken ops) :
    DepartOps state broken' ops := by
  rcases h with ⟨hnil, hs, hbroken⟩ | ⟨first, hops, hunset, hhook, hs⟩
  · exact Or.inl ⟨hnil, hs, hb hbroken⟩
  · exact Or.inr ⟨first, hops, hunset, hhook.imp_right hb, hs⟩

section ops

variable (side : RelationSide) (op : WorkflowOp)

theorem perform_state (h : side.state ≠ none) : (side.perform op).state ≠ none := by
  cases op <;> simp [RelationSide.perform, RelationSide.stopLifecycle, h]

theorem perform_unset (h : setsOp op = false) : (side.perform op).state = side.state := by
  cases op <;> simp [RelationSide.perform, RelationSide.stopLifecycle]
  simp [setsOp] at h

theorem perform_ended (hop : endsOp op = false) (h : Ended (side.perform op)) : Ended side := by
  cases op with
  | setInflight t =>
    rcases h with hs | ⟨t', ht', hd⟩
    · exact Or.inl hs
    · obtain rfl := Option.some.inj ht'
      rw [show endsOp (.setInflight t) = departs t from rfl, hd] at hop
      cases hop
  | setState x =>
    rcases h with hs | ⟨t', ht', -⟩
    · obtain rfl := Option.some.inj hs
      cases hop
    · cases ht'
  | _ => exact h

theorem perform_fresh (hop : side.state = none → freshOp op = true)
    (h : side.state = none → side.inflight = none ∨ side.inflight = some .start)
    (hs : (side.perform op).state = none) :
    (side.perform op).inflight = none ∨ (side.perform op).inflight = some .start := by
  cases op with
  | setInflight t =>
    obtain rfl : t = .start := by simpa [freshOp] using hop hs
    exact Or.inr rfl
  | setState x => cases hs
  | _ => exact h hs

theorem syncOps_perform (ops : List WorkflowOp) (h : SyncOps side.state (op :: ops)) :
    SyncOps (side.perform op).state ops := by
  refine ⟨fun x hx => h.quiet x (List.mem_cons_of_mem _ hx), ?_, ?_⟩
  · rcases h.sets with hs | ⟨x, hx, hset⟩
    · exact Or.inl (perform_state side op hs)
    · rcases List.mem_cons.mp hx with rfl | hx
      · left
        cases x <;> simp [setsOp] at hset
        simp [RelationSide.perform]
      · exact Or.inr ⟨x, hx, hset⟩
  · intro hs x hx
    have hold : side.state = none := by
      by_contra hne
      exact perform_state side op hne hs
    exact h.fresh hold x (List.mem_cons_of_mem _ hx)

theorem syncOps_nil (state : Option RelationState) (h : SyncOps state []) : state ≠ none :=
  h.sets.resolve_right (by simp)

/-- The synchronization of a workflow that is not departing. -/
theorem syncOps_synchronize (h : ¬ Ended side)
    (hfresh : side.state = none → side.inflight = none ∨ side.inflight = some .start) :
    SyncOps side.state (synchronizeRelation side.state side.inflight) := by
  obtain ⟨state, inflight, watching, executing, handled⟩ := side
  simp only at hfresh ⊢
  have hend : ∀ t, inflight = some t → departs t = false := by
    intro t ht
    by_contra hd
    exact h (Or.inr ⟨t, ht, by simpa using hd⟩)
  cases state with
  | none =>
    rcases hfresh rfl with rfl | rfl
    · exact ⟨by decide, by decide, by decide⟩
    · exact ⟨by decide, by decide, by decide⟩
  | some state =>
    refine ⟨?_, Or.inl (by simp), by simp⟩
    cases inflight with
    | none => cases state <;> decide
    | some t =>
      have ht := hend t rfl
      cases t <;> first | (exact absurd ht (by decide)) | (cases state <;> decide)

theorem departOps_transitionState (state : Option RelationState) (broken : Prop)
    (hs : state ≠ none) (hb : state = some .departed → broken) :
    DepartOps state broken (transitionState state .departed) := by
  cases state with
  | none => exact absurd rfl hs
  | some state =>
    cases state with
    | departed => exact Or.inl ⟨by decide, rfl, hb rfl⟩
    | up =>
      exact Or.inr ⟨.setInflight .depart :: doDepart, by decide, by decide, Or.inl (by decide),
        by simp⟩
    | down =>
      exact Or.inr ⟨.setInflight .downDepart :: doDepart, by decide, by decide,
        Or.inl (by decide), by simp⟩
    | error =>
      exact Or.inr ⟨.setInflight .errorDepart :: doDepart, by decide, by decide,
        Or.inl (by decide), by simp⟩

/-- One operation of a departure; the workflow is departed only when the broken hook has run. -/
theorem departOps_perform (broken : Prop) (ops : List WorkflowOp)
    (h : DepartOps side.state broken (op :: ops)) :
    DepartOps (side.perform op).state (broken ∨ op = .executeHook) ops ∧
      ((side.perform op).state = side.state ∨
        ((side.perform op).state = some .departed ∧ broken)) ∧
      (side.perform op).state ≠ none := by
  rcases h with ⟨hnil, -⟩ | ⟨first, hops, hunset, hhook, hs⟩
  · cases hnil
  · cases first with
    | nil =>
      obtain ⟨rfl, rfl⟩ := List.cons.inj hops
      have hb : broken := hhook.resolve_left (by simp)
      exact ⟨Or.inl ⟨rfl, rfl, Or.inl hb⟩, Or.inr ⟨rfl, hb⟩, by simp [RelationSide.perform]⟩
    | cons op' first =>
      obtain ⟨rfl, rfl⟩ := List.cons.inj hops
      have hsame := perform_unset side op (hunset op (List.mem_cons_self ..))
      rw [hsame]
      refine ⟨Or.inr ⟨first, rfl, fun x hx => hunset x (List.mem_cons_of_mem _ hx), ?_, hs⟩,
        Or.inl rfl, hs⟩
      rcases hhook with hin | hb
      · rcases List.mem_cons.mp hin with rfl | hin
        · exact Or.inr (Or.inr rfl)
        · exact Or.inl hin
      · exact Or.inr (Or.inl hb)

/-- What another task can fire, it fires in a state that is not departed. -/
theorem otherTransition_available (state : Option RelationState) (t : RelationTransition)
    (hother : t ∈ otherTransitions)
    (hav : t ∈ (relationTransitions state).map Lib.Transition.transitionId) :
    state ≠ none ∧ state ≠ some .departed ∧ departs t = false := by
  rcases state with _ | state
  · revert hother hav
    cases t <;> decide
  · revert hother hav
    cases state <;> cases t <;> decide

end ops

end Juju.Unit.KnownRelations

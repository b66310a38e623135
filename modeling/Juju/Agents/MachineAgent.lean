import Juju.Base.Runs
import Mathlib.Data.Finset.Erase
import Mathlib.Data.Finset.Lattice.Lemmas
import Mathlib.Data.Finset.SDiff

namespace Juju.Agents
open Juju.Base

variable {U : Type} [DecidableEq U]

/-- The watch of the assigned units, with its memory of them, the units that it has `seen` when it
was last notified, and what a call of `watch_service_units` has still to stop and to start. -/
structure UnitsWatch (U : Type) where
  oldUnits : Option (Finset U)
  seen : Option (Finset U)
  callback : Option (Finset U × Finset U)

/-- The units that are assigned to the machine and those that are deployed on it, with the machine
agent while it runs. -/
structure MachineAgent (U : Type) where
  assigned : Finset U
  deployed : Finset U
  agent : Option (UnitsWatch U)

inductive MachineEvent (U : Type) where
  | assign (unit : U)
  | unassign (unit : U)
  | start
  | stop
  | notify
  | killServiceUnit (unit : U)
  | startServiceUnit (unit : U)
  | callbackReturns

/-- `_WatchAssignedUnits.__call__` calls its callback. -/
def Notifies (oldUnits : Option (Finset U)) (newUnits : Finset U) : Prop :=
  (newUnits ≠ ∅ ∨ oldUnits.getD ∅ ≠ ∅) ∧ some newUnits ≠ oldUnits

instance (oldUnits : Option (Finset U)) (newUnits : Finset U) :
    Decidable (Notifies oldUnits newUnits) :=
  inferInstanceAs (Decidable (_ ∧ _))

/-- `watch_service_units`, up to what it stops and starts. -/
def watchServiceUnits (oldUnits : Option (Finset U)) (newUnits : Finset U) :
    Finset U × Finset U :=
  (oldUnits.getD ∅ \ newUnits, newUnits \ oldUnits.getD ∅)

/-- `start_service_unit`, where a deployment that is running is left alone. -/
def startServiceUnit (unit : U) (deployed : Finset U) : Finset U :=
  if unit ∈ deployed then deployed else insert unit deployed

/-- `kill_service_unit`. -/
def killServiceUnit (unit : U) (deployed : Finset U) : Finset U := deployed.erase unit

namespace MachineAgent

variable (s s' : MachineAgent U)

def setCallback (watch : UnitsWatch U) (callback : Option (Finset U × Finset U)) :
    MachineAgent U :=
  { s with agent := some { watch with callback := callback } }

/-- The agent's own steps, while it runs. -/
def agentStep (watch : UnitsWatch U) : MachineEvent U → Option (MachineAgent U)
  | .stop => some { s with agent := none }
  | .notify =>
    match watch.callback with
    | none =>
      if Notifies watch.oldUnits s.assigned then
        let todo := watchServiceUnits watch.oldUnits s.assigned
        some { s with agent := some ⟨some s.assigned, some s.assigned, some todo⟩ }
      else some { s with agent := some { watch with seen := some s.assigned } }
    | some _ => none
  | .killServiceUnit unit =>
    match watch.callback with
    | some (stopped, started) =>
      if unit ∈ stopped then
        some ({ s with deployed := killServiceUnit unit s.deployed }.setCallback watch
          (some (stopped.erase unit, started)))
      else none
    | none => none
  | .startServiceUnit unit =>
    match watch.callback with
    | some (stopped, started) =>
      if stopped = ∅ ∧ unit ∈ started then
        some ({ s with deployed := startServiceUnit unit s.deployed }.setCallback watch
          (some (stopped, started.erase unit)))
      else none
    | none => none
  | .callbackReturns =>
    match watch.callback with
    | some (stopped, started) =>
      if stopped = ∅ ∧ started = ∅ then some (s.setCallback watch none) else none
    | none => none
  | _ => none

def step : MachineEvent U → Option (MachineAgent U)
  | .assign unit => some { s with assigned := insert unit s.assigned }
  | .unassign unit => some { s with assigned := s.assigned.erase unit }
  | .start =>
    match s.agent with
    | none => some { s with agent := some ⟨none, none, none⟩ }
    | some _ => none
  | e => s.agent.bind fun watch => s.agentStep watch e

/-- A new machine, on which the agent has not run. -/
structure Initial : Prop where
  deployed : s.deployed = ∅
  agent : s.agent = none

/-- The agent has handled a notification of the units as they are assigned now. -/
def Handled : Prop :=
  ∃ watch, s.agent = some watch ∧ watch.seen = some s.assigned ∧ watch.callback = none

/-- The first notification after a start finds no unit deployed that is not assigned any more. -/
def Undisturbed : MachineEvent U → Prop
  | .notify => ∀ watch, s.agent = some watch → watch.seen = none → s.deployed ⊆ s.assigned
  | _ => True

/-- What a watch remembers is deployed, or will be when its callback is over. A watch that was
notified and has not called back has seen no unit, and none is deployed. -/
def Remembers (watch : UnitsWatch U) : Prop :=
  match watch.oldUnits, watch.callback with
  | none, callback => callback = none ∧ ∀ seen, watch.seen = some seen → seen = ∅ ∧ s.deployed = ∅
  | some oldUnits, none => watch.seen = some oldUnits ∧ s.deployed = oldUnits
  | some oldUnits, some (stopped, started) =>
    watch.seen = some oldUnits ∧ (s.deployed \ stopped) ∪ started = oldUnits

theorem deployed_notified (oldUnits : Option (Finset U))
    (hfirst : oldUnits = none → s.deployed ⊆ s.assigned)
    (hlater : ∀ old, oldUnits = some old → s.deployed = old) :
    (s.deployed \ (watchServiceUnits oldUnits s.assigned).1) ∪
      (watchServiceUnits oldUnits s.assigned).2 = s.assigned := by
  cases oldUnits with
  | none =>
    have hsub := hfirst rfl
    simpa [watchServiceUnits] using hsub
  | some old =>
    rw [hlater old rfl]
    ext unit
    simp only [watchServiceUnits, Option.getD_some, Finset.mem_union, Finset.mem_sdiff]
    tauto

theorem deployed_killed (unit : U) (stopped started : Finset U) (h : unit ∈ stopped) :
    (killServiceUnit unit s.deployed \ stopped.erase unit) ∪ started =
      (s.deployed \ stopped) ∪ started := by
  ext other
  simp only [killServiceUnit, Finset.mem_union, Finset.mem_sdiff, Finset.mem_erase]
  by_cases hother : other = unit
  · subst hother
    simp [h]
  · simp [hother]

theorem deployed_started (unit : U) (started : Finset U) (h : unit ∈ started) :
    startServiceUnit unit s.deployed ∪ started.erase unit = s.deployed ∪ started := by
  have hmem : ∀ other, other ∈ startServiceUnit unit s.deployed ↔ other = unit ∨
      other ∈ s.deployed := by
    intro other
    unfold startServiceUnit
    split
    · rename_i hunit
      constructor
      · exact .inr
      · rintro (rfl | hother)
        · exact hunit
        · exact hother
    · exact Finset.mem_insert
  ext other
  rw [Finset.mem_union, Finset.mem_union, hmem, Finset.mem_erase]
  by_cases hother : other = unit
  · subst hother
    simp [h]
  · simp [hother]

/-- A notification that the watch does not call back for. -/
theorem quiet_notified (oldUnits : Option (Finset U)) (newUnits : Finset U)
    (h : ¬ Notifies oldUnits newUnits) :
    oldUnits = some newUnits ∨ oldUnits = none ∧ newUnits = ∅ := by
  unfold Notifies at h
  cases oldUnits with
  | none =>
    refine .inr ⟨rfl, ?_⟩
    by_contra hnew
    exact h ⟨.inl hnew, by simp⟩
  | some old =>
    by_cases hsame : newUnits = old
    · exact .inl (by rw [hsame])
    · have hempty : newUnits = ∅ ∧ old = ∅ := by
        by_contra hsome
        rw [not_and_or] at hsome
        exact h ⟨hsome, by simpa using hsame⟩
      exact absurd (hempty.1.trans hempty.2.symm) hsame

theorem notify_remembers (watch : UnitsWatch U) (h : s.Remembers watch)
    (hagent : s.agent = some watch) (hfine : s.Undisturbed .notify)
    (hs : s.agentStep watch .notify = some s') :
    ∀ watch', s'.agent = some watch' → s'.Remembers watch' := by
  intro watch' hwatch'
  obtain ⟨oldUnits, seen, callback⟩ := watch
  have hfirst : seen = none → s.deployed ⊆ s.assigned := hfine _ hagent
  cases callback with
  | some _ => cases hs
  | none =>
    dsimp only [agentStep] at hs
    split at hs
    · obtain rfl := Option.some.inj hs
      cases hwatch'
      refine ⟨rfl, deployed_notified s oldUnits (fun hnone => ?_) fun old hold => ?_⟩
      · cases seen with
        | none => exact hfirst rfl
        | some units =>
          rw [hnone] at h
          rw [(h.2 units rfl).2]
          exact Finset.empty_subset _
      · rw [hold] at h
        exact h.2
    · rename_i hquiet
      obtain rfl := Option.some.inj hs
      cases hwatch'
      rcases quiet_notified oldUnits s.assigned hquiet with rfl | ⟨rfl, hempty⟩
      · exact ⟨rfl, h.2⟩
      · refine ⟨rfl, fun units hunits => ?_⟩
        obtain rfl := Option.some.inj hunits
        refine ⟨hempty, ?_⟩
        cases seen with
        | none =>
          have hsub := hfirst rfl
          rw [hempty] at hsub
          exact Finset.subset_empty.mp hsub
        | some units => exact (h.2 units rfl).2

theorem agentStep_remembers (watch : UnitsWatch U) (e : MachineEvent U) (h : s.Remembers watch)
    (hagent : s.agent = some watch) (hfine : s.Undisturbed e) (hs : s.agentStep watch e = some s') :
    ∀ watch', s'.agent = some watch' → s'.Remembers watch' := by
  intro watch' hwatch'
  obtain ⟨oldUnits, seen, callback⟩ := watch
  cases e with
  | stop =>
    obtain rfl := Option.some.inj hs
    cases hwatch'
  | notify => exact notify_remembers s s' _ h hagent hfine hs watch' hwatch'
  | killServiceUnit unit =>
    cases callback with
    | none => cases hs
    | some todo =>
      obtain ⟨stopped, started⟩ := todo
      obtain ⟨hunit, hs⟩ := Option.ite_none_right_eq_some.mp hs
      obtain rfl := Option.some.inj hs
      cases hwatch'
      cases oldUnits with
      | none => cases h.1
      | some old => exact ⟨h.1, (deployed_killed s unit stopped started hunit).trans h.2⟩
  | startServiceUnit unit =>
    cases callback with
    | none => cases hs
    | some todo =>
      obtain ⟨stopped, todo⟩ := todo
      obtain ⟨⟨hstopped, hunit⟩, hs⟩ := Option.ite_none_right_eq_some.mp hs
      obtain rfl := Option.some.inj hs
      cases hwatch'
      cases oldUnits with
      | none => cases h.1
      | some old =>
        have hdone := deployed_started s unit todo hunit
        subst hstopped
        have hbefore : (s.deployed \ ∅) ∪ todo = old := h.2
        rw [Finset.sdiff_empty] at hbefore
        refine ⟨h.1, ?_⟩
        show (startServiceUnit unit s.deployed \ ∅) ∪ todo.erase unit = old
        rw [Finset.sdiff_empty]
        exact hdone.trans hbefore
  | callbackReturns =>
    cases callback with
    | none => cases hs
    | some todo =>
      obtain ⟨stopped, started⟩ := todo
      obtain ⟨⟨rfl, rfl⟩, hs⟩ := Option.ite_none_right_eq_some.mp hs
      obtain rfl := Option.some.inj hs
      cases hwatch'
      cases oldUnits with
      | none => cases h.1
      | some old =>
        have hbefore : (s.deployed \ ∅) ∪ ∅ = old := h.2
        rw [Finset.sdiff_empty, Finset.union_empty] at hbefore
        exact ⟨h.1, hbefore⟩
  | _ => cases hs

theorem step_remembers (e : MachineEvent U) (h : ∀ watch, s.agent = some watch → s.Remembers watch)
    (hfine : s.Undisturbed e) (hs : s.step e = some s') :
    ∀ watch, s'.agent = some watch → s'.Remembers watch := by
  have hagent : ∀ (_ : s.agent.bind (fun watch => s.agentStep watch e) = some s') watch,
      s'.agent = some watch → s'.Remembers watch := by
    intro hs
    obtain ⟨watch, hwatch, hs⟩ := Option.bind_eq_some_iff.mp hs
    exact agentStep_remembers s s' watch e (h watch hwatch) hwatch hfine hs
  cases e with
  | assign unit =>
    obtain rfl := Option.some.inj hs
    exact h
  | unassign unit =>
    obtain rfl := Option.some.inj hs
    exact h
  | start =>
    dsimp only [step] at hs
    split at hs
    · obtain rfl := Option.some.inj hs
      intro watch hwatch
      cases hwatch
      exact ⟨rfl, fun seen hseen => absurd hseen (Option.some_ne_none seen).symm⟩
    · cases hs
  | _ => exact hagent hs

theorem deployed_eq_assigned (h : Reachable Initial step Undisturbed s) (hhandled : s.Handled) :
    s.deployed = s.assigned := by
  have hremembers := reachable_invariant
    (fun s : MachineAgent U => ∀ watch, s.agent = some watch → s.Remembers watch)
    (fun s hs watch hwatch => ?_) (fun s s' e hs hfine he => step_remembers s s' e hs hfine he) s h
  · obtain ⟨⟨oldUnits, seen, callback⟩, hwatch, hseen, hcallback⟩ := hhandled
    have hknown := hremembers _ hwatch
    subst hseen hcallback
    cases oldUnits with
    | none =>
      obtain ⟨hempty, hdeployed⟩ := hknown.2 _ rfl
      rw [hempty, hdeployed]
    | some old => exact hknown.2.trans (Option.some.inj hknown.1).symm
  · rw [hs.agent] at hwatch
    cases hwatch

section twoUnits

def newMachine : MachineAgent Nat := ⟨∅, ∅, none⟩

/-- Two units are assigned, and deployed by the agent, which stops. -/
def deploysTwo : List (MachineEvent Nat) :=
  [.assign 0, .assign 1, .start, .notify, .startServiceUnit 0, .startServiceUnit 1,
    .callbackReturns, .stop]

/-- The agent starts again and finds the units as it has left them. -/
theorem deployed_eq_assigned_restarted :
    ∃ s : MachineAgent Nat, s.Handled ∧ s.assigned = {0, 1} ∧ s.deployed = s.assigned := by
  have hassigned : Reachable Initial step Undisturbed _ :=
    reachable_events [.assign 0, .assign 1, .start] (by simp [Undisturbed]) newMachine _
      (.init newMachine ⟨rfl, rfl⟩) rfl
  have hnotified : Reachable Initial step Undisturbed _ :=
    .step _ _ .notify hassigned (fun _ _ _ => Finset.empty_subset _) rfl
  have hstarted : Reachable Initial step Undisturbed _ :=
    reachable_events [.startServiceUnit 0, .startServiceUnit 1, .callbackReturns, .stop, .start]
      (by simp [Undisturbed]) _ _ hnotified rfl
  have hagain : Reachable Initial step Undisturbed _ :=
    .step _ _ .notify hstarted (fun _ _ _ => by decide) rfl
  have hhandled : Reachable Initial step Undisturbed _ :=
    reachable_events [.startServiceUnit 0, .startServiceUnit 1, .callbackReturns]
      (by simp [Undisturbed]) _ _ hagain rfl
  refine ⟨_, ?_, ?_, deployed_eq_assigned _ hhandled ⟨_, rfl, rfl, rfl⟩⟩
  · exact ⟨_, rfl, rfl, rfl⟩
  · decide

/-- A unit that is unassigned while the agent is stopped stays deployed; if none is assigned any
more, the agent that starts is not even called. -/
theorem unassigned_stays_deployed :
    (∃ s : MachineAgent Nat, Reachable Initial step (fun _ _ => True) s ∧ s.Handled ∧
      s.assigned = {1} ∧ s.deployed = {0, 1}) ∧
    ∃ s : MachineAgent Nat, Reachable Initial step (fun _ _ => True) s ∧ s.Handled ∧
      s.assigned = ∅ ∧ s.deployed = {0, 1} := by
  have hone : Reachable Initial step (fun _ _ => True) _ :=
    reachable_stepAll (fun _ _ => trivial)
      (deploysTwo ++ [.unassign 0, .start, .notify, .startServiceUnit 1, .callbackReturns])
      newMachine _ (.init newMachine ⟨rfl, rfl⟩) rfl
  have hnone : Reachable Initial step (fun _ _ => True) _ :=
    reachable_stepAll (fun _ _ => trivial)
      (deploysTwo ++ [.unassign 0, .unassign 1, .start, .notify])
      newMachine _ (.init newMachine ⟨rfl, rfl⟩) rfl
  exact ⟨⟨_, hone, ⟨_, rfl, rfl, rfl⟩, by decide, by decide⟩,
    _, hnone, ⟨_, rfl, rfl, rfl⟩, by decide, by decide⟩

end twoUnits

end MachineAgent

end Juju.Agents

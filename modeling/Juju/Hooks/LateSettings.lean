import Juju.Hooks.SchedulerSession

namespace Juju.Hooks
open Juju.Base

variable {U : Type} [LinearOrder U]

/-- The events that are callbacks of the relation's watcher. -/
def SessionEvent.isCallback : SessionEvent U → Prop
  | .members _ => True
  | .settings _ => True
  | _ => False

def runSession (events : List (SessionEvent U)) : Except (SchedulerError U) (Session U) :=
  events.foldlM Session.step freshSession

/-- After a callback the scheduler's two records of the members agree, and a unit that has
joined is queued: as joined, or as modified where its departed hook was still to be executed. -/
structure InStep (s s' : Session U) : Prop where
  members : ∃ ms, s'.scheduler.contextMembers = some ms ∧
    ∀ u, u ∈ s'.scheduler.memberVersions ↔ u ∈ ms
  joined : ∀ u ∈ s'.current, u ∉ s.current → ∃ q ∈ s'.scheduler.runQueue.pending,
    q.unitName = u ∧ (q.changeType = .joined ∨
      q.changeType = .modified ∧ u ∈ present s.history)

theorem step_inv (s : Session U) (e : SessionEvent U) (h : SessionInv s) (he : Timely s e) :
    ∃ s', s.step e = .ok s' ∧ SessionInv s' := by
  cases e with
  | members newUnits =>
    obtain ⟨s', hs', hinv, -⟩ := members_inv s newUnits h he
    exact ⟨s', hs', hinv⟩
  | settings unitVersions =>
    obtain ⟨s', hs', hinv, -⟩ := settings_inv s unitVersions h he
    exact ⟨s', hs', hinv⟩
  | run =>
    obtain ⟨s', hs', hinv, -⟩ := run_inv s h
    exact ⟨s', hs', hinv⟩
  | hookEnds success =>
    cases hc : s.executing with
    | none => exact ⟨s, by simp [Session.step, hc], h⟩
    | some c =>
      obtain ⟨s', _, _, hs', hinv, -⟩ := hookEnds_inv s c success h hc
      exact ⟨s', hs', hinv⟩
  | stop =>
    obtain ⟨s', hs', hinv, -⟩ := stop_inv s h
    exact ⟨s', hs', hinv⟩

theorem reached_inv (s : Session U) (h : Reached Timely s) : SessionInv s := by
  induction h with
  | fresh => exact freshSession_inv
  | step s s' e _ he hs' ih =>
    obtain ⟨s₁, hs₁, hinv⟩ := step_inv s e ih he
    rw [hs₁] at hs'
    exact Except.ok.inj hs' ▸ hinv

theorem inv_agree (s : Session U) (h : SessionInv s)
    (hknown : s.scheduler.contextMembers ≠ none) :
    ∃ ms, s.scheduler.contextMembers = some ms ∧
      ∀ u, u ∈ s.scheduler.memberVersions ↔ u ∈ ms := by
  obtain ⟨ms, hms, -, hmem⟩ := (inv_told s h hknown).members
  refine ⟨ms, hms, fun u => ?_⟩
  rw [h.versions, hmem, List.mem_toFinset]

/-- In a session whose events have all been timely, a timely callback returns and keeps the
scheduler's records in step. -/
theorem callback_inStep (s : Session U) (e : SessionEvent U) (hs : Reached Timely s)
    (he : Timely s e) (hc : e.isCallback) : ∃ s', s.step e = .ok s' ∧ InStep s s' := by
  have h := reached_inv s hs
  cases e with
  | members newUnits =>
    obtain ⟨s', hs', hinv, hhistory, hcurrent, hjoined, hknown, -⟩ :=
      members_inv s newUnits h he
    refine ⟨s', hs', inv_agree s' hinv hknown, ?_⟩
    intro u hu hnot
    obtain ⟨q, hq, hqu, hqt⟩ := hjoined u (hcurrent ▸ hu) hnot
    by_cases hlive : u ∈ present s.history
    · refine ⟨q, hq, hqu, ?_⟩
      cases ht : q.changeType with
      | departed => exact absurd ht hqt
      | joined => exact Or.inl rfl
      | modified => exact Or.inr ⟨rfl, hlive⟩
    · have hqueued := (inv_told s' hinv hknown).queue.queued
      rw [hhistory] at hqueued
      obtain ⟨c, hc, hcu, hct⟩ := wellQueued_joined _ _ _ u hqueued
        (List.mem_toFinset.mpr hu) hlive
      exact ⟨c, hc, hcu, Or.inl hct⟩
  | settings unitVersions =>
    obtain ⟨s', hs', hinv, -, hcurrent, hknown, -⟩ := settings_inv s unitVersions h he
    refine ⟨s', hs', inv_agree s' hinv hknown, ?_⟩
    intro u hu hnot
    exact absurd (hcurrent ▸ hu) hnot
  | run => exact hc.elim
  | hookEnds success => exact hc.elim
  | stop => exact hc.elim

/-- Settings of a member, and of a unit whose node was never written to. -/
theorem callback_inStep_settings :
    ∃ s s' : Session Nat, Reached Timely s ∧ s.step (.settings [(1, 3), (2, 0)]) = .ok s' ∧
      InStep s s' := by
  have hfirst : ∃ s₁ : Session Nat, freshSession.step (.members [1]) = .ok s₁ ∧
      s₁.scheduler.contextMembers = some [1] ∧ s₁.current = [1] := ⟨_, rfl, rfl, rfl⟩
  obtain ⟨s₁, hs₁, hknown, hcurrent⟩ := hfirst
  have hreached : Reached Timely s₁ := by
    refine .step freshSession s₁ (.members [1]) .fresh ?_ hs₁
    intro c hexec
    simp [freshSession] at hexec
  obtain ⟨s', hs', hstep⟩ := callback_inStep s₁ (.settings [(1, 3), (2, 0)]) hreached
    ⟨by simp [hknown], by simp [hcurrent]⟩ trivial
  exact ⟨s₁, s', hreached, hs', hstep⟩

/-- The settings of unit 1 arrive after its departure: the records disagree, the next membership
raises, and unit 1 is not queued when it joins again. While the joined hook of unit 1 runs, the
departure of unit 3 drops the joined change of unit 2, and its return raises. The joined hook of unit
1 fails, and the unit leaves while the error handler has stopped the scheduler: the modified change
that is put after it raises when the unit returns. -/
theorem late_settings_break :
    (∃ s s' : Session Nat, runSession [.members [1], .members []] = .ok s ∧
      s.step (.settings [(1, 1)]) = .ok s' ∧ ¬ InStep s s' ∧
      s'.step (.members [2]) = .error (.keyError 1) ∧
      ∃ s'', s'.step (.members [1]) = .ok s'' ∧ ¬ InStep s' s'') ∧
    runSession [.run, .members [1], .members [1, 2, 3], .members [1, 2], .members [1, 2, 3]] =
      .error (.queue (.unpackNone .joined .joined) : SchedulerError Nat) ∧
    runSession [.members [1], .run, .stop, .members [], .hookEnds false, .members [1]] =
      .error (.queue (.unpackNone .modified .joined) : SchedulerError Nat) := by
  refine ⟨⟨_, _, rfl, rfl, ?_, rfl, _, rfl, ?_⟩, rfl, rfl⟩
  · rintro ⟨⟨ms, hms, hmem⟩, -⟩
    obtain rfl : [] = ms := Option.some.inj hms
    exact absurd ((hmem 1).mp (by decide)) (by simp)
  · rintro ⟨-, hjoined⟩
    obtain ⟨q, hq, hqu, hqt⟩ := hjoined 1 (by decide) (by decide)
    have hin : q ∈ ([⟨1, .modified, []⟩] : List (Change Nat)) := hq
    obtain rfl := List.mem_singleton.mp hin
    rcases hqt with hqt | ⟨-, hlive⟩
    · simp at hqt
    · exact absurd hlive (by decide)

end Juju.Hooks

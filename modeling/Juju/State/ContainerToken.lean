import Juju.State.WatcherCoverage

namespace Juju.State
open Juju.Base

variable {U : Type} [DecidableEq U]

namespace RelationUnitWatcher

theorem cbContainerChildren_tokens (s : RelationUnitWatcher U) (children : List U) :
    (s.cbContainerChildren children).containerTokens = s.containerTokens + 1 ∧
      (s.cbContainerChildren children).stopped = s.stopped := by
  unfold cbContainerChildren
  split
  · refine ⟨?_, rfl⟩
    simp only [containerTokens]
    omega
  · have hsettings (units : List U) : (units.map fun u =>
        WatcherRequest.settings u (some s.nextTask)).countP WatcherRequest.ofContainer = 0 := by
      rw [List.countP_map, List.countP_eq_zero]
      intro u _
      exact Bool.false_ne_true
    simp only
    split
    · refine ⟨?_, rfl⟩
      simp only [containerTokens, List.countP_append, hsettings, List.length_append,
        List.length_singleton]
      omega
    · refine ⟨?_, rfl⟩
      rw [(request_tokens _ _).1]
      simp only [containerTokens, List.countP_append, hsettings, WatcherRequest.ofContainer,
        if_true]
      omega

omit [DecidableEq U] in
theorem notifyUnitSettingsVersion_tokens (s : RelationUnitWatcher U) (u : U) (stat : Bool) :
    (s.notifyUnitSettingsVersion u stat).containerTokens = s.containerTokens ∧
      (s.notifyUnitSettingsVersion u stat).stopped = s.stopped := by
  unfold notifyUnitSettingsVersion
  split
  · split
    · exact ⟨rfl, rfl⟩
    · exact ⟨(request_tokens s _).1, rfl⟩
  · exact ⟨rfl, rfl⟩

omit [DecidableEq U] in
/-- The first request is answered. -/
theorem requests_tokens (s : RelationUnitWatcher U) (r : WatcherRequest U)
    (rest : List (WatcherRequest U)) (h : s.requests = r :: rest) :
    s.containerTokens =
      { s with requests := rest }.containerTokens + (if r.ofContainer then 1 else 0) := by
  simp only [containerTokens, h, List.countP_cons]
  omega

/-- A watcher that runs has as many watches on the container, pending or to come, after an event
as before it. -/
theorem step_tokens (interested : U → Bool) (s s' : RelationUnitWatcher U) (e : WatcherEvent U)
    (hrun : s.stopped = some false) (hstop : e ≠ .stop) (hs : s.step interested e = some s') :
    s'.containerTokens = s.containerTokens ∧ s'.stopped = some false := by
  cases e with
  | start => simp [step, hrun] at hs
  | stop => exact absurd rfl hstop
  | childrenAnswered children =>
    simp only [step] at hs
    split at hs
    · rename_i b requests children hreq
      obtain rfl := Option.some.inj hs
      obtain ⟨htokens, hstopped⟩ := cbContainerChildren_tokens { s with requests := requests }
        (children.filter interested)
      rw [requests_tokens s _ _ hreq]
      exact ⟨htokens, hstopped.trans hrun⟩
    · rename_i requests hreq
      obtain rfl := Option.some.inj hs
      rw [requests_tokens s _ _ hreq, (request_tokens _ _).1]
      exact ⟨rfl, hrun⟩
    · cases hs
  | existsAnswered stat =>
    simp only [step] at hs
    split at hs
    · rename_i requests hreq
      obtain rfl := Option.some.inj hs
      rw [requests_tokens s _ _ hreq]
      cases stat with
      | true => exact ⟨(request_tokens _ _).1, hrun⟩
      | false => exact ⟨rfl, hrun⟩
    · rename_i u task requests hreq
      obtain rfl := Option.some.inj hs
      rw [requests_tokens s _ _ hreq]
      exact ⟨rfl, hrun⟩
    · cases hs
  | namesAnswered =>
    simp only [step] at hs
    split at hs
    · rename_i task oldUnits newUnits requests hreq
      obtain rfl := Option.some.inj hs
      rw [requests_tokens s _ _ hreq]
      refine ⟨?_, hrun⟩
      simp only [containerTokens, List.length_append, List.length_singleton,
        WatcherRequest.ofContainer, if_true]
      omega
    · rename_i u requests hreq
      obtain rfl := Option.some.inj hs
      rw [requests_tokens s _ _ hreq]
      exact ⟨rfl, hrun⟩
    · cases hs
  | membersDone i =>
    simp only [step] at hs
    split at hs
    · rename_i hi
      obtain rfl := Option.some.inj hs
      refine ⟨?_, hrun⟩
      simp only [containerTokens, List.length_eraseIdx_of_lt hi]
      omega
    · cases hs
  | settingsTracked i =>
    simp only [step] at hs
    split at hs
    · cases hs
    · split at hs
      · cases hs
      · obtain rfl := Option.some.inj hs
        obtain ⟨htokens, hstopped⟩ := notifyUnitSettingsVersion_tokens
          { s with answered := s.answered.eraseIdx i } _ _
        exact ⟨htokens, hstopped.trans hrun⟩
  | settingsDone i =>
    simp only [step] at hs
    split at hs
    · cases hs
    · obtain rfl := Option.some.inj hs
      exact ⟨rfl, hrun⟩
  | containerFired =>
    simp only [step] at hs
    split at hs
    · cases hs
    · rename_i n hn
      obtain rfl := Option.some.inj hs
      simp only [cbContainerChildChange, hrun, Option.some.injEq, Bool.false_eq_true, if_false]
      rw [(request_tokens _ _).1]
      refine ⟨?_, rfl⟩
      simp only [containerTokens, hn, WatcherRequest.ofContainer, if_true]
      omega
  | containerCreated =>
    simp only [step] at hs
    split at hs
    · cases hs
    · rename_i n hn
      obtain rfl := Option.some.inj hs
      rw [(request_tokens _ _).1]
      refine ⟨?_, hrun⟩
      simp only [containerTokens, hn, WatcherRequest.ofContainer, if_true]
      omega
  | settingsFired i =>
    simp only [step] at hs
    split at hs
    · cases hs
    · obtain rfl := Option.some.inj hs
      unfold cbUnitChange
      split
      · exact ⟨rfl, hrun⟩
      · exact ⟨(request_tokens _ _).1, hrun⟩

end RelationUnitWatcher

end Juju.State

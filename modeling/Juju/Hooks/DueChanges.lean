import Juju.Hooks.SchedulerSession

namespace Juju.Hooks
open Juju.Base

variable {U : Type} [LinearOrder U]

/-- The change that the loop of a running scheduler is with. -/
def loopHead (s : HookScheduler U) : Option (Change U) :=
  if s.running ∧ s.runQueue.waiting = 0 then s.runQueue.pending.head? else none

/-- The entries of the queue that the loop has not come to. -/
def notBegun (s : HookScheduler U) : List (Change U) :=
  if (loopHead s).isSome then s.runQueue.pending.tail else s.runQueue.pending

/-- A hook is to begin behind the loop that shows the unit to the charm. -/
def Due (s : HookScheduler U) (u : U) : Prop :=
  ∃ q ∈ notBegun s, q.unitName = u ∧ q.changeType ≠ .departed

/-- The loop has come to such a change, where it waited. -/
def Began (s s' : HookScheduler U) (u : U) : Prop :=
  loopHead s = none ∧ ∃ c, loopHead s' = some c ∧ c.unitName = u ∧ c.changeType ≠ .departed

def Answers (s s' : HookScheduler U) (u : U) : Prop := Due s' u ∨ Began s s' u

/-- What is queued keeps the change that the loop is with, and the unit's entries. -/
structure Carries (s s' : HookScheduler U) (u : U) : Prop where
  head : ∀ c, loopHead s = some c → loopHead s' = some c
  due : Due s u → Due s' u

section carries

variable {s₁ s₂ s₃ : HookScheduler U} {u : U}

omit [LinearOrder U] in
theorem carries_refl (s : HookScheduler U) : Carries s s u := ⟨fun _ => id, id⟩

omit [LinearOrder U] in
theorem carries_trans (h₁ : Carries s₁ s₂ u) (h₂ : Carries s₂ s₃ u) : Carries s₁ s₃ u :=
  ⟨fun c hc => h₂.head c (h₁.head c hc), fun hdue => h₂.due (h₁.due hdue)⟩

omit [LinearOrder U] in
theorem answers_carries (h₁ : Answers s₁ s₂ u) (h₂ : Carries s₂ s₃ u) : Answers s₁ s₃ u := by
  rcases h₁ with hdue | ⟨hnone, c, hc, hcu, hct⟩
  · exact Or.inl (h₂.due hdue)
  · exact Or.inr ⟨hnone, c, h₂.head c hc, hcu, hct⟩

omit [LinearOrder U] in
theorem carries_answers {w : U} (h₁ : Carries s₁ s₂ w) (h₂ : Answers s₂ s₃ u) :
    Answers s₁ s₃ u := by
  rcases h₂ with hdue | ⟨hnone, c, hc, hcu, hct⟩
  · exact Or.inl hdue
  · refine Or.inr ⟨?_, c, hc, hcu, hct⟩
    cases hexec : loopHead s₁ with
    | none => rfl
    | some d => exact absurd (h₁.head d hexec) (by simp [hnone])

end carries

section puts

variable {s s' : HookScheduler U}

omit [LinearOrder U] in
theorem stopped_loopHead (hr : s.running = false) :
    loopHead s = none ∧ notBegun s = s.runQueue.pending := by
  have hexec : loopHead s = none := by simp [loopHead, hr]
  exact ⟨hexec, by simp [notBegun, hexec]⟩

omit [LinearOrder U] in
theorem idle_loopHead (hidle : s.runQueue.pending ≠ [] → s.runQueue.waiting = 0) :
    loopHead s = if s.running then s.runQueue.pending.head? else none := by
  unfold loopHead
  cases hp : s.runQueue.pending with
  | nil => simp
  | cons c rest => simp [hidle (by simp [hp])]

omit [LinearOrder U] in
theorem same_queue (hr : s'.running = s.running) (hp : s'.runQueue.pending = s.runQueue.pending)
    (hidle : s.runQueue.pending ≠ [] → s.runQueue.waiting = 0)
    (hidle' : s'.runQueue.pending ≠ [] → s'.runQueue.waiting = 0) :
    loopHead s' = loopHead s ∧ notBegun s' = notBegun s := by
  have hexec : loopHead s' = loopHead s := by
    rw [idle_loopHead hidle, idle_loopHead hidle', hr, hp]
  exact ⟨hexec, by rw [notBegun, notBegun, hexec, hp]⟩

omit [LinearOrder U] in
/-- A change comes to the end of the queue: it waits there, or is taken at once. -/
theorem appended_put (hr : s'.running = s.running)
    (hidle : s.runQueue.pending ≠ [] → s.runQueue.waiting = 0)
    (hidle' : s'.runQueue.pending ≠ [] → s'.runQueue.waiting = 0) (c : Change U)
    (hp : s'.runQueue.pending = s.runQueue.pending ++ [c]) :
    (∀ u, Carries s s' u) ∧ (c.changeType ≠ .departed → Answers s s' c.unitName) := by
  have hexec := idle_loopHead hidle
  have hexec' := idle_loopHead hidle'
  rw [hr, hp] at hexec'
  cases hrunning : s.running with
  | false =>
    simp only [hrunning, Bool.false_eq_true, if_false] at hexec hexec'
    have hnot : notBegun s = s.runQueue.pending := by simp [notBegun, hexec]
    have hnot' : notBegun s' = s.runQueue.pending ++ [c] := by simp [notBegun, hexec', hp]
    refine ⟨fun u => ⟨fun d hd => ?_, fun hdue => ?_⟩, fun hc => Or.inl ⟨c, ?_, rfl, hc⟩⟩
    · rw [hexec] at hd
      cases hd
    · obtain ⟨q, hq, hqu⟩ := hdue
      exact ⟨q, hnot' ▸ List.mem_append_left _ (hnot ▸ hq), hqu⟩
    · simp [hnot']
  | true =>
    simp only [hrunning, if_true] at hexec hexec'
    cases hpending : s.runQueue.pending with
    | nil =>
      rw [hpending] at hexec hexec'
      refine ⟨fun u => ⟨fun d hd => ?_, fun hdue => ?_⟩,
        fun hc => Or.inr ⟨hexec, c, hexec', rfl, hc⟩⟩
      · rw [hexec] at hd
        cases hd
      · obtain ⟨q, hq, -⟩ := hdue
        simp [notBegun, hexec, hpending] at hq
    | cons d rest =>
      rw [hpending] at hexec hexec'
      have hnot : notBegun s = rest := by simp [notBegun, hexec, hpending]
      have hnot' : notBegun s' = rest ++ [c] := by simp [notBegun, hexec', hp, hpending]
      refine ⟨fun u => ⟨fun e he => ?_, fun hdue => ?_⟩, fun hc => Or.inl ⟨c, ?_, rfl, hc⟩⟩
      · rw [hexec']
        exact hexec ▸ he
      · obtain ⟨q, hq, hqu⟩ := hdue
        exact ⟨q, hnot' ▸ List.mem_append_left _ (hnot ▸ hq), hqu⟩
      · simp [hnot']

omit [LinearOrder U] in
/-- The queue of a scheduler that is stopped has been merged. -/
theorem stopped_put (hr : s.running = false) (hr' : s'.running = false) (units : List U)
    (hothers : ∀ p ∈ s.runQueue.pending, p.unitName ∉ units →
      ∃ q ∈ s'.runQueue.pending, q.unitName = p.unitName ∧ q.changeType = p.changeType) (u : U)
    (hu : u ∉ units) : Carries s s' u := by
  obtain ⟨hexec, hnot⟩ := stopped_loopHead hr
  obtain ⟨hexec', hnot'⟩ := stopped_loopHead hr'
  refine ⟨fun c hc => ?_, fun hdue => ?_⟩
  · rw [hexec] at hc
    cases hc
  · obtain ⟨p, hp, rfl, hpt⟩ := hdue
    rw [hnot] at hp
    obtain ⟨q, hq, hqu, hqt⟩ := hothers p hp hu
    exact ⟨q, hnot'.symm ▸ hq, hqu, hqt ▸ hpt⟩

end puts

section scheduled

theorem queueAndSave_cases (s s' : HookScheduler U) (change : Change U) (offset : Nat)
    (h : queueAndSave s change offset = .ok s') :
    ∃ saved, queueChange s.runQueue.pending change offset = .ok (s'.runQueue.pending, saved) ∧
      s'.runQueue.waiting = s.runQueue.waiting ∧ s'.running = s.running ∧
      s'.memberVersions = s.memberVersions := by
  unfold queueAndSave at h
  cases hq : queueChange s.runQueue.pending change offset with
  | error e => simp [hq] at h
  | ok result =>
    obtain ⟨pending, saved⟩ := result
    rw [hq] at h
    cases saved with
    | false =>
      obtain rfl := Except.ok.inj h
      exact ⟨false, rfl, rfl, rfl, rfl⟩
    | true =>
      cases hc : s.contextMembers with
      | none => simp [saveState, hc] at h
      | some ms =>
        simp only [if_true, saveState, hc, Except.ok.injEq] at h
        subst h
        exact ⟨true, rfl, rfl, rfl, rfl⟩

/-- A change that has been put is where the merge puts it. -/
theorem put_cases (s s' : HookScheduler U) (change : Change U) (offset : Nat)
    (fired : Option (Option (Change U))) (h : put s (some change) offset = .ok (s', fired)) :
    ∃ saved, queueChange s.runQueue.pending change
        (if s.runQueue.waiting ≠ 0 then 0 else offset) = .ok (s'.runQueue.pending, saved) ∧
      s'.running = s.running ∧ s'.memberVersions = s.memberVersions ∧
      (s.runQueue.waiting = 0 → s'.runQueue.waiting = 0) := by
  unfold put at h
  by_cases hw : s.runQueue.waiting = 0
  · cases hq : queueAndSave s change offset with
    | error e => simp [hw, hq, bind, Except.bind] at h
    | ok s₁ =>
      obtain ⟨saved, hqueue, hwaiting, hr, hv⟩ := queueAndSave_cases s s₁ change offset hq
      simp only [hw, ne_eq, not_true_eq_false, if_false, hq, bind, Except.bind, Except.ok.injEq,
        Prod.mk.injEq] at h ⊢
      obtain ⟨rfl, -⟩ := h
      exact ⟨saved, hqueue, hr, hv, fun _ => hwaiting.trans hw⟩
  · cases hq : queueAndSave s change 0 with
    | error e => simp [hw, hq, bind, Except.bind] at h
    | ok s₁ =>
      obtain ⟨saved, hqueue, -, hr, hv⟩ := queueAndSave_cases s s₁ change 0 hq
      simp only [ne_eq, hw, not_false_eq_true, if_true, hq, bind, Except.bind] at h ⊢
      cases hp : s₁.runQueue.pending with
      | nil =>
        simp only [hp, Except.ok.injEq, Prod.mk.injEq] at h
        obtain ⟨rfl, -⟩ := h
        exact ⟨saved, hqueue, hr, hv, fun hidle => hidle.elim⟩
      | cons head rest =>
        simp only [hp, Except.ok.injEq, Prod.mk.injEq] at h
        obtain ⟨rfl, -⟩ := h
        exact ⟨saved, by rw [hqueue, hp], hr, hv, fun hidle => hidle.elim⟩

variable (live context : Finset U) (s s' : HookScheduler U) (u : U)

theorem told_idle (h : Told live s context) (hp : s.runQueue.pending ≠ []) :
    s.runQueue.waiting = 0 := by
  by_contra hw
  exact hp (h.waits hw).2.2

theorem queueJoined_cases (h : queueJoined s u = .ok s') :
    ∃ members ms fired, put { s with contextMembers := members } (some ⟨u, .joined, ms⟩)
      s.running.toNat = .ok (s', fired) := by
  cases hc : s.contextMembers with
  | none => simp [queueJoined, getChange, hc, bind, Except.bind] at h
  | some ms =>
    simp only [queueJoined, getChange, hc, Option.map_some, bind, Except.bind] at h
    split at h
    · cases h
    · rename_i result hput
      obtain ⟨s₁, fired⟩ := result
      obtain rfl := Except.ok.inj h
      exact ⟨_, _, fired, hput⟩

theorem queueDeparted_cases (h : queueDeparted s u = .ok s') :
    ∃ members ms fired, put { s with contextMembers := members } (some ⟨u, .departed, ms⟩)
      s.running.toNat = .ok (s', fired) := by
  cases hc : s.contextMembers with
  | none => simp [queueDeparted, hc, bind, Except.bind, throw, throwThe, MonadExceptOf.throw] at h
  | some ms =>
    by_cases hu : u ∈ ms
    · simp only [queueDeparted, getChange, hc, Option.map_some, Option.getD_some, hu,
        not_true_eq_false, if_false, bind, Except.bind] at h
      split at h
      · cases h
      · rename_i result hput
        obtain ⟨s₁, fired⟩ := result
        obtain rfl := Except.ok.inj h
        exact ⟨_, _, fired, hput⟩
    · simp [queueDeparted, hc, hu, bind, Except.bind, throw, throwThe, MonadExceptOf.throw] at h

/-- A change for a unit without an entry that it may be merged with. -/
theorem put_carries (t : ChangeType) (members : Option (List U)) (ms : List U)
    (fired : Option (Option (Change U))) (live' context' : Finset U) (h : Told live s context)
    (h' : Told live' s' context') (hr : s.running = true)
    (hbehind : ∀ p ∈ s.runQueue.pending.tail, p.unitName ≠ u)
    (hput : put { s with contextMembers := members } (some ⟨u, t, ms⟩) s.running.toNat =
      .ok (s', fired)) :
    (∀ w, Carries s s' w) ∧ (t ≠ .departed → Answers s s' u) := by
  obtain ⟨saved, hq, hr', -⟩ := put_cases _ _ _ _ _ hput
  rw [queueChange_running live context s u t ms h hr hbehind] at hq
  obtain ⟨hp, -⟩ := Prod.mk.inj (Except.ok.inj hq)
  exact appended_put (s := s) hr' (told_idle live context s h) (told_idle live' context' s' h')
    ⟨u, t, ms⟩ hp.symm

theorem queueJoined_carries (h : Told live s context) (hu : u ∉ context)
    (hbehind : s.running = true → ∀ p ∈ s.runQueue.pending.tail, p.unitName ≠ u)
    (hs' : queueJoined s u = .ok s') : (∀ w, w ≠ u → Carries s s' w) ∧ Answers s s' u := by
  obtain ⟨s₁, hs₁, ht₁, hput₁, q, hq, hqu, hqt⟩ := queueJoined_told live context s u h hu hbehind
  obtain rfl : s₁ = s' := Except.ok.inj (hs₁.symm.trans hs')
  cases hr : s.running with
  | false =>
    have hr₁ : s₁.running = false := hput₁.running.trans hr
    refine ⟨fun w hw => stopped_put hr hr₁ [u] hput₁.others w (by simpa using hw),
      Or.inl ⟨q, ?_, hqu, hqt⟩⟩
    rw [(stopped_loopHead hr₁).2]
    exact hq
  | true =>
    obtain ⟨members, ms, fired, hput⟩ := queueJoined_cases s s₁ u hs'
    obtain ⟨hcarries, hanswers⟩ := put_carries live context s s₁ u .joined members ms fired live
      (insert u context) h ht₁ hr (hbehind hr) hput
    exact ⟨fun w _ => hcarries w, hanswers (by simp)⟩

theorem queueDeparted_carries (h : Told live s context) (hu : u ∈ context)
    (hbehind : s.running = true → ∀ p ∈ s.runQueue.pending.tail, p.unitName ≠ u)
    (hs' : queueDeparted s u = .ok s') (w : U) (hw : w ≠ u) : Carries s s' w := by
  obtain ⟨s₁, hs₁, ht₁, hput₁⟩ := queueDeparted_told live context s u h hu hbehind
  obtain rfl : s₁ = s' := Except.ok.inj (hs₁.symm.trans hs')
  cases hr : s.running with
  | false =>
    exact stopped_put hr (hput₁.running.trans hr) [u] hput₁.others w (by simpa using hw)
  | true =>
    obtain ⟨members, ms, fired, hput⟩ := queueDeparted_cases s s₁ u hs'
    exact (put_carries live context s s₁ u .departed members ms fired live (context.erase u) h ht₁
      hr (hbehind hr) hput).1 w

omit [LinearOrder U] in
/-- A modified change is kept out by any entry of its unit. -/
theorem queueChange_keptOut [DecidableEq U] (pending result : List (Change U)) (u : U)
    (ms : List U) (offset : Nat) (saved : Bool)
    (h : queueChange pending ⟨u, .modified, ms⟩ offset = .ok (result, saved)) :
    result = pending ++ [⟨u, .modified, ms⟩] ∨ result = pending ∧ ∃ before after p,
      pending.drop offset = before ++ p :: after ∧ p.unitName = u ∧
        ∀ q ∈ after, q.unitName ≠ u := by
  rcases latest_cases u (pending.drop offset) with hnone | ⟨before, after, p, hdrop, hp, ha⟩
  · rw [queueChange_new _ _ offset hnone] at h
    exact Or.inl (Prod.mk.inj (Except.ok.inj h)).1.symm
  · have hkeep : prescribed p.changeType .modified = some .keep := by
      cases p.changeType <;> rfl
    have hsplit := queueChange_split ⟨u, .modified, ms⟩ pending before after p offset hdrop hp ha
    rw [hkeep] at hsplit
    rw [hsplit] at h
    exact Or.inr ⟨(Prod.mk.inj (Except.ok.inj h)).1.symm, before, after, p, hdrop, hp, ha⟩

theorem queueModified_cases (v : Int) (h : queueModified s (u, v) = .ok s') :
    v ≤ (s.memberVersions.lookup u).getD 0 ∧ s' = s ∨
      v > (s.memberVersions.lookup u).getD 0 ∧ ∃ ms fired,
        put { s with memberVersions := s.memberVersions.insert u v } (some ⟨u, .modified, ms⟩)
          s.running.toNat = .ok (s', fired) := by
  by_cases hnew : v > (s.memberVersions.lookup u).getD 0
  · refine Or.inr ⟨hnew, ?_⟩
    cases hc : s.contextMembers with
    | none => simp [queueModified, hnew, getChange, hc, bind, Except.bind] at h
    | some ms =>
      simp only [queueModified, hnew, if_true, getChange, hc, bind, Except.bind] at h
      split at h
      · cases h
      · rename_i result hput
        obtain ⟨s₁, fired⟩ := result
        obtain rfl := Except.ok.inj h
        exact ⟨_, fired, by rw [← hput]⟩
  · simp only [queueModified, hnew, if_false, Except.ok.injEq] at h
    exact Or.inl ⟨not_lt.mp hnew, h.symm⟩

/-- Settings are taken up: a version that the scheduler did not know is answered. -/
theorem queueModified_carries (v : Int) (h : Told live s context)
    (hv : ∀ w, w ∈ s.memberVersions ↔ w ∈ context) (hu : u ∈ context ∨ v ≤ 0)
    (hs' : queueModified s (u, v) = .ok s') :
    (∀ w, Carries s s' w) ∧ (∀ w, w ≠ u → s'.memberVersions.lookup w = s.memberVersions.lookup w) ∧
      (((s.memberVersions.lookup u).getD 0 < v ∧ Answers s s' u ∧
          s'.memberVersions.lookup u = some v) ∨
        v ≤ (s.memberVersions.lookup u).getD 0 ∧ s' = s) := by
  rcases queueModified_cases s s' u v hs' with ⟨hold, rfl⟩ | ⟨hnew, ms, fired, hput⟩
  · exact ⟨fun w => carries_refl s', fun _ _ => rfl, Or.inr ⟨hold, rfl⟩⟩
  · obtain ⟨s₁, hs₁, ht₁, -⟩ := queueModified_told live context s (u, v) h hv hu
    obtain rfl : s₁ = s' := Except.ok.inj (hs₁.symm.trans hs')
    have hmember : u ∈ context := by
      rcases hu with hu | hle
      · exact hu
      · by_contra hno
        rw [AList.lookup_eq_none.mpr ((hv u).not.mpr hno), Option.getD_none] at hnew
        omega
    obtain ⟨saved, hq, hr, hversions, -⟩ := put_cases _ _ _ _ _ hput
    have hlookup (w : U) : s₁.memberVersions.lookup w =
        if w = u then some v else s.memberVersions.lookup w := by
      rw [hversions, Dict.lookup_insert]
    have hput : (∀ w, Carries s s₁ w) ∧ Answers s s₁ u := by
      rcases queueChange_keptOut _ _ u ms _ saved hq with
        hp | ⟨hp, before, after, p, hdrop, hpu, ha⟩
      · obtain ⟨hcarries, hanswers⟩ := appended_put (s := s) hr (told_idle live context s h)
          (told_idle live context s₁ ht₁) ⟨u, .modified, ms⟩ hp
        exact ⟨hcarries, hanswers (by simp)⟩
      · obtain ⟨hexec, hnot⟩ := same_queue (s := s) hr hp (told_idle live context s h)
          (told_idle live context s₁ ht₁)
        have hpt : p.changeType ≠ .departed := by
          have hjoin := List.take_append_drop
            (if s.runQueue.waiting ≠ 0 then 0 else s.running.toNat) s.runQueue.pending
          rw [hdrop, ← List.append_assoc] at hjoin
          have hlatest := wellQueued_latest live context _ after p (hjoin.symm ▸ h.queue.queued)
            (fun q hq => hpu ▸ ha q hq)
          exact hlatest.mp (hpu.symm ▸ hmember)
        refine ⟨fun w => ⟨fun c hc => hexec.trans hc, fun hdue => ?_⟩, Or.inl ⟨p, ?_, hpu, hpt⟩⟩
        · simpa only [Due, hnot] using hdue
        · have hpin : p ∈ s.runQueue.pending.drop
              (if s.runQueue.waiting ≠ 0 then 0 else s.running.toNat) := by
            rw [hdrop]
            simp
          have hidle := told_idle live context s h (List.ne_nil_of_mem (List.mem_of_mem_drop hpin))
          rw [hnot]
          cases hrunning : s.running with
          | false =>
            rw [(stopped_loopHead hrunning).2]
            exact List.mem_of_mem_drop hpin
          | true =>
            obtain ⟨d, rest, hcons⟩ := List.exists_cons_of_ne_nil
              (List.ne_nil_of_mem (List.mem_of_mem_drop hpin))
            simpa [notBegun, loopHead, hrunning, hidle, hcons] using hpin
    refine ⟨hput.1, fun w hw => ?_, Or.inl ⟨hnew, hput.2, ?_⟩⟩
    · rw [hlookup, if_neg hw]
    · rw [hlookup, if_pos rfl]

end scheduled

end Juju.Hooks

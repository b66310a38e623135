import Juju.Hooks.HookScheduler
import Juju.Hooks.QueueInvariant
import Mathlib.Data.Finset.Lattice.Lemmas
import Mathlib.Data.Finset.SDiff

namespace Juju.Hooks
open Juju.Base

section files

variable {U : Type}

/-- The state file has been written from `s` to `s'`, each time with contents like `P`. -/
def Wrote (P : SavedState U → Prop) (s s' : HookScheduler U) : Prop :=
  ∃ files, s'.stateFile = files ++ s.stateFile ∧ ∀ f ∈ files, P f

theorem wrote_refl (P : SavedState U → Prop) (s s' : HookScheduler U)
    (h : s'.stateFile = s.stateFile) : Wrote P s s' := ⟨[], h, by simp⟩

theorem wrote_trans (P : SavedState U → Prop) (s₁ s₂ s₃ : HookScheduler U)
    (h₁ : Wrote P s₁ s₂) (h₂ : Wrote P s₂ s₃) : Wrote P s₁ s₃ := by
  obtain ⟨files₁, he₁, hp₁⟩ := h₁
  obtain ⟨files₂, he₂, hp₂⟩ := h₂
  refine ⟨files₂ ++ files₁, by rw [he₂, he₁, List.append_assoc], ?_⟩
  intro f hf
  rcases List.mem_append.mp hf with hf | hf
  · exact hp₂ f hf
  · exact hp₁ f hf

theorem wrote_mono (P Q : SavedState U → Prop) (s s' : HookScheduler U) (h : Wrote P s s')
    (hpq : ∀ f, P f → Q f) : Wrote Q s s' := by
  obtain ⟨files, he, hp⟩ := h
  exact ⟨files, he, fun f hf => hpq f (hp f hf)⟩

end files

variable {U : Type} [LinearOrder U]

/-- A scheduler to which the members `context` have been delivered, while its hooks have put
`live` into the relation. Only a loop that runs on an empty queue waits. -/
structure Told (live : Finset U) (s : HookScheduler U) (context : Finset U) : Prop where
  members : ∃ ms, s.contextMembers = some ms ∧ ms.Nodup ∧ ∀ u, u ∈ ms ↔ u ∈ context
  queue : QueueInv live s.runQueue.pending context
  waits : s.runQueue.waiting ≠ 0 →
    s.runQueue.waiting = 1 ∧ s.running = true ∧ s.runQueue.pending = []

/-- The same, where no loop waits. -/
structure Loaded (running : Bool) (live : Finset U) (s : HookScheduler U) (context : Finset U) :
    Prop where
  running : s.running = running
  idle : s.runQueue.waiting = 0
  members : ∃ ms, s.contextMembers = some ms ∧ ms.Nodup ∧ ∀ u, u ∈ ms ↔ u ∈ context
  queue : QueueInv live s.runQueue.pending context

theorem loaded_told (running : Bool) (live context : Finset U) (s : HookScheduler U)
    (h : Loaded running live s context) : Told live s context :=
  ⟨h.members, h.queue, fun hw => absurd h.idle hw⟩

theorem told_loaded (live context : Finset U) (s : HookScheduler U) (h : Told live s context)
    (hr : s.running = false) : Loaded false live s context := by
  refine ⟨hr, ?_, h.members, h.queue⟩
  by_contra hw
  have hrunning := (h.waits hw).2.1
  simp [hr] at hrunning

/-- What `_save_state` would write now. -/
def snapshot (s : HookScheduler U) : Option (SavedState U) :=
  s.contextMembers.map fun members => ⟨sorted members, s.memberVersions, s.runQueue.pending⟩

theorem sorted_nodup (ms : List U) (h : ms.Nodup) : (sorted ms).Nodup :=
  (List.perm_insertionSort (· ≤ ·) ms).nodup_iff.mpr h

theorem saveState_run (s : HookScheduler U) (f : SavedState U) (h : snapshot s = some f) :
    saveState s = .ok { s with stateFile := f :: s.stateFile } := by
  obtain ⟨ms, hms, rfl⟩ := Option.map_eq_some_iff.mp h
  simp [saveState, hms]

theorem told_snapshot (live context : Finset U) (s : HookScheduler U)
    (h : Told live s context) : ∃ f, snapshot s = some f := by
  obtain ⟨ms, hms, -⟩ := h.members
  exact ⟨_, by rw [snapshot, hms]; rfl⟩

/-- What changes of `units` leave to the loop of `run`: the head of the queue, whose hook it may be
waiting for, and a head to go on with where it waits on an empty queue. -/
structure LoopKept (units : List U) (s s' : HookScheduler U) : Prop where
  idle : s.runQueue.waiting = 0 → s'.runQueue.waiting = 0
  woken : s.running = true → s.runQueue.waiting ≠ 0 → s'.runQueue = s.runQueue ∨
    s'.runQueue.waiting = 0 ∧ s'.runQueue.pending ≠ []
  head : ∀ d rest, s.runQueue.pending = d :: rest →
    (s.running = false → d.unitName ∈ units →
      ∃ p ∈ rest, p.unitName = d.unitName ∧ p.changeType ≠ d.changeType) →
    ∃ d' rest', s'.runQueue.pending = d' :: rest' ∧ d'.unitName = d.unitName ∧
      d'.changeType = d.changeType ∧ ∀ p ∈ rest, p.unitName ∉ units →
        ∃ q ∈ rest', q.unitName = p.unitName ∧ q.changeType = p.changeType

omit [LinearOrder U] in
theorem loopKept_same (units : List U) (s s' : HookScheduler U) (h : s'.runQueue = s.runQueue) :
    LoopKept units s s' := by
  refine ⟨fun hw => by rw [h, hw], fun _ _ => .inl h, fun d rest hs _ => ?_⟩
  exact ⟨d, rest, by rw [h, hs], rfl, rfl, fun p hp _ => ⟨p, hp, rfl, rfl⟩⟩

omit [LinearOrder U] in
theorem loopKept_append (xs ys : List U) (s₁ s₂ s₃ : HookScheduler U) (h₁ : LoopKept xs s₁ s₂)
    (h₂ : LoopKept ys s₂ s₃) (hr : s₂.running = s₁.running) (hapart : ∀ u ∈ xs, u ∉ ys) :
    LoopKept (xs ++ ys) s₁ s₃ := by
  refine ⟨fun hw => h₂.idle (h₁.idle hw), fun hrun hw => ?_, fun d rest hs hother => ?_⟩
  · rcases h₁.woken hrun hw with hsame | ⟨hidle, hne⟩
    · rcases h₂.woken (hr.trans hrun) (by rwa [hsame]) with hsame₂ | hwoken
      · exact .inl (hsame₂.trans hsame)
      · exact .inr hwoken
    · obtain ⟨d, rest, hd⟩ := List.exists_cons_of_ne_nil hne
      obtain ⟨d', rest', hd', -⟩ := h₂.head d rest hd fun hstopped => by
        rw [hr, hrun] at hstopped
        cases hstopped
      exact .inr ⟨h₂.idle hidle, by simp [hd']⟩
  · obtain ⟨d', rest', hs', hdu, hdt, hkept⟩ := h₁.head d rest hs fun hstopped hu =>
      hother hstopped (List.mem_append_left _ hu)
    obtain ⟨d'', rest'', hs'', hdu', hdt', hkept'⟩ := h₂.head d' rest' hs' fun hstopped hu => by
      rw [hdu] at hu
      obtain ⟨p, hp, hpu, hpt⟩ := hother (hr ▸ hstopped) (List.mem_append_right _ hu)
      obtain ⟨q, hq, hqu, hqt⟩ := hkept p hp fun hx => hapart d.unitName (hpu ▸ hx) hu
      exact ⟨q, hq, hqu.trans (hpu.trans hdu.symm), by rwa [hqt, hdt]⟩
    refine ⟨d'', rest'', hs'', hdu'.trans hdu, hdt'.trans hdt, fun p hp hu => ?_⟩
    rw [List.mem_append, not_or] at hu
    obtain ⟨q, hq, hqu, hqt⟩ := hkept p hp hu.1
    obtain ⟨r, hr', hru, hrt⟩ := hkept' q hq (hqu ▸ hu.2)
    exact ⟨r, hr', hru.trans hqu, hrt.trans hqt⟩

/-- What putting one change for each of `units` leaves alone. -/
structure PutFor (units : List U) (s s' : HookScheduler U) : Prop where
  none : units = [] → s' = s
  versions : s'.memberVersions = s.memberVersions
  running : s'.running = s.running
  others : ∀ p ∈ s.runQueue.pending, p.unitName ∉ units →
    ∃ q ∈ s'.runQueue.pending, q.unitName = p.unitName ∧ q.changeType = p.changeType
  behind : s.running = true → ∀ p ∈ s'.runQueue.pending.tail,
    p ∈ s.runQueue.pending.tail ∨ p.unitName ∈ units
  grows : Wrote (fun _ => True) s s'
  wrote : units.length ≤ 1 → Wrote (fun f => snapshot s' = some f) s s'
  loop : LoopKept units s s'

theorem putFor_nil (s : HookScheduler U) : PutFor [] s s :=
  ⟨fun _ => rfl, rfl, rfl, fun p hp _ => ⟨p, hp, rfl, rfl⟩, fun _ _ hp => Or.inl hp,
    wrote_refl _ _ _ rfl, fun _ => wrote_refl _ _ _ rfl, loopKept_same _ _ _ rfl⟩

theorem putFor_append (xs ys : List U) (s₁ s₂ s₃ : HookScheduler U) (h₁ : PutFor xs s₁ s₂)
    (h₂ : PutFor ys s₂ s₃) (hapart : ∀ u ∈ xs, u ∉ ys) : PutFor (xs ++ ys) s₁ s₃ := by
  refine ⟨?_, h₂.versions.trans h₁.versions, h₂.running.trans h₁.running, ?_, ?_,
    wrote_trans _ _ _ _ h₁.grows h₂.grows, ?_,
    loopKept_append xs ys s₁ s₂ s₃ h₁.loop h₂.loop h₁.running hapart⟩
  · intro hnil
    obtain ⟨hxs, hys⟩ := List.append_eq_nil_iff.mp hnil
    rw [h₂.none hys, h₁.none hxs]
  · intro p hp hu
    rw [List.mem_append, not_or] at hu
    obtain ⟨q, hq, hqu, hqt⟩ := h₁.others p hp hu.1
    obtain ⟨r, hr, hru, hrt⟩ := h₂.others q hq (hqu ▸ hu.2)
    exact ⟨r, hr, hru.trans hqu, hrt.trans hqt⟩
  · intro hrun p hp
    rw [List.mem_append]
    rcases h₂.behind (h₁.running.trans hrun) p hp with hp | hp
    · rcases h₁.behind hrun p hp with hp | hp
      · exact Or.inl hp
      · exact Or.inr (Or.inl hp)
    · exact Or.inr (Or.inr hp)
  · intro hlen
    rw [List.length_append] at hlen
    cases xs with
    | nil => exact h₁.none rfl ▸ h₂.wrote (by simpa using hlen)
    | cons x xs =>
      rw [List.length_cons] at hlen
      have hys : ys = [] := List.eq_nil_of_length_eq_zero (by omega)
      exact h₂.none hys ▸ h₁.wrote (by rw [List.length_cons]; omega)

omit [LinearOrder U] in
/-- An unsaved merge has changed nothing. -/
theorem queueChange_unsaved [DecidableEq U] (pending result : List (Change U))
    (change : Change U) (offset : Nat)
    (h : queueChange pending change offset = .ok (result, false)) : result = pending := by
  rw [queueChange] at h
  split at h
  · simp at h
  · split at h
    · simp at h
    · split at h
      · simpa using h.symm
      · split at h
        · simp at h
        · split at h <;> simp at h

/-- Putting a change whose merge is known. -/
theorem put_told (live context : Finset U) (s : HookScheduler U) (change : Change U)
    (offset : Nat) (result : List (Change U)) (saved : Bool)
    (hms : ∃ ms, s.contextMembers = some ms ∧ ms.Nodup ∧ ∀ u, u ∈ ms ↔ u ∈ context)
    (hwaits : s.runQueue.waiting ≠ 0 → s.runQueue.waiting = 1 ∧ s.running = true)
    (hresult : queueChange s.runQueue.pending change
      (if s.runQueue.waiting ≠ 0 then 0 else offset) = .ok (result, saved))
    (hne : s.runQueue.waiting ≠ 0 → result ≠ []) (hinv : QueueInv live result context) :
    ∃ s' fired, put s (some change) offset = .ok (s', fired) ∧ Told live s' context ∧
      s'.memberVersions = s.memberVersions ∧ s'.running = s.running ∧
      s'.runQueue.pending = result ∧ Wrote (fun f => snapshot s' = some f) s s' ∧
      s'.contextMembers = s.contextMembers ∧
      (s'.stateFile = s.stateFile → result = s.runQueue.pending) := by
  obtain ⟨ms, hms, hnodup, hmem⟩ := hms
  have hqueue (offset : Nat) (hq : queueChange s.runQueue.pending change offset =
      .ok (result, saved)) : ∃ s₁, queueAndSave s change offset = .ok s₁ ∧
      s₁.runQueue = { s.runQueue with pending := result } ∧ s₁.contextMembers = some ms ∧
      s₁.memberVersions = s.memberVersions ∧ s₁.running = s.running ∧
      Wrote (fun f => snapshot s₁ = some f) s s₁ ∧
      (s₁.stateFile = s.stateFile → result = s.runQueue.pending) := by
    cases saved with
    | true =>
      let f : SavedState U := ⟨sorted ms, s.memberVersions, result⟩
      refine ⟨{ s with
          runQueue := { s.runQueue with pending := result }, stateFile := f :: s.stateFile },
        by simp [queueAndSave, hq, saveState, hms, f], rfl, hms, rfl, rfl,
        ⟨[f], rfl, fun f' hf' => ?_⟩, fun hsame => ?_⟩
      · rw [List.mem_singleton.mp hf']
        simp [snapshot, hms, f]
      · simp at hsame
    | false =>
      refine ⟨{ s with runQueue := { s.runQueue with pending := result } }, ?_, rfl, hms, rfl,
        rfl, wrote_refl _ _ _ rfl, fun _ => queueChange_unsaved _ _ _ offset hq⟩
      simp [queueAndSave, hq]
  by_cases hw : s.runQueue.waiting = 0
  · simp only [hw, ne_eq, not_true_eq_false, if_false] at hresult
    obtain ⟨s₁, hs₁, hq₁, hc₁, hv₁, hr₁, hf₁, hsame⟩ := hqueue offset hresult
    refine ⟨s₁, none, ?_, ⟨⟨ms, hc₁, hnodup, hmem⟩, by rw [hq₁]; exact hinv, ?_⟩, hv₁, hr₁,
      by rw [hq₁], hf₁, hc₁.trans hms.symm, hsame⟩
    · simp [put, hw, hs₁, bind, Except.bind]
    · intro hw₁
      rw [hq₁] at hw₁
      exact absurd hw hw₁
  · obtain ⟨hone, -⟩ := hwaits hw
    simp only [ne_eq, hw, not_false_eq_true, if_true] at hresult
    obtain ⟨s₁, hs₁, hq₁, hc₁, hv₁, hr₁, hf₁, hsame⟩ := hqueue 0 hresult
    obtain ⟨head, rest, hcons⟩ := List.exists_cons_of_ne_nil (hne hw)
    refine ⟨{ s₁ with runQueue := { s₁.runQueue with waiting := s₁.runQueue.waiting - 1 } },
      some (some head), ?_, ⟨⟨ms, hc₁, hnodup, hmem⟩, ?_, ?_⟩, hv₁, hr₁, ?_, ?_,
      hc₁.trans hms.symm, hsame⟩
    · have hp₁ : s₁.runQueue.pending = head :: rest := by rw [hq₁]; exact hcons
      simp [put, hw, hs₁, hp₁, bind, Except.bind]
    · simp only [hq₁]
      exact hinv
    · simp [hq₁, hone]
    · simp only [hq₁]
    · obtain ⟨files, hfiles, hsnap⟩ := hf₁
      exact ⟨files, hfiles, fun f hf => by simpa [snapshot] using hsnap f hf⟩

section behind

variable (live context : Finset U) (s : HookScheduler U) (u : U)

/-- Where a scheduler that runs puts a change of a unit without an entry behind the head. -/
theorem queueChange_running (t : ChangeType) (ms : List U) (h : Told live s context)
    (hr : s.running = true) (hbehind : ∀ p ∈ s.runQueue.pending.tail, p.unitName ≠ u) :
    queueChange s.runQueue.pending ⟨u, t, ms⟩
      (if s.runQueue.waiting ≠ 0 then 0 else s.running.toNat) =
        .ok (s.runQueue.pending ++ [⟨u, t, ms⟩], true) := by
  apply queueChange_new
  by_cases hw : s.runQueue.waiting = 0
  · simpa [hw, hr] using hbehind
  · simp [(h.waits hw).2.2]

/-- A change that goes to the end of the queue. -/
theorem loopKept_appended (units : List U) (s' : HookScheduler U) (more : List (Change U))
    (htold : Told live s' context) (hne : s.runQueue.pending ++ more ≠ [])
    (hp : s'.runQueue.pending = s.runQueue.pending ++ more) : LoopKept units s s' := by
  have hidle : s'.runQueue.waiting = 0 := by
    by_contra hw
    exact hne (hp ▸ (htold.waits hw).2.2)
  refine ⟨fun _ => hidle, fun _ _ => .inr ⟨hidle, hp ▸ hne⟩, fun d rest hs _ => ?_⟩
  exact ⟨d, rest ++ more, by rw [hp, hs, List.cons_append], rfl, rfl,
    fun p hin _ => ⟨p, List.mem_append_left _ hin, rfl, rfl⟩⟩

theorem putFor_running (s' : HookScheduler U) (c : Change U) (hc : c.unitName = u)
    (htold : Told live s' context)
    (hv : s'.memberVersions = s.memberVersions) (hr : s'.running = s.running)
    (hp : s'.runQueue.pending = s.runQueue.pending ++ [c])
    (hw : Wrote (fun f => snapshot s' = some f) s s') : PutFor [u] s s' := by
  refine ⟨by simp, hv, hr, ?_, ?_, wrote_mono _ _ _ _ hw (by simp), fun _ => hw,
    loopKept_appended live context s [u] s' [c] htold (by simp) hp⟩
  · intro p hin _
    exact ⟨p, by rw [hp]; exact List.mem_append_left _ hin, rfl, rfl⟩
  · intro _ p hin
    rw [hp] at hin
    cases hs : s.runQueue.pending with
    | nil => simp [hs] at hin
    | cons d rest =>
      rw [hs, List.cons_append, List.tail_cons, List.mem_append, List.mem_singleton] at hin
      rcases hin with hin | rfl
      · exact Or.inl hin
      · exact Or.inr (List.mem_singleton.mpr hc)

theorem putFor_stopped (s' : HookScheduler U) (change : Change U) (result : List (Change U))
    (saved : Bool) (context' : Finset U) (h : Told live s context) (htold : Told live s' context')
    (hr₀ : s.running = false)
    (hq : queueChange s.runQueue.pending change 0 = .ok (result, saved))
    (hv : s'.memberVersions = s.memberVersions) (hr : s'.running = s.running)
    (hp : s'.runQueue.pending = result)
    (hw : Wrote (fun f => snapshot s' = some f) s s') : PutFor [change.unitName] s s' := by
  have hidle := (told_loaded live context' s' htold (hr.trans hr₀)).idle
  refine ⟨by simp, hv, hr, ?_, ?_, wrote_mono _ _ _ _ hw (by simp), fun _ => hw,
    fun _ => hidle, fun hrun => ?_, fun d rest hs hother => ?_⟩
  · intro p hin hu
    rw [hp]
    exact queueChange_othersKept _ _ _ _ hq p hin (by simpa using hu)
  · intro ht
    simp [hr₀] at ht
  · simp [hr₀] at hrun
  · rw [hs] at hq
    have hqueue : QueueInv live (d :: rest) context := hs ▸ h.queue
    obtain ⟨d', rest', hresult, hdu, hdt, hkept⟩ := queueChange_head live context d rest result
      change saved hqueue (fun he => hother hr₀ (List.mem_singleton.mpr he)) hq
    exact ⟨d', rest', hp.trans hresult, hdu, hdt, fun p hin hu =>
      hkept p hin fun he => hu (List.mem_singleton.mpr he)⟩

end behind

section puts

variable (live context : Finset U) (s : HookScheduler U) (u : U)

theorem queueJoined_told (h : Told live s context) (hu : u ∉ context)
    (hbehind : s.running = true → ∀ p ∈ s.runQueue.pending.tail, p.unitName ≠ u) :
    ∃ s', queueJoined s u = .ok s' ∧ Told live s' (insert u context) ∧ PutFor [u] s s' ∧
      ∃ q ∈ s'.runQueue.pending, q.unitName = u ∧ q.changeType ≠ .departed := by
  obtain ⟨ms, hms, hnodup, hmem⟩ := h.members
  let joined : Change U := ⟨u, .joined, sorted (ms.insert u)⟩
  let s₁ : HookScheduler U := { s with contextMembers := some (ms.insert u) }
  have hmem' (w : U) : w ∈ ms.insert u ↔ w ∈ insert u context := by
    rw [List.mem_insert_iff, Finset.mem_insert, hmem]
  have hin (w : U) (hw : w ∈ joined.members) : w ∈ insert u context :=
    (hmem' w).mp (by simpa [joined] using hw)
  have hn : joined.members.Nodup := sorted_nodup _ hnodup.insert
  have hrun (s' : HookScheduler U) (fired : Option (Option (Change U)))
      (hput : put s₁ (some joined) s.running.toNat = .ok (s', fired)) :
      queueJoined s u = .ok s' := by
    simp only [s₁, joined] at hput
    simp [queueJoined, getChange, hms, hput, bind, Except.bind]
  have hcontext : ∃ ms, s₁.contextMembers = some ms ∧ ms.Nodup ∧
      ∀ w, w ∈ ms ↔ w ∈ insert u context := ⟨_, rfl, hnodup.insert, hmem'⟩
  cases hr : s.running with
  | true =>
    have hq := queueChange_running live context s u .joined (sorted (ms.insert u)) h hr
      (hbehind hr)
    have hinv : QueueInv live (s.runQueue.pending ++ [joined]) (insert u context) :=
      queueInv_new live context _ joined h.queue (hbehind hr)
        ⟨by simpa [joined] using hu, fun w hw => Finset.mem_insert.mp (hin w hw)⟩ hn
    obtain ⟨s', fired, hput, htold, hv, hr', hp, hw, -⟩ := put_told live (insert u context) s₁
      joined s.running.toNat _ true hcontext (fun hw => ⟨(h.waits hw).1, hr⟩) hq
      (by simp) hinv
    exact ⟨s', hrun s' fired hput, htold,
      putFor_running live _ s u s' joined rfl htold hv hr' hp hw, joined,
      by rw [hp]; exact List.mem_append_right _ (List.mem_singleton.mpr rfl), rfl, by simp [joined]⟩
  | false =>
    have hidle := (told_loaded live context s h hr).idle
    obtain ⟨result, saved, hq, hinv⟩ := queue_joined live context s.runQueue.pending u
      (sorted (ms.insert u)) h.queue hu hin hn
    obtain ⟨s', fired, hput, htold, hv, hr', hp, hw, -⟩ := put_told live (insert u context) s₁
      joined s.running.toNat result saved hcontext (fun hw => absurd hidle hw)
      (by simpa [s₁, hidle, hr] using hq)
      (fun hw => absurd hidle hw) hinv
    refine ⟨s', hrun s' fired hput, htold,
      putFor_stopped live context s s' joined result saved _ h htold hr hq hv hr' hp hw, ?_⟩
    rw [hp]
    rcases latest_cases u s.runQueue.pending with hnone | ⟨before, after, p, hs, hpu, ha⟩
    · rw [queueChange_new _ _ 0 hnone] at hq
      obtain ⟨rfl, -⟩ : s.runQueue.pending ++ [joined] = result ∧ true = saved := by
        simpa using hq
      exact ⟨joined, by simp, rfl, by simp [joined]⟩
    · have hdeparted : p.changeType = .departed := by
        have hlatest := wellQueued_latest live context before after p (hs ▸ h.queue.queued)
          (fun q hq' => hpu ▸ ha q hq')
        simpa using hlatest.not.mp (hpu ▸ hu)
      have hreplace : prescribed .departed joined.changeType = some (.replace .modified) := rfl
      rw [hs, queueChange_stopped joined p before after hpu ha, hdeparted, hreplace] at hq
      obtain ⟨rfl, -⟩ : _ = result ∧ true = saved := by simpa using hq
      exact ⟨{ joined with changeType := .modified }, by simp, rfl, by simp⟩

theorem queueDeparted_told (h : Told live s context) (hu : u ∈ context)
    (hbehind : s.running = true → ∀ p ∈ s.runQueue.pending.tail, p.unitName ≠ u) :
    ∃ s', queueDeparted s u = .ok s' ∧ Told live s' (context.erase u) ∧ PutFor [u] s s' := by
  obtain ⟨ms, hms, hnodup, hmem⟩ := h.members
  let departed : Change U := ⟨u, .departed, sorted (ms.erase u)⟩
  let s₁ : HookScheduler U := { s with contextMembers := some (ms.erase u) }
  have hmem' (w : U) : w ∈ ms.erase u ↔ w ∈ context.erase u := by
    rw [hnodup.mem_erase_iff, Finset.mem_erase, hmem]
  have hin (w : U) (hw : w ∈ departed.members) : w ∈ context :=
    (hmem w).mp (List.mem_of_mem_erase (by simpa [departed] using hw))
  have hn : departed.members.Nodup := sorted_nodup _ (hnodup.erase u)
  have hrun (s' : HookScheduler U) (fired : Option (Option (Change U)))
      (hput : put s₁ (some departed) s.running.toNat = .ok (s', fired)) :
      queueDeparted s u = .ok s' := by
    have hknown : u ∈ ms := (hmem u).mpr hu
    simp only [s₁, departed] at hput
    simp [queueDeparted, getChange, hms, hknown, hput, bind, Except.bind]
  have hcontext : ∃ ms, s₁.contextMembers = some ms ∧ ms.Nodup ∧
      ∀ w, w ∈ ms ↔ w ∈ context.erase u := ⟨_, rfl, hnodup.erase u, hmem'⟩
  cases hr : s.running with
  | true =>
    have hq := queueChange_running live context s u .departed (sorted (ms.erase u)) h hr
      (hbehind hr)
    have hinv : QueueInv live (s.runQueue.pending ++ [departed]) (context.erase u) :=
      queueInv_new live context _ departed h.queue (hbehind hr)
        ⟨by simpa [departed] using hu, fun w hw => Or.inr (hin w hw)⟩ hn
    obtain ⟨s', fired, hput, htold, hv, hr', hp, hw, -⟩ := put_told live (context.erase u) s₁
      departed s.running.toNat _ true hcontext (fun hw => ⟨(h.waits hw).1, hr⟩) hq
      (by simp) hinv
    exact ⟨s', hrun s' fired hput, htold,
      putFor_running live _ s u s' departed rfl htold hv hr' hp hw⟩
  | false =>
    have hidle := (told_loaded live context s h hr).idle
    obtain ⟨result, saved, hq, hinv⟩ := queue_departed live context s.runQueue.pending u
      (sorted (ms.erase u)) h.queue hu hin hn
    obtain ⟨s', fired, hput, htold, hv, hr', hp, hw, -⟩ := put_told live (context.erase u) s₁
      departed s.running.toNat result saved hcontext (fun hw => absurd hidle hw)
      (by simpa [s₁, hidle, hr] using hq)
      (fun hw => absurd hidle hw) hinv
    exact ⟨s', hrun s' fired hput, htold,
      putFor_stopped live context s s' departed result saved _ h htold hr hq hv hr' hp hw⟩

/-- What a file must hold for a new process to take over from `context`. -/
structure Recoverable (live : Finset U) (f : SavedState U) (context : Finset U) : Prop where
  members : f.contextMembers.Nodup ∧ ∀ u, u ∈ f.contextMembers ↔ u ∈ context
  versions : ∀ u, u ∈ f.memberVersions ↔ u ∈ context
  queue : QueueInv live f.changeQueue context

theorem told_recoverable (h : Told live s context)
    (hv : ∀ u, u ∈ s.memberVersions ↔ u ∈ context) (f : SavedState U)
    (hf : snapshot s = some f) : Recoverable live f context := by
  obtain ⟨ms, hms, hnodup, hmem⟩ := h.members
  obtain rfl : _ = f := by simpa [snapshot, hms] using hf
  exact ⟨⟨sorted_nodup ms hnodup, by simpa using hmem⟩, hv, h.queue⟩

theorem told_saveState (h : Told live s context) :
    ∃ s' f, saveState s = .ok s' ∧ Told live s' context ∧ s'.memberVersions = s.memberVersions ∧
      s'.running = s.running ∧ s'.runQueue = s.runQueue ∧ snapshot s' = some f ∧
      s'.stateFile = f :: s.stateFile := by
  obtain ⟨f, hf⟩ := told_snapshot live context s h
  exact ⟨_, f, saveState_run s f hf, ⟨h.members, h.queue, h.waits⟩, rfl, rfl, rfl, hf, rfl⟩

/-- A settings change of a member, or of a unit at version 0. -/
theorem queueModified_told (uv : U × Int) (h : Told live s context)
    (hv : ∀ u, u ∈ s.memberVersions ↔ u ∈ context) (hu : uv.1 ∈ context ∨ uv.2 ≤ 0) :
    ∃ s', queueModified s uv = .ok s' ∧ Told live s' context ∧
      (∀ u, u ∈ s'.memberVersions ↔ u ∈ context) ∧ s'.running = s.running ∧
      Wrote (fun f => snapshot s' = some f) s s' ∧ LoopKept [] s s' := by
  by_cases hnew : uv.2 > (s.memberVersions.lookup uv.1).getD 0
  · have hu : uv.1 ∈ context := by
      rcases hu with hu | hle
      · exact hu
      · by_contra hno
        rw [AList.lookup_eq_none.mpr ((hv uv.1).not.mpr hno), Option.getD_none] at hnew
        omega
    obtain ⟨ms, hms, hnodup, hmem⟩ := h.members
    let modified : Change U := ⟨uv.1, .modified, sorted ms⟩
    let s₁ : HookScheduler U := { s with memberVersions := s.memberVersions.insert uv.1 uv.2 }
    have hin (w : U) (hw : w ∈ modified.members) : w ∈ context :=
      (hmem w).mp (by simpa [modified] using hw)
    have hn : modified.members.Nodup := sorted_nodup _ hnodup
    have hqueued : ∃ result saved, queueChange s.runQueue.pending modified
        (if s.runQueue.waiting ≠ 0 then 0 else s.running.toNat) = .ok (result, saved) ∧
        QueueInv live result context := by
      cases hr : s.running with
      | false =>
        have hidle := (told_loaded live context s h hr).idle
        obtain ⟨result, saved, hq, hinv⟩ := queue_modified live context s.runQueue.pending uv.1
          (sorted ms) h.queue hu hin hn
        exact ⟨result, saved, by simpa [hidle] using hq, hinv⟩
      | true =>
        have hnew (hbehind : ∀ p ∈ s.runQueue.pending.tail, p.unitName ≠ uv.1) :=
          queueInv_new live context _ modified h.queue hbehind
            ⟨by simpa [modified] using hu, fun w hw => Or.inr (hin w hw)⟩ hn
        rcases latest_cases uv.1 s.runQueue.pending.tail with hnone | ⟨before, after, p, ht, hp, ha⟩
        · have hq := queueChange_running live context s uv.1 .modified (sorted ms) h hr hnone
          rw [hr] at hq
          exact ⟨_, true, hq, hnew hnone⟩
        · have hidle : s.runQueue.waiting = 0 := by
            by_contra hw
            simp [(h.waits hw).2.2] at ht
          cases hs : s.runQueue.pending with
          | nil => simp [hs] at ht
          | cons c rest =>
            rw [hs, List.tail_cons] at ht
            subst ht
            have hqueued : WellQueued live (c :: (before ++ p :: after)) context :=
              hs ▸ h.queue.queued
            have hlatest := wellQueued_latest live context (c :: before) after p hqueued
              (fun q hq => hp ▸ ha q hq)
            have hkeep : prescribed p.changeType modified.changeType = some .keep := by
              cases htype : p.changeType with
              | departed => exact absurd htype (hlatest.mp (hp ▸ hu))
              | joined => rfl
              | modified => rfl
            have hq := queueChange_split modified (c :: (before ++ p :: after)) before after p 1
              rfl hp ha
            rw [hkeep] at hq
            exact ⟨_, false, by simpa [hidle] using hq, hs ▸ h.queue⟩
    obtain ⟨result, saved, hq, hinv⟩ := hqueued
    obtain ⟨more, hmore, hne⟩ : ∃ more, result = s.runQueue.pending ++ more ∧ result ≠ [] := by
      rcases queueChange_modified _ result modified _ saved rfl hq with ⟨rfl, hne⟩ | rfl
      · exact ⟨[], by simp, hne⟩
      · exact ⟨[modified], rfl, by simp⟩
    obtain ⟨s', fired, hput, htold, hv', hr', hp', hw, -⟩ := put_told live context s₁ modified
      s.running.toNat result saved ⟨ms, hms, hnodup, hmem⟩
      (fun hw => ⟨(h.waits hw).1, (h.waits hw).2.1⟩) hq (fun _ => hne) hinv
    refine ⟨s', ?_, htold, fun u => ?_, hr', hw,
      loopKept_appended live context s [] s' more htold (hmore ▸ hne) (hp'.trans hmore)⟩
    · simp only [s₁, modified, hms] at hput
      simp [queueModified, getChange, hms, hnew, hput, bind, Except.bind]
    · rw [hv', AList.mem_insert, hv]
      exact ⟨fun hor => hor.elim (fun he => he ▸ hu) id, Or.inr⟩
  · exact ⟨s, by simp [queueModified, hnew], h, hv, rfl, wrote_refl _ _ _ rfl,
      loopKept_same _ _ _ rfl⟩

end puts

section folds

variable (live : Finset U)

/-- Behind the change being executed there is none of the units that are still to be queued. -/
theorem putFor_behind (s s₁ : HookScheduler U) (u : U) (units : List U) (h : PutFor [u] s s₁)
    (hu : u ∉ units)
    (hbehind : s.running = true → ∀ p ∈ s.runQueue.pending.tail, p.unitName ∉ u :: units) :
    s₁.running = true → ∀ p ∈ s₁.runQueue.pending.tail, p.unitName ∉ units := by
  intro hr p hp
  rcases h.behind (h.running ▸ hr) p hp with hp | hp
  · exact fun hin => hbehind (h.running ▸ hr) p hp (List.mem_cons_of_mem u hin)
  · exact List.mem_singleton.mp hp ▸ hu

theorem joined_rest (context : Finset U) (u : U) (units : List U) (hnot : u ∉ units)
    (hu : ∀ w ∈ u :: units, w ∉ context) : ∀ w ∈ units, w ∉ insert u context := by
  intro w hw
  rw [Finset.mem_insert]
  rintro (rfl | hin)
  · exact hnot hw
  · exact hu w (List.mem_cons_of_mem u hw) hin

theorem departed_rest (context : Finset U) (u : U) (units : List U) (hnot : u ∉ units)
    (hu : ∀ w ∈ u :: units, w ∈ context) : ∀ w ∈ units, w ∈ context.erase u := by
  intro w hw
  exact Finset.mem_erase.mpr ⟨fun he => hnot (he ▸ hw), hu w (List.mem_cons_of_mem u hw)⟩

/-- Joining units one after the other. -/
theorem foldlM_queueJoined (context : Finset U) (s : HookScheduler U) (units : List U)
    (h : Told live s context) (hnodup : units.Nodup) (hu : ∀ u ∈ units, u ∉ context)
    (hbehind : s.running = true → ∀ p ∈ s.runQueue.pending.tail, p.unitName ∉ units) :
    ∃ s', units.foldlM queueJoined s = .ok s' ∧ Told live s' (units.toFinset ∪ context) ∧
      PutFor units s s' ∧ ∀ u ∈ units, ∃ q ∈ s'.runQueue.pending, q.unitName = u ∧
        q.changeType ≠ .departed := by
  induction units generalizing s context with
  | nil => exact ⟨s, rfl, by simpa using h, putFor_nil s, by simp⟩
  | cons u units ih =>
    obtain ⟨s₁, hs₁, ht₁, hp₁, q, hq, hqu, hqt⟩ := queueJoined_told live context s u h
      (hu u (by simp)) (fun hr p hp he => hbehind hr p hp (by simp [he]))
    rw [List.nodup_cons] at hnodup
    have hrest := joined_rest context u units hnodup.1 hu
    have hbehind₁ := putFor_behind s s₁ u units hp₁ hnodup.1 hbehind
    obtain ⟨s₂, hs₂, ht₂, hp₂, hj₂⟩ := ih (insert u context) s₁ ht₁ hnodup.2 hrest hbehind₁
    refine ⟨s₂, ?_, ?_, putFor_append [u] units s s₁ s₂ hp₁ hp₂ (by simpa using hnodup.1), ?_⟩
    · rw [List.foldlM_cons, hs₁]
      exact hs₂
    · rwa [List.toFinset_cons, Finset.insert_union, ← Finset.union_insert]
    · intro w hw
      rcases List.mem_cons.mp hw with rfl | hw
      · obtain ⟨r, hr, hru, hrt⟩ := hp₂.others q hq (hqu ▸ hnodup.1)
        exact ⟨r, hr, hru.trans hqu, hrt ▸ hqt⟩
      · exact hj₂ w hw

theorem foldlM_queueDeparted (context : Finset U) (s : HookScheduler U) (units : List U)
    (h : Told live s context) (hnodup : units.Nodup) (hu : ∀ u ∈ units, u ∈ context)
    (hbehind : s.running = true → ∀ p ∈ s.runQueue.pending.tail, p.unitName ∉ units) :
    ∃ s', units.foldlM queueDeparted s = .ok s' ∧ Told live s' (context \ units.toFinset) ∧
      PutFor units s s' := by
  induction units generalizing s context with
  | nil => exact ⟨s, rfl, by simpa using h, putFor_nil s⟩
  | cons u units ih =>
    obtain ⟨s₁, hs₁, ht₁, hp₁⟩ := queueDeparted_told live context s u h
      (hu u (by simp)) (fun hr p hp he => hbehind hr p hp (by simp [he]))
    rw [List.nodup_cons] at hnodup
    have hrest := departed_rest context u units hnodup.1 hu
    have hbehind₁ := putFor_behind s s₁ u units hp₁ hnodup.1 hbehind
    obtain ⟨s₂, hs₂, ht₂, hp₂⟩ := ih (context.erase u) s₁ ht₁ hnodup.2 hrest hbehind₁
    refine ⟨s₂, ?_, ?_, putFor_append [u] units s s₁ s₂ hp₁ hp₂ (by simpa using hnodup.1)⟩
    · rw [List.foldlM_cons, hs₁]
      exact hs₂
    · rwa [List.toFinset_cons, Finset.sdiff_insert, ← Finset.erase_sdiff_comm]

theorem foldlM_queueModified (context : Finset U) (s : HookScheduler U)
    (unitVersions : List (U × Int)) (h : Told live s context)
    (hv : ∀ u, u ∈ s.memberVersions ↔ u ∈ context)
    (hu : ∀ uv ∈ unitVersions, uv.1 ∈ context ∨ uv.2 ≤ 0) :
    ∃ s', unitVersions.foldlM queueModified s = .ok s' ∧ Told live s' context ∧
      (∀ u, u ∈ s'.memberVersions ↔ u ∈ context) ∧ s'.running = s.running ∧
      Wrote (fun f => Recoverable live f context) s s' ∧ LoopKept [] s s' := by
  induction unitVersions generalizing s with
  | nil => exact ⟨s, rfl, h, hv, rfl, wrote_refl _ _ _ rfl, loopKept_same _ _ _ rfl⟩
  | cons uv unitVersions ih =>
    obtain ⟨s₁, hs₁, ht₁, hv₁, hr₁, hw₁, hl₁⟩ :=
      queueModified_told live context s uv h hv (hu uv (by simp))
    obtain ⟨s₂, hs₂, ht₂, hv₂, hr₂, hw₂, hl₂⟩ := ih s₁ ht₁ hv₁ (fun w hw => hu w (by simp [hw]))
    refine ⟨s₂, ?_, ht₂, hv₂, hr₂.trans hr₁, wrote_trans _ _ _ _ ?_ hw₂,
      loopKept_append [] [] s s₁ s₂ hl₁ hl₂ hr₁ (by simp)⟩
    · rw [List.foldlM_cons, hs₁]
      exact hs₂
    · exact wrote_mono _ _ _ _ hw₁ (told_recoverable live context s₁ ht₁ hv₁)

end folds

section callbacks

variable (live : Finset U) (s : HookScheduler U)

local instance lawfulBEq_unit : LawfulBEq U := inferInstance

/-- The units a notification of `newUnits` adds or removes. -/
def changedUnits (newUnits : List U) : List U :=
  sorted (newUnits.dedup.filter (· ∉ s.memberVersions)) ++
    sorted (s.memberVersions.keys.filter (· ∉ newUnits))

/-- Any membership is taken up, whether hooks are executed meanwhile or not. -/
theorem cbChangeMembers_told (context : Finset U) (oldUnits newUnits : List U)
    (h : Told live { s with contextMembers := some (s.contextMembers.getD oldUnits.dedup) }
      context)
    (hv : ∀ u, u ∈ s.memberVersions ↔ u ∈ context)
    (hbehind : s.running = true → ∀ p ∈ s.runQueue.pending.tail,
      p.unitName ∉ changedUnits s newUnits) :
    ∃ s' f, cbChangeMembers s oldUnits newUnits = .ok s' ∧ Told live s' newUnits.toFinset ∧
      (∀ u, u ∈ s'.memberVersions ↔ u ∈ newUnits) ∧ s'.running = s.running ∧
      (∀ u ∈ newUnits, u ∉ context → ∃ q ∈ s'.runQueue.pending, q.unitName = u ∧
        q.changeType ≠ .departed) ∧
      s'.stateFile.head? = some f ∧ snapshot s' = some f ∧
      Wrote (fun _ => True) s s' ∧ ((changedUnits s newUnits).length ≤ 1 →
        Wrote (fun f => Recoverable live f newUnits.toFinset) s s') ∧
      LoopKept (changedUnits s newUnits) s s' := by
  let added := newUnits.dedup.filter (· ∉ s.memberVersions)
  let removed := s.memberVersions.keys.filter (· ∉ newUnits)
  let versions := removed.foldl (fun d u => d.erase u)
    (added.foldl (fun d u => d.insert u 0) s.memberVersions)
  let s₀ : HookScheduler U := { s with
    contextMembers := some (s.contextMembers.getD oldUnits.dedup), memberVersions := versions }
  have hadded (u : U) : u ∈ added ↔ u ∈ newUnits ∧ u ∉ context := by
    simp [added, hv]
  have hremoved (u : U) : u ∈ removed ↔ u ∈ context ∧ u ∉ newUnits := by
    simp [removed, AList.mem_keys.symm, hv]
  have hversions (u : U) : u ∈ versions ↔ u ∈ newUnits := by
    simp only [versions, Dict.mem_foldl_erase, Dict.mem_foldl_insert, hadded, hremoved, hv]
    tauto
  have hstart : Told live s₀ context := ⟨h.members, h.queue, h.waits⟩
  obtain ⟨s₁, hs₁, ht₁, hp₁, hj₁⟩ := foldlM_queueJoined live context s₀ (sorted added) hstart
    (sorted_nodup _ (newUnits.nodup_dedup.filter _)) (by simp [hadded])
    (fun hr p hp hin => hbehind hr p hp (List.mem_append_left _ hin))
  obtain ⟨s₂, hs₂, ht₂, hp₂⟩ := foldlM_queueDeparted live _ s₁ (sorted removed) ht₁
    (sorted_nodup _ (s.memberVersions.keys_nodup.filter _)) (by
      intro u hu
      simp only [mem_sorted, hremoved] at hu
      simp [hu.1]) (by
      intro hr p hp hin
      rw [hp₁.running] at hr
      rcases hp₁.behind hr p hp with hp | hp
      · exact hbehind hr p hp (List.mem_append_right _ hin)
      · simp only [mem_sorted, hadded, hremoved] at hp hin
        exact hin.2 hp.1)
  have hcontext : ((sorted added).toFinset ∪ context) \ (sorted removed).toFinset =
      newUnits.toFinset := by
    ext u
    simp only [Finset.mem_sdiff, Finset.mem_union, List.mem_toFinset, mem_sorted, hadded,
      hremoved]
    tauto
  rw [hcontext] at ht₂
  have hput := putFor_append _ _ _ _ _ hp₁ hp₂ (by simp [hadded, hremoved]; tauto)
  have hv₂ (u : U) : u ∈ s₂.memberVersions ↔ u ∈ newUnits := by
    rw [hput.versions]
    exact hversions u
  obtain ⟨s₃, f, hs₃, ht₃, hv₃, hr₃, hq₃, hf₃, hfile₃⟩ := told_saveState live _ s₂ ht₂
  have hlast : Wrote (fun f => Recoverable live f newUnits.toFinset) s₂ s₃ := by
    refine ⟨[f], hfile₃, fun f' hf' => ?_⟩
    rw [List.mem_singleton.mp hf']
    exact told_recoverable live _ s₃ ht₃ (by simpa [hv₃] using hv₂) f hf₃
  refine ⟨s₃, f, ?_, ht₃, by rwa [hv₃], hr₃.trans hput.running, ?_, by rw [hfile₃]; rfl, hf₃,
    wrote_trans _ _ s₂ _ hput.grows (wrote_mono _ _ _ _ hlast (by simp)), ?_, ?_⟩
  · simp only [cbChangeMembers]
    rw [hs₁]
    simp only [bind, Except.bind] at hs₂ ⊢
    rw [show s.memberVersions.keys.filter (· ∉ newUnits) = removed from rfl, hs₂]
    exact hs₃
  · intro u hu hnot
    obtain ⟨q, hq, hqu, hqt⟩ := hj₁ u (by simp [hadded, hu, hnot])
    obtain ⟨r, hr, hru, hrt⟩ := hp₂.others q hq (by simp [hqu, hremoved, hu])
    exact ⟨r, hq₃ ▸ hr, hru.trans hqu, hrt ▸ hqt⟩
  · intro hlen
    refine wrote_trans _ _ s₂ _ ?_ hlast
    exact wrote_mono _ _ _ _ (hput.wrote hlen)
      (told_recoverable live _ s₂ ht₂ (by simpa using hv₂))
  · have hsaved := loopKept_append _ [] _ _ _ hput.loop (loopKept_same [] s₂ s₃ hq₃) hput.running
      (by simp)
    rw [List.append_nil] at hsaved
    exact ⟨hsaved.idle, hsaved.woken, hsaved.head⟩

theorem cbChangeSettings_told (context : Finset U) (unitVersions : List (U × Int))
    (h : Told live s context) (hv : ∀ u, u ∈ s.memberVersions ↔ u ∈ context)
    (hu : ∀ uv ∈ unitVersions, uv.1 ∈ context ∨ uv.2 ≤ 0) :
    ∃ s' f, cbChangeSettings s unitVersions = .ok s' ∧ Told live s' context ∧
      (∀ u, u ∈ s'.memberVersions ↔ u ∈ context) ∧ s'.running = s.running ∧
      s'.stateFile.head? = some f ∧ snapshot s' = some f ∧
      Wrote (fun f => Recoverable live f context) s s' ∧ LoopKept [] s s' := by
  obtain ⟨s₁, hs₁, ht₁, hv₁, hr₁, hw₁, hl₁⟩ :=
    foldlM_queueModified live context s unitVersions h hv hu
  obtain ⟨s₂, f, hs₂, ht₂, hv₂, hr₂, hq₂, hf₂, hfile₂⟩ := told_saveState live _ s₁ ht₁
  rw [← hv₂] at hv₁
  refine ⟨s₂, f, ?_, ht₂, hv₁, hr₂.trans hr₁, by rw [hfile₂]; rfl, hf₂,
    wrote_trans _ _ _ _ hw₁ ⟨[f], hfile₂, fun f' hf' => ?_⟩,
    loopKept_append [] [] s s₁ s₂ hl₁ (loopKept_same [] s₁ s₂ hq₂) hr₁ (by simp)⟩
  · rw [cbChangeSettings, hs₁]
    exact hs₂
  · rw [List.mem_singleton.mp hf']
    exact told_recoverable live context s₂ ht₂ hv₁ f hf₂

end callbacks

/-- The scheduler's versions are those of the members it has been told of. -/
structure Synced (live : Finset U) (s : HookScheduler U) (members : List U) : Prop where
  loaded : Loaded false live s members.toFinset
  versions : ∀ u, u ∈ s.memberVersions ↔ u ∈ members

theorem cbChangeMembers_synced (live context : Finset U) (s : HookScheduler U)
    (oldUnits newUnits : List U)
    (h : Loaded false live { s with contextMembers := s.contextMembers.getD oldUnits.dedup }
      context)
    (hv : ∀ u, u ∈ s.memberVersions ↔ u ∈ context) :
    ∃ s', cbChangeMembers s oldUnits newUnits = .ok s' ∧ Synced live s' newUnits := by
  have hr : s.running = false := h.running
  obtain ⟨s', -, hs', ht', hv', hr', -⟩ := cbChangeMembers_told live s context oldUnits newUnits
    (loaded_told false live context _ h) hv (by simp [hr])
  exact ⟨s', hs', told_loaded live _ s' ht' (hr'.trans hr), hv'⟩

theorem cbChangeSettings_synced (live : Finset U) (s : HookScheduler U) (members : List U)
    (unitVersions : List (U × Int)) (h : Synced live s members)
    (hu : ∀ uv ∈ unitVersions, uv.1 ∈ members) :
    ∃ s', cbChangeSettings s unitVersions = .ok s' ∧ Synced live s' members := by
  obtain ⟨s', -, hs', ht', hv', hr', -⟩ := cbChangeSettings_told live s members.toFinset
    unitVersions (loaded_told false live _ s h.loaded) (by simpa using h.versions)
    (fun uv huv => Or.inl (by simpa using hu uv huv))
  exact ⟨s', hs', told_loaded live _ s' ht' (hr'.trans h.loaded.running), by simpa using hv'⟩

end Juju.Hooks

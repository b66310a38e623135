import Juju.Hooks.LateSettings

namespace Juju.Hooks
open Juju.Base

variable {U : Type} [LinearOrder U]

/-- A new scheduler on the state file that it finds, if any. -/
def loadState : Option (SavedState U) → HookScheduler U
  | none => createState
  | some f => ⟨false, some f.contextMembers, f.memberVersions, ⟨f.changeQueue, 0⟩, [f]⟩

/-- The state file of a process that dies in an event, with `unsaved` of the renames that lead
to `s'` still to come. -/
def fileLeft (s' : Session U) (unsaved : Nat) : Option (SavedState U) :=
  (s'.scheduler.stateFile.drop unsaved).head?

/-- How often the state file is renamed in an event from `s` to `s'`. -/
def renames (s s' : Session U) : Nat :=
  s'.scheduler.stateFile.length - s.scheduler.stateFile.length

/-- The queue makes up for what the charm has been told: units it has not seen come in, and
units it has seen go out. -/
structure MadeUp (live : Finset U) (now : List U) (pending : List (Change U)) : Prop where
  joined : ∀ u ∈ now, u ∉ live → ∃ c ∈ pending, c.unitName = u ∧ c.changeType = .joined
  departed : ∀ u ∉ now, u ∈ live → ∃ c ∈ pending, c.unitName = u ∧ c.changeType = .departed

/-- The process does not die between two changes of one notification, nor with the success of
a joined (departed) hook unsaved if its unit is gone (back) when the next process starts. -/
def DiesCleanly (s s' : Session U) (unsaved : Nat) (now : List U) : SessionEvent U → Prop
  | .members newUnits => (changedUnits s.scheduler newUnits).length ≤ 1 ∨
      fileLeft s' unsaved = s.scheduler.stateFile.head? ∨
      fileLeft s' unsaved = s'.scheduler.stateFile.head?
  | .hookEnds true => unsaved = 0 ∨ ∀ c, s.executing = some c →
      (c.changeType = .joined → c.unitName ∈ now) ∧
        (c.changeType = .departed → c.unitName ∉ now)
  | _ => True

theorem told_madeUp (live live' : Finset U) (r : HookScheduler U) (now : List U)
    (h : Told live r now.toFinset) (hin : ∀ u ∈ now, u ∉ live' → u ∉ live)
    (hout : ∀ u ∉ now, u ∈ live' → u ∈ live) : MadeUp live' now r.runQueue.pending := by
  constructor
  · intro u hu hl
    exact wellQueued_joined _ _ _ u h.queue.queued (List.mem_toFinset.mpr hu) (hin u hu hl)
  · intro u hu hl
    exact wellQueued_departed _ _ _ u h.queue.queued (by simpa using hu) (hout u hu hl)

/-- A new process takes over from a recoverable file. -/
theorem recoverable_told (live context : Finset U) (f : SavedState U) (now : List U)
    (h : Recoverable live f context) :
    ∃ r, cbChangeMembers (loadState (some f)) [] now = .ok r ∧ Told live r now.toFinset := by
  obtain ⟨r, -, hr, ht, -⟩ := cbChangeMembers_told live (loadState (some f)) context [] now
    ⟨⟨_, rfl, h.members⟩, h.queue, fun hw => absurd rfl hw⟩ h.versions
    (fun hrun => absurd hrun (by simp [loadState]))
  exact ⟨r, hr, ht⟩

theorem recoverable_madeUp (live context : Finset U) (f : SavedState U) (now : List U)
    (h : Recoverable live f context) :
    ∃ r, cbChangeMembers (loadState (some f)) [] now = .ok r ∧
      MadeUp live now r.runQueue.pending := by
  obtain ⟨r, hr, ht⟩ := recoverable_told live context f now h
  exact ⟨r, hr, told_madeUp live live r now ht (fun _ _ => id) (fun _ _ => id)⟩

/-- With the success of the hook at the head unsaved. -/
theorem unsaved_madeUp (live context : Finset U) (f : SavedState U) (now : List U)
    (c : Change U) (h : Recoverable live f context)
    (hjoined : c.changeType = .joined → c.unitName ∈ now)
    (hdeparted : c.changeType = .departed → c.unitName ∉ now) :
    ∃ r, cbChangeMembers (loadState (some f)) [] now = .ok r ∧
      MadeUp (c.settle live) now r.runQueue.pending := by
  obtain ⟨r, hr, ht⟩ := recoverable_told live context f now h
  refine ⟨r, hr, told_madeUp live _ r now ht ?_ ?_⟩
  · intro u hu hl hin
    cases hc : c.changeType with
    | joined => simp [Change.settle, hc, hin] at hl
    | modified => simp [Change.settle, hc, hin] at hl
    | departed =>
      have hcu : u = c.unitName := by simpa [Change.settle, hc, hin] using hl
      exact hdeparted hc (hcu ▸ hu)
  · intro u hu hl
    cases hc : c.changeType with
    | joined =>
      rcases Finset.mem_insert.mp (by simpa only [Change.settle, hc] using hl) with hcu | hin
      · exact absurd (hcu ▸ hjoined hc) hu
      · exact hin
    | modified => simpa only [Change.settle, hc] using hl
    | departed => exact Finset.mem_of_mem_erase (by simpa only [Change.settle, hc] using hl)

omit [LinearOrder U] in
/-- The file left is one that the event has written, or the one it found. -/
theorem fileLeft_cases (P : SavedState U → Prop) (s s' : Session U) (unsaved : Nat)
    (hw : Wrote P s.scheduler s'.scheduler) (hu : unsaved ≤ renames s s') :
    (∃ f, fileLeft s' unsaved = some f ∧ P f) ∨
      fileLeft s' unsaved = s.scheduler.stateFile.head? := by
  obtain ⟨files, hfiles, hp⟩ := hw
  have hlen : unsaved ≤ files.length := by
    simpa [renames, hfiles] using hu
  simp only [fileLeft, hfiles, List.drop_append_of_le_length hlen]
  cases hd : files.drop unsaved with
  | nil => exact Or.inr rfl
  | cons f rest =>
    have hf : f ∈ files := List.mem_of_mem_drop (hd ▸ List.mem_cons_self)
    exact Or.inl ⟨f, rfl, hp f hf⟩

/-- The newest file of a session is recoverable. -/
theorem inv_recovers (s : Session U) (h : SessionInv s) (now : List U) :
    ∃ r, cbChangeMembers (loadState s.scheduler.stateFile.head?) [] now = .ok r ∧
      MadeUp (present s.history) now r.runQueue.pending := by
  rw [h.file]
  cases hc : s.scheduler.contextMembers with
  | none =>
    have hnone : snapshot s.scheduler = none := by simp [snapshot, hc]
    rw [hnone, (h.fresh hc).1]
    obtain ⟨s', hs', hinv, hhistory, hcurrent, -, hknown, -⟩ :=
      members_inv freshSession now freshSession_inv (by simp [NoneBehind, freshSession])
    cases hrun : cbChangeMembers (createState : HookScheduler U) [] now with
    | error e => simp [Session.step, freshSession, hrun, bind, Except.bind] at hs'
    | ok r =>
      have hr : s'.scheduler = r := by
        simp only [Session.step, freshSession, hrun, bind, Except.bind] at hs'
        exact (Except.ok.inj hs') ▸ rfl
      have ht := inv_told _ hinv hknown
      rw [hhistory, hcurrent, hr] at ht
      exact ⟨r, hrun, told_madeUp _ _ r now ht (fun _ _ => id) (fun _ _ => id)⟩
  | some ms =>
    have hknown : s.scheduler.contextMembers ≠ none := by simp [hc]
    have ht := inv_told s h hknown
    obtain ⟨f, hf⟩ := told_snapshot _ _ _ ht
    rw [hf]
    exact recoverable_madeUp _ _ f now
      (told_recoverable _ _ _ ht (by simpa using h.versions) f hf)

/-- Wherever the process dies, in an event of a session whose events have all been timely, the
next process makes up for it, if it dies cleanly. -/
theorem fileLeft_recovers (s s' : Session U) (e : SessionEvent U) (unsaved : Nat)
    (now : List U) (hs : Reached Timely s) (he : Timely s e) (hstep : s.step e = .ok s')
    (hu : unsaved ≤ renames s s') (hdies : DiesCleanly s s' unsaved now e) :
    ∃ r, cbChangeMembers (loadState (fileLeft s' unsaved)) [] now = .ok r ∧
      MadeUp (present s'.history) now r.runQueue.pending := by
  have h := reached_inv s hs
  have hinv' : SessionInv s' := reached_inv s' (.step s s' e hs he hstep)
  have hnewest : unsaved = 0 → ∃ r,
      cbChangeMembers (loadState (fileLeft s' unsaved)) [] now = .ok r ∧
        MadeUp (present s'.history) now r.runQueue.pending := by
    rintro rfl
    exact inv_recovers s' hinv' now
  have hfound : s'.history = s.history → fileLeft s' unsaved = s.scheduler.stateFile.head? →
      ∃ r, cbChangeMembers (loadState (fileLeft s' unsaved)) [] now = .ok r ∧
        MadeUp (present s'.history) now r.runQueue.pending := by
    intro hhistory hfile
    rw [hfile, hhistory]
    exact inv_recovers s h now
  have hwritten (context : Finset U) (hhistory : s'.history = s.history)
      (hw : Wrote (fun f => Recoverable (present s.history) f context) s.scheduler
        s'.scheduler) : ∃ r,
      cbChangeMembers (loadState (fileLeft s' unsaved)) [] now = .ok r ∧
        MadeUp (present s'.history) now r.runQueue.pending := by
    rcases fileLeft_cases _ s s' unsaved hw hu with ⟨f, hf, hrec⟩ | hfile
    · rw [hf, hhistory]
      exact recoverable_madeUp _ context f now hrec
    · exact hfound hhistory hfile
  cases e with
  | members newUnits =>
    obtain ⟨s₁, hs₁, -, hhistory, -, -, -, -, hone⟩ := members_inv s newUnits h he
    obtain rfl : s₁ = s' := Except.ok.inj (hs₁.symm.trans hstep)
    rcases hdies with hlen | hfile | hfile
    · exact hwritten newUnits.toFinset hhistory (hone hlen)
    · exact hfound hhistory hfile
    · rw [hfile]
      exact inv_recovers s₁ hinv' now
  | settings unitVersions =>
    obtain ⟨s₁, hs₁, -, hhistory, -, -, hw⟩ := settings_inv s unitVersions h he
    obtain rfl : s₁ = s' := Except.ok.inj (hs₁.symm.trans hstep)
    exact hwritten s.current.toFinset hhistory hw
  | run =>
    obtain ⟨s₁, hs₁, -, hhistory, -, hsame⟩ := run_inv s h
    obtain rfl : s₁ = s' := Except.ok.inj (hs₁.symm.trans hstep)
    exact hwritten ∅ hhistory (wrote_refl _ _ _ hsame)
  | stop =>
    obtain ⟨s₁, hs₁, -, hhistory, -, hsame⟩ := stop_inv s h
    obtain rfl : s₁ = s' := Except.ok.inj (hs₁.symm.trans hstep)
    exact hwritten ∅ hhistory (wrote_refl _ _ _ hsame)
  | hookEnds success =>
    cases hc : s.executing with
    | none =>
      obtain rfl : s = s' := by simpa [Session.step, hc] using hstep
      exact hwritten ∅ rfl (wrote_refl _ _ _ rfl)
    | some c =>
      obtain ⟨s₁, e, middle, hs₁, -, hhistory, hec, hes, -, hbefore, hafter⟩ :=
        hookEnds_inv s c success h hc
      obtain rfl : s₁ = s' := Except.ok.inj (hs₁.symm.trans hstep)
      have hw := wrote_trans (fun f => Recoverable (present s.history) f s.current.toFinset ∨
          Recoverable (present s₁.history) f s.current.toFinset) _ _ _
        (wrote_mono _ _ _ _ hbefore fun f hf => Or.inl hf)
        (wrote_mono _ _ _ _ hafter fun f hf => Or.inr hf)
      have hlive : present s₁.history =
          if success then c.settle (present s.history) else present s.history := by
        rw [hhistory, present_snoc, hec, hes]
      have hold (f : SavedState U)
          (hrec : Recoverable (present s.history) f s.current.toFinset)
          (hlast : unsaved ≠ 0) : ∃ r,
          cbChangeMembers (loadState (some f)) [] now = .ok r ∧
            MadeUp (present s₁.history) now r.runQueue.pending := by
        rw [hlive]
        cases success with
        | false => exact recoverable_madeUp _ _ f now hrec
        | true =>
          have hunit := (hdies.resolve_left hlast) c hc
          exact unsaved_madeUp _ _ f now c hrec hunit.1 hunit.2
      by_cases hlast : unsaved = 0
      · exact hnewest hlast
      · rcases fileLeft_cases _ s s₁ unsaved hw hu with ⟨f, hf, hrec | hrec⟩ | hfile
        · rw [hf]
          exact hold f hrec hlast
        · rw [hf]
          exact recoverable_madeUp _ _ f now hrec
        · have hknown : s.scheduler.contextMembers ≠ none := by
            intro hnone
            obtain ⟨-, d, rest, hp, -⟩ := h.head c hc
            simp [(h.fresh hnone).2] at hp
          have ht := inv_told s h hknown
          obtain ⟨f, hf⟩ := told_snapshot _ _ _ ht
          rw [hfile, h.file, hf]
          exact hold f (told_recoverable _ _ _ ht (by simpa using h.versions) f hf) hlast

/-- The process dies before the last save of a notification with one change. -/
theorem fileLeft_recovers_joined :
    ∃ s' : Session Nat, freshSession.step (.members [1]) = .ok s' ∧
      ∃ r, cbChangeMembers (loadState (fileLeft s' 1)) [] [1, 2] = .ok r ∧
        MadeUp (present s'.history) [1, 2] r.runQueue.pending := by
  have hstep : ∃ s' : Session Nat, freshSession.step (.members [1]) = .ok s' ∧
      1 ≤ renames freshSession s' := ⟨_, rfl, by decide⟩
  obtain ⟨s', hs', hrenames⟩ := hstep
  refine ⟨s', hs', fileLeft_recovers freshSession s' (.members [1]) 1 [1, 2] .fresh ?_ hs'
    hrenames (Or.inl (by decide))⟩
  intro c hexec
  simp [freshSession] at hexec

/-- The process dies when the first of two joined units has been saved: the second is never
queued. It dies when the joined hook of a unit has succeeded, and the unit leaves before the
next process starts: its departed hook is never queued. -/
theorem fileLeft_loses :
    (∃ s' : Session Nat, freshSession.step (.members [1, 2]) = .ok s' ∧
      2 ≤ renames freshSession s' ∧
      ∃ r, cbChangeMembers (loadState (fileLeft s' 2)) [] [1, 2] = .ok r ∧
        ¬ MadeUp (present s'.history) [1, 2] r.runQueue.pending) ∧
    ∃ s s' : Session Nat, runSession [.members [1], .run] = .ok s ∧
      s.step (.hookEnds true) = .ok s' ∧ 2 ≤ renames s s' ∧
      ∃ r, cbChangeMembers (loadState (fileLeft s' 2)) [] [] = .ok r ∧
        ¬ MadeUp (present s'.history) [] r.runQueue.pending := by
  refine ⟨⟨_, rfl, by decide, _, rfl, ?_⟩, _, _, rfl, rfl, by decide, _, rfl, ?_⟩
  · intro h
    obtain ⟨c, hc, hcu, -⟩ := h.joined 2 (by decide) (by decide)
    have hin : c ∈ ([⟨1, .joined, [1]⟩] : List (Change Nat)) := hc
    simp [List.mem_singleton.mp hin] at hcu
  · intro h
    obtain ⟨c, hc, -⟩ := h.departed 1 (by decide) (by decide)
    have hin : c ∈ ([] : List (Change Nat)) := hc
    simp at hin

end Juju.Hooks

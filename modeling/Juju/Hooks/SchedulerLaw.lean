import Juju.Hooks.Deliveries
import Juju.Hooks.ExecutedHistory

namespace Juju.Hooks
open Juju.Base

variable {U : Type}

/-- A call that the relation's watcher makes. -/
inductive Delivery (U : Type) where
  | members (oldUnits newUnits : List U)
  | settings (unitVersions : List (U × Int))

/-- Deliveries to a scheduler that is not running, then one run with these hook results. -/
structure Phase (U : Type) where
  deliveries : List (Delivery U)
  outcomes : List Bool

/-- The members last delivered. -/
def delivered (current : Option (List U)) : List (Delivery U) → Option (List U)
  | [] => current
  | .members _ newUnits :: deliveries => delivered (some newUnits) deliveries
  | .settings _ :: deliveries => delivered current deliveries

/-- Memberships follow one another from the empty one, and settings are those of members. -/
def Deliverable (current : Option (List U)) : List (Delivery U) → Prop
  | [] => True
  | .members oldUnits newUnits :: deliveries =>
    (∀ u, u ∈ oldUnits ↔ u ∈ current.getD []) ∧ Deliverable (some newUnits) deliveries
  | .settings unitVersions :: deliveries =>
    (∃ members ∈ current, ∀ uv ∈ unitVersions, uv.1 ∈ members) ∧ Deliverable current deliveries

theorem delivered_append (current : Option (List U)) (xs ys : List (Delivery U)) :
    delivered current (xs ++ ys) = delivered (delivered current xs) ys := by
  induction xs generalizing current with
  | nil => rfl
  | cons x xs ih => cases x <;> exact ih _

variable [LinearOrder U]

theorem queueInv_tail (live context : Finset U) (c : Change U) (rest : List (Change U))
    (h : QueueInv live (c :: rest) context) : QueueInv (c.settle live) rest context :=
  ⟨h.queued.2, once_sublist _ _ (List.sublist_cons_self c rest) h.once,
    fun d hd => h.nodup d (by simp [hd])⟩

/-- A change that has succeeded is taken off the queue. -/
theorem finishedChange_told (live context : Finset U) (s : HookScheduler U) (c : Change U)
    (behind : List (Change U)) (h : Told live s context) (hidle : s.runQueue.waiting = 0)
    (hp : s.runQueue.pending = c :: behind) :
    ∃ s' f, finishedChange s = .ok s' ∧ Told (c.settle live) s' context ∧
      s'.memberVersions = s.memberVersions ∧ s'.running = s.running ∧
      s'.runQueue = ⟨behind, 0⟩ ∧ snapshot s' = some f ∧ s'.stateFile = f :: s.stateFile := by
  have ht : Told (c.settle live)
      { s with runQueue := { s.runQueue with pending := behind } } context :=
    ⟨h.members, queueInv_tail _ _ _ _ (hp ▸ h.queue), fun hw => absurd hidle hw⟩
  obtain ⟨s', f, hs', ht', hv', hr', hq', hf', hfile'⟩ :=
    told_saveState (c.settle live) context _ ht
  exact ⟨s', f, by simpa [finishedChange, hp] using hs', ht', hv', hr', by rw [hq', ← hidle],
    hf', hfile'⟩

/-- The state after the modified change that an executed joined change is expanded to. -/
structure ExpandedTo (live context : Finset U) (s s₁ : HookScheduler U) (c : Change U)
    (behind : List (Change U)) : Prop where
  told : Told live s₁ context
  pending : s₁.runQueue.pending = c :: behind
  versions : s₁.memberVersions = s.memberVersions
  running : s₁.running = s.running
  idle : s₁.runQueue.waiting = 0
  wrote : Wrote (fun f => snapshot s₁ = some f) s s₁
  file : s.stateFile.head? = snapshot s → s₁.stateFile.head? = snapshot s₁
  expanded : c.changeType = .joined → ∃ d ∈ behind, d.unitName = c.unitName ∧
    (d.changeType = .modified ∨ d.changeType = .departed)

/-- The first half of what `run` does once a hook has ended. -/
theorem hookEnded_expanded (live context : Finset U) (s : HookScheduler U) (c : Change U)
    (rest : List (Change U)) (success : Bool) (h : Told live s context)
    (hidle : s.runQueue.waiting = 0)
    (hp : s.runQueue.pending = c :: rest) :
    ∃ s₁ behind, ExpandedTo live context s s₁ c behind ∧ hookEnded s c success =
      if success then finishedChange s₁ else .ok { s₁ with running := false } := by
  by_cases hc : c.changeType = .joined
  · obtain ⟨ms, hms, hnodup, hmem⟩ := h.members
    obtain ⟨behind, saved, hresult, hinv, hexpanded⟩ := queue_expanded live context c rest
      (sorted ms) (hp ▸ h.queue) hc (fun w hw => (hmem w).mp (by simpa using hw))
      (sorted_nodup ms hnodup)
    obtain ⟨s₁, fired, hput, ht, hv, hr₁, hp₁, hw, hc₁, hsame⟩ := put_told live context s
      ⟨c.unitName, .modified, sorted ms⟩ 1 (c :: behind) saved h.members
      (fun hw => absurd hidle hw) (by simpa [hidle, hp] using hresult)
      (fun hw => absurd hidle hw) hinv
    have hidle₁ : s₁.runQueue.waiting = 0 := by
      by_contra hw₁
      have hnil := (ht.waits hw₁).2.2
      simp [hp₁] at hnil
    refine ⟨s₁, behind, ⟨ht, hp₁, hv, hr₁, hidle₁, hw, ?_, fun _ => hexpanded⟩, ?_⟩
    · intro hfile
      obtain ⟨files, hfiles, hsnap⟩ := hw
      cases files with
      | nil =>
        rw [hfiles, List.nil_append, hfile, snapshot, snapshot, hc₁, hv, hp₁, hsame hfiles]
      | cons f files => rw [hfiles, hsnap f (by simp)]; rfl
    · simp [hookEnded, hc, getChange, hms, hput, bind, Except.bind, pure, Except.pure]
  · refine ⟨s, rest, ⟨h, hp, rfl, rfl, hidle, wrote_refl _ _ _ rfl, id,
      fun hj => absurd hj hc⟩, ?_⟩
    simp [hookEnded, hc, bind, Except.bind, pure, Except.pure]

/-- What a hook leaves behind, whatever its result. -/
theorem hookEnded_loaded (live context : Finset U) (s : HookScheduler U) (c : Change U)
    (rest : List (Change U)) (success : Bool) (h : Loaded true live s context)
    (hp : s.runQueue.pending = c :: rest) :
    ∃ s', hookEnded s c success = .ok s' ∧
      Loaded success (if success then c.settle live else live) s' context ∧
      s'.memberVersions = s.memberVersions ∧ Expanded ⟨c, success, s'.runQueue.pending⟩ := by
  obtain ⟨s₁, behind, h₁, hended⟩ := hookEnded_expanded live context s c rest success
    (loaded_told true live context s h) h.idle hp
  rw [hended]
  cases success with
  | false =>
    refine ⟨_, rfl, ⟨rfl, h₁.idle, h₁.told.members, h₁.told.queue⟩, h₁.versions, ?_⟩
    intro hs
    exact absurd hs (by simp)
  | true =>
    obtain ⟨s₂, -, hs₂, ht₂, hv₂, hr₂, hq₂, -⟩ :=
      finishedChange_told live context s₁ c behind h₁.told h₁.idle h₁.pending
    refine ⟨s₂, hs₂, ⟨hr₂.trans (h₁.running.trans h.running), by rw [hq₂], ht₂.members,
      ht₂.queue⟩,
      hv₂.trans h₁.versions, ?_⟩
    intro _ hc
    rw [hq₂]
    exact h₁.expanded hc

theorem stop_loaded (live context : Finset U) (s : HookScheduler U)
    (h : Loaded true live s context) :
    stop s = .ok { s with running := false } ∧
      Loaded false live { s with running := false } context := by
  refine ⟨?_, rfl, h.idle, h.members, h.queue⟩
  simp [stop, h.running, put, h.idle, bind, Except.bind]

/-- On an empty queue the loop waits until it is stopped. -/
theorem runLoop_empty (s : HookScheduler U) (outcomes : List Bool) (hrunning : s.running = true)
    (hidle : s.runQueue.waiting = 0) (hp : s.runQueue.pending = []) :
    runLoop outcomes s = .ok ({ s with running := false }, []) := by
  obtain ⟨running, contextMembers, memberVersions, ⟨pending, waiting⟩, stateFile⟩ := s
  subst hrunning hidle hp
  cases outcomes <;> rfl

theorem runLoop_loaded (context : Finset U) (s : HookScheduler U) (outcomes : List Bool)
    (history : List (Execution U)) (h : Loaded true (present history) s context)
    (hlaw : HistoryLaw history) :
    ∃ s' executed, runLoop outcomes s = .ok (s', executed) ∧
      Loaded false (present (history ++ executed)) s' context ∧
      s'.memberVersions = s.memberVersions ∧ HistoryLaw (history ++ executed) := by
  induction outcomes generalizing s history with
  | nil =>
    obtain ⟨hstop, hl⟩ := stop_loaded _ _ s h
    refine ⟨_, [], by rw [runLoop, hstop]; rfl, ?_⟩
    rw [List.append_nil]
    exact ⟨hl, rfl, hlaw⟩
  | cons success outcomes ih =>
    cases hp : s.runQueue.pending with
    | nil =>
      refine ⟨_, [], runLoop_empty s _ h.running h.idle hp, ?_⟩
      rw [List.append_nil]
      exact ⟨(stop_loaded _ _ s h).2, rfl, hlaw⟩
    | cons c rest =>
      obtain ⟨s₁, hs₁, hl₁, hv₁, hexpanded⟩ := hookEnded_loaded _ _ s c rest success h hp
      let e : Execution U := ⟨c, success, s₁.runQueue.pending⟩
      have hfits : Fits (present history) c := (hp ▸ h.queue.queued).1
      have hlaw₁ : HistoryLaw (history ++ [e]) := historyLaw_snoc history e hlaw hfits hexpanded
      have hpresent : (if success then c.settle (present history) else present history) =
          present (history ++ [e]) := (present_snoc history e).symm
      rw [hpresent] at hl₁
      have hloop : runLoop (success :: outcomes) s = (if s₁.running then
          (runLoop outcomes s₁).bind fun r => .ok (r.1, e :: r.2)
        else .ok (s₁, [e])) := by
        simp only [runLoop, nextChange, hp, bind, Except.bind, hs₁]
        rfl
      rw [hloop, hl₁.running]
      cases success with
      | false => exact ⟨s₁, [e], rfl, hl₁, hv₁, hlaw₁⟩
      | true =>
        obtain ⟨s₂, executed, hs₂, hl₂, hv₂, hlaw₂⟩ := ih s₁ _ hl₁ hlaw₁
        rw [List.append_assoc] at hl₂ hlaw₂
        refine ⟨s₂, e :: executed, ?_, hl₂, hv₂.trans hv₁, hlaw₂⟩
        simp [hs₂, Except.bind]

def deliver (s : HookScheduler U) : Delivery U → Except (SchedulerError U) (HookScheduler U)
  | .members oldUnits newUnits => cbChangeMembers s oldUnits newUnits
  | .settings unitVersions => cbChangeSettings s unitVersions

def runPhase (sh : HookScheduler U × List (Execution U)) (phase : Phase U) :
    Except (SchedulerError U) (HookScheduler U × List (Execution U)) := do
  let s ← phase.deliveries.foldlM deliver sh.1
  let (s, executed) ← run s phase.outcomes
  .ok (s, sh.2 ++ executed)

def runPhases (phases : List (Phase U)) :
    Except (SchedulerError U) (HookScheduler U × List (Execution U)) :=
  phases.foldlM runPhase (createState, [])

/-- Between two calls: nothing has happened yet, or the members `current` are known. -/
def Ready (current : Option (List U)) (s : HookScheduler U) (history : List (Execution U)) :
    Prop :=
  HistoryLaw history ∧
    match current with
    | none => s = createState ∧ history = []
    | some members => Synced (present history) s members

theorem deliver_ready (current : Option (List U)) (s : HookScheduler U)
    (history : List (Execution U)) (delivery : Delivery U) (deliveries : List (Delivery U))
    (h : Ready current s history) (hd : Deliverable current (delivery :: deliveries)) :
    ∃ s', deliver s delivery = .ok s' ∧ Ready (delivered current [delivery]) s' history ∧
      Deliverable (delivered current [delivery]) deliveries := by
  obtain ⟨hlaw, hcurrent⟩ := h
  cases delivery with
  | members oldUnits newUnits =>
    cases current with
    | none =>
      obtain ⟨rfl, rfl⟩ := hcurrent
      obtain rfl : oldUnits = [] := List.eq_nil_iff_forall_not_mem.mpr (by simpa using hd.1)
      obtain ⟨s', hs', hsynced⟩ := cbChangeMembers_synced ∅ ∅ createState [] newUnits
        ⟨rfl, rfl, ⟨[], rfl, List.nodup_nil, by simp⟩, queueInv_nil⟩
        (by simp [createState])
      exact ⟨s', hs', ⟨hlaw, hsynced⟩, hd.2⟩
    | some members =>
      obtain ⟨ms, hms, hmem⟩ := hcurrent.loaded.members
      obtain ⟨s', hs', hsynced⟩ := cbChangeMembers_synced (present history) members.toFinset s
        oldUnits newUnits
        ⟨hcurrent.loaded.running, hcurrent.loaded.idle, ⟨ms, by simp [hms], hmem⟩,
          hcurrent.loaded.queue⟩
        (by simpa using hcurrent.versions)
      exact ⟨s', hs', ⟨hlaw, hsynced⟩, hd.2⟩
  | settings unitVersions =>
    obtain ⟨⟨members, hmembers, hu⟩, hrest⟩ := hd
    obtain rfl : current = some members := hmembers
    obtain ⟨s', hs', hsynced⟩ := cbChangeSettings_synced _ s members unitVersions hcurrent hu
    exact ⟨s', hs', ⟨hlaw, hsynced⟩, hrest⟩

theorem foldlM_deliver_ready (current : Option (List U)) (s : HookScheduler U)
    (history : List (Execution U)) (xs ys : List (Delivery U)) (h : Ready current s history)
    (hd : Deliverable current (xs ++ ys)) :
    ∃ s', xs.foldlM deliver s = .ok s' ∧ Ready (delivered current xs) s' history ∧
      Deliverable (delivered current xs) ys := by
  induction xs generalizing s current with
  | nil => exact ⟨s, rfl, h, hd⟩
  | cons x xs ih =>
    obtain ⟨s₁, hs₁, hr₁, hd₁⟩ := deliver_ready current s history x (xs ++ ys) h hd
    obtain ⟨s₂, hs₂, hr₂, hd₂⟩ := ih _ s₁ hr₁ hd₁
    rw [← delivered_append] at hr₂ hd₂
    refine ⟨s₂, ?_, hr₂, hd₂⟩
    rw [List.foldlM_cons, hs₁]
    exact hs₂

theorem run_ready (current : Option (List U)) (s : HookScheduler U)
    (history : List (Execution U)) (outcomes : List Bool) (h : Ready current s history) :
    ∃ s' executed, run s outcomes = .ok (s', executed) ∧
      Ready current s' (history ++ executed) := by
  obtain ⟨hlaw, hcurrent⟩ := h
  cases current with
  | none =>
    obtain ⟨rfl, rfl⟩ := hcurrent
    exact ⟨createState, [], runLoop_empty _ outcomes rfl rfl rfl, hlaw, rfl, rfl⟩
  | some members =>
    have hl := hcurrent.loaded
    obtain ⟨s', executed, hs', hl', hv', hlaw'⟩ := runLoop_loaded members.toFinset
      { s with running := true } outcomes history ⟨rfl, hl.idle, hl.members, hl.queue⟩ hlaw
    refine ⟨s', executed, ?_, hlaw', hl', fun u => ?_⟩
    · simpa [run, hl.running] using hs'
    · rw [hv']
      exact hcurrent.versions u

theorem runPhases_ready (current : Option (List U)) (s : HookScheduler U)
    (history : List (Execution U)) (phases : List (Phase U)) (h : Ready current s history)
    (hd : Deliverable current (phases.flatMap Phase.deliveries)) :
    ∃ s' history', phases.foldlM runPhase (s, history) = .ok (s', history') ∧
      Ready (delivered current (phases.flatMap Phase.deliveries)) s' history' := by
  induction phases generalizing s history current with
  | nil => exact ⟨s, history, rfl, h⟩
  | cons phase phases ih =>
    rw [List.flatMap_cons] at hd ⊢
    obtain ⟨s₁, hs₁, hr₁, hd₁⟩ := foldlM_deliver_ready current s history _ _ h hd
    obtain ⟨s₂, executed, hs₂, hr₂⟩ := run_ready _ s₁ history phase.outcomes hr₁
    obtain ⟨s₃, history', hs₃, hr₃⟩ := ih _ s₂ _ hr₂ hd₁
    rw [← delivered_append] at hr₃
    refine ⟨s₃, history', ?_, hr₃⟩
    have hphase : runPhase (s, history) phase = .ok (s₂, history ++ executed) := by
      simp only [runPhase, hs₁, hs₂, bind, Except.bind]
    rw [List.foldlM_cons, hphase]
    exact hs₃

/-- Whatever the deliveries and the results of the hooks, a charm sees each unit join, change
and depart in order, with members it has been told of, and ends up with the membership. -/
theorem runPhases_lawful (phases : List (Phase U))
    (h : Deliverable none (phases.flatMap Phase.deliveries)) :
    ∃ s history, runPhases phases = .ok (s, history) ∧
      (∀ u, ∃ rounds, changesOf u history <+: course rounds) ∧
      (∀ e ∈ history, Expanded e) ∧
      (∀ before e after, history = before ++ e :: after → SeesPresent before e) ∧
      (s.runQueue.pending = [] → ∀ u, u ∈ present history ↔
        u ∈ (delivered none (phases.flatMap Phase.deliveries)).getD []) := by
  obtain ⟨s, history, hs, hlaw, hcurrent⟩ :=
    runPhases_ready none createState [] phases ⟨historyLaw_nil, rfl, rfl⟩ h
  refine ⟨s, history, hs, fun u => underway_prefix u history (hlaw.underway u), hlaw.expanded,
    hlaw.members, ?_⟩
  intro hempty u
  cases hd : delivered none (phases.flatMap Phase.deliveries) with
  | none =>
    rw [hd] at hcurrent
    simp [hcurrent.2, present]
  | some members =>
    rw [hd] at hcurrent
    have hqueued := hcurrent.loaded.queue.queued
    rw [hempty] at hqueued
    rw [show present history = members.toFinset from hqueued]
    simp

theorem runPhases_lawful_two_runs :
    ∃ s history, runPhases [⟨[.members [] [1, 2], .settings [(1, 3)]], [true, false]⟩,
        ⟨[.members [1, 2] [2]], [true, true, true, true]⟩] = .ok (s, history) ∧
      (∀ u : Nat, ∃ rounds, changesOf u history <+: course rounds) ∧
      (s.runQueue.pending = [] → ∀ u, u ∈ present history ↔ u ∈ [2]) := by
  obtain ⟨s, history, hs, hwords, -, -, hmembers⟩ := runPhases_lawful
    [⟨[.members [] [1, 2], .settings [(1, 3)]], [true, false]⟩,
      ⟨[.members [1, 2] [2]], [true, true, true, true]⟩] (by simp [Deliverable])
  exact ⟨s, history, hs, hwords, hmembers⟩

/-- The departed hook of unit 1 fails, and the unit comes back: its departed change becomes a
modified one, and the hook of unit 2 sees it again though it has not joined again. -/
theorem failed_departed_seen :
    let phases : List (Phase Nat) := [⟨[.members [] [1, 2]], [true, true, true, true]⟩,
      ⟨[.members [1, 2] [2]], [false]⟩,
      ⟨[.members [2] [1, 2], .settings [(2, 1)]], [true, true]⟩]
    Deliverable none (phases.flatMap Phase.deliveries) ∧
      ∃ s history, runPhases phases = .ok (s, history) ∧
        ∃ before e after, history = before ++ e :: after ∧
          ∃ w ∈ e.change.members, w ≠ e.change.unitName ∧ w ∉ met before := by
  refine ⟨by simp [Deliverable], _, _, rfl, ?_⟩
  exact ⟨_, _, [], (List.dropLast_append_getLast (by decide)).symm, 1, by decide, by decide,
    by decide⟩

end Juju.Hooks

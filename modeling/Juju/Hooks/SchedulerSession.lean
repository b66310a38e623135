import Juju.Hooks.SchedulerLaw

namespace Juju.Hooks
open Juju.Base

variable {U : Type} [LinearOrder U]

/-- A scheduler at work: the change whose hook the loop of `run` is waiting for, the members
delivered last, and the hooks it has executed. -/
structure Session (U : Type) where
  scheduler : HookScheduler U
  executing : Option (Change U)
  current : List U
  history : List (Execution U)

/-- What happens to a scheduler; the watcher's old units are those it delivered before. A hook that
fails ends when its error handler, which stops the scheduler, is done. -/
inductive SessionEvent (U : Type) where
  | members (newUnits : List U)
  | settings (unitVersions : List (U × Int))
  | run
  | hookEnds (success : Bool)
  | stop

/-- The change that the loop goes on with after a callback. A loop that waited has been given the
first change put on the empty queue. -/
def wokenWith (s s' : HookScheduler U) (executing : Option (Change U)) : Option (Change U) :=
  if s.runQueue.waiting ≠ 0 ∧ s'.runQueue.waiting = 0 then s'.runQueue.pending.head?
  else executing

/-- An event. `run` is called when the scheduler is not running and no loop is alive; at other times
it changes nothing. -/
def Session.step (s : Session U) : SessionEvent U → Except (SchedulerError U) (Session U)
  | .members newUnits => do
    let scheduler ← cbChangeMembers s.scheduler s.current newUnits
    let executing := wokenWith s.scheduler scheduler s.executing
    .ok ⟨scheduler, executing, newUnits, s.history⟩
  | .settings unitVersions => do
    let scheduler ← cbChangeSettings s.scheduler unitVersions
    let executing := wokenWith s.scheduler scheduler s.executing
    .ok ⟨scheduler, executing, s.current, s.history⟩
  | .run =>
    if s.scheduler.running ∨ s.executing.isSome then .ok s
    else do
      let (scheduler, executing) ← nextChange { s.scheduler with running := true }
      .ok ⟨scheduler, executing, s.current, s.history⟩
  | .hookEnds success =>
    match s.executing with
    | none => .ok s
    | some change => do
      let scheduler ← hookEnded s.scheduler change success
      let history := s.history ++ [⟨change, success, scheduler.runQueue.pending⟩]
      -- The loop ends where the scheduler was stopped meanwhile.
      if scheduler.running then
        let (scheduler, executing) ← nextChange scheduler
        .ok ⟨scheduler, executing, s.current, history⟩
      else .ok ⟨scheduler, none, s.current, history⟩
  | .stop => do
    let scheduler ← stop s.scheduler
    .ok { s with scheduler := scheduler }

def freshSession : Session U := ⟨createState, none, [], []⟩

/-- The sessions that events lead to, each of which is `fine` when it happens. -/
inductive Reached (fine : Session U → SessionEvent U → Prop) : Session U → Prop where
  | fresh : Reached fine freshSession
  | step (s s' : Session U) (e : SessionEvent U) : Reached fine s → fine s e →
      s.step e = .ok s' → Reached fine s'

/-- While a hook is executed: as long as the scheduler runs, no unit that is added or removed has a
change waiting behind; once it is stopped, the hook's own unit is not added or removed, unless it
has a change of another type waiting behind. -/
def NoneBehind (s : Session U) (newUnits : List U) : Prop :=
  ∀ c, s.executing = some c →
    if s.scheduler.running then
      ∀ p ∈ s.scheduler.runQueue.pending.tail, p.unitName ∉ changedUnits s.scheduler newUnits
    else c.unitName ∈ changedUnits s.scheduler newUnits →
      ∃ p ∈ s.scheduler.runQueue.pending.tail, p.unitName = c.unitName ∧
        p.changeType ≠ c.changeType

/-- Settings follow a membership, and are those of members or of nodes never written to. -/
def Timely (s : Session U) : SessionEvent U → Prop
  | .members newUnits => NoneBehind s newUnits
  | .settings unitVersions => s.scheduler.contextMembers ≠ none ∧
      ∀ uv ∈ unitVersions, uv.1 ∈ s.current ∨ uv.2 ≤ 0
  | _ => True

/-- What every session keeps, as long as its events are timely. The change whose hook is executed is
the head of the queue, and a loop that is alive waits just when it executes none. -/
structure SessionInv (s : Session U) : Prop where
  told : Told (present s.history)
    { s.scheduler with contextMembers := some (s.scheduler.contextMembers.getD []) }
    s.current.toFinset
  versions : ∀ u, u ∈ s.scheduler.memberVersions ↔ u ∈ s.current
  file : s.scheduler.stateFile.head? = snapshot s.scheduler
  fresh : s.scheduler.contextMembers = none → s.history = [] ∧ s.scheduler.runQueue.pending = []
  head : ∀ c, s.executing = some c → s.scheduler.runQueue.waiting = 0 ∧
    ∃ d rest, s.scheduler.runQueue.pending = d :: rest ∧ d.unitName = c.unitName ∧
      d.changeType = c.changeType
  alive : s.executing = none → s.scheduler.running = true → s.scheduler.runQueue.waiting ≠ 0

theorem freshSession_inv : SessionInv (freshSession : Session U) :=
  ⟨⟨⟨[], rfl, List.nodup_nil, by simp [freshSession]⟩, queueInv_nil, fun hw => absurd rfl hw⟩,
    by simp [freshSession, createState], rfl, fun _ => ⟨rfl, rfl⟩, by simp [freshSession],
    by simp [freshSession, createState]⟩

/-- A scheduler that knows its members makes a session. -/
theorem told_inv (s : HookScheduler U) (executing : Option (Change U)) (current : List U)
    (history : List (Execution U)) (h : Told (present history) s current.toFinset)
    (hv : ∀ u, u ∈ s.memberVersions ↔ u ∈ current) (hf : s.stateFile.head? = snapshot s)
    (hhead : ∀ c, executing = some c → s.runQueue.waiting = 0 ∧
      ∃ d rest, s.runQueue.pending = d :: rest ∧ d.unitName = c.unitName ∧
        d.changeType = c.changeType)
    (halive : executing = none → s.running = true → s.runQueue.waiting ≠ 0) :
    SessionInv ⟨s, executing, current, history⟩ := by
  obtain ⟨ms, hms, hmem⟩ := h.members
  refine ⟨⟨⟨ms, by simp [hms], hmem⟩, h.queue, h.waits⟩, hv, hf, ?_, hhead, halive⟩
  intro hnone
  rw [hms] at hnone
  simp at hnone

theorem inv_told (s : Session U) (h : SessionInv s) (hknown : s.scheduler.contextMembers ≠ none) :
    Told (present s.history) s.scheduler s.current.toFinset := by
  obtain ⟨ms, hms⟩ := Option.ne_none_iff_exists'.mp hknown
  obtain ⟨ms', hms', hmem⟩ := h.told.members
  obtain rfl : ms = ms' := by simpa [hms] using hms'
  exact ⟨⟨ms, hms, hmem⟩, h.told.queue, h.told.waits⟩

/-- Where the loop asks for its next change, it gets the head, or waits on an empty queue. -/
theorem nextChange_inv (s : HookScheduler U) (current : List U) (history : List (Execution U))
    (htold : Told (present history)
      { s with contextMembers := some (s.contextMembers.getD []) } current.toFinset)
    (hv : ∀ u, u ∈ s.memberVersions ↔ u ∈ current) (hf : s.stateFile.head? = snapshot s)
    (hfresh : s.contextMembers = none → history = [] ∧ s.runQueue.pending = [])
    (hidle : s.runQueue.waiting = 0) (hr : s.running = true) :
    ∃ s' executing, nextChange s = .ok (s', executing) ∧
      SessionInv ⟨s', executing, current, history⟩ ∧ s'.stateFile = s.stateFile := by
  cases hp : s.runQueue.pending with
  | nil =>
    refine ⟨{ s with runQueue := { s.runQueue with waiting := s.runQueue.waiting + 1 } }, none,
      by simp [nextChange, hp, hidle], ?_, rfl⟩
    exact ⟨⟨htold.members, htold.queue, fun _ => ⟨by rw [hidle], hr, hp⟩⟩, hv, hf, hfresh,
      by simp, fun _ _ => Nat.succ_ne_zero _⟩
  | cons c rest =>
    refine ⟨s, some c, by simp [nextChange, hp], ?_, rfl⟩
    refine ⟨htold, hv, hf, hfresh, fun d hd => ?_, by simp⟩
    obtain rfl := Option.some.inj hd
    exact ⟨hidle, c, rest, hp, rfl, rfl⟩

/-- A callback leaves the loop the change whose hook is executed, and wakes it with a head. -/
theorem loop_goesOn (s : Session U) (s' : HookScheduler U) (units : List U) (h : SessionInv s)
    (hr : s'.running = s.scheduler.running) (hkept : LoopKept units s.scheduler s')
    (hbehind : ∀ c, s.executing = some c → s.scheduler.running = false → c.unitName ∈ units →
      ∃ p ∈ s.scheduler.runQueue.pending.tail, p.unitName = c.unitName ∧
        p.changeType ≠ c.changeType) :
    (∀ c, wokenWith s.scheduler s' s.executing = some c → s'.runQueue.waiting = 0 ∧
      ∃ d rest, s'.runQueue.pending = d :: rest ∧ d.unitName = c.unitName ∧
        d.changeType = c.changeType) ∧
    (wokenWith s.scheduler s' s.executing = none → s'.running = true →
      s'.runQueue.waiting ≠ 0) := by
  unfold wokenWith
  split
  · rename_i hwoken
    have hrun : s.scheduler.running = true := (h.told.waits hwoken.1).2.1
    have hne : s'.runQueue.pending ≠ [] := by
      rcases hkept.woken hrun hwoken.1 with hsame | hhead
      · exact absurd (hsame ▸ hwoken.2) hwoken.1
      · exact hhead.2
    obtain ⟨d, rest, hd⟩ := List.exists_cons_of_ne_nil hne
    rw [hd]
    refine ⟨fun c hc => ?_, by simp⟩
    obtain rfl := Option.some.inj hc
    exact ⟨hwoken.2, d, rest, rfl, rfl, rfl⟩
  · rename_i hnot
    refine ⟨fun c hc => ?_, fun hnone hrun hw => ?_⟩
    · obtain ⟨hidle, d, rest, hd, hdu, hdt⟩ := h.head c hc
      obtain ⟨d', rest', hd', hdu', hdt', -⟩ := hkept.head d rest hd fun hstopped hu => by
        obtain ⟨p, hp, hpu, hpt⟩ := hbehind c hc hstopped (by rwa [← hdu])
        rw [hd] at hp
        exact ⟨p, hp, hpu.trans hdu.symm, by rwa [hdt]⟩
      exact ⟨hkept.idle hidle, d', rest', hd', hdu'.trans hdu, hdt'.trans hdt⟩
    · exact hnot ⟨h.alive hnone (hr ▸ hrun), hw⟩

/-- What the membership that is to be taken up is compared with. -/
theorem inv_before (s : Session U) (h : SessionInv s) : Told (present s.history)
    { s.scheduler with
      contextMembers := some (s.scheduler.contextMembers.getD s.current.dedup) }
    s.current.toFinset := by
  cases hc : s.scheduler.contextMembers with
  | none =>
    have hold := h.told
    have hempty : s.current = [] := by
      obtain ⟨ms, hms, -, hmem⟩ := hold.members
      obtain rfl : [] = ms := by simpa [hc] using hms
      exact List.eq_nil_iff_forall_not_mem.mpr (by simpa using hmem)
    simpa [hc, hempty] using hold
  | some ms => simpa [hc] using h.told

theorem noneBehind_tail (s : Session U) (newUnits : List U) (h : SessionInv s)
    (hbehind : NoneBehind s newUnits) (hr : s.scheduler.running = true) (p : Change U)
    (hp : p ∈ s.scheduler.runQueue.pending.tail) :
    p.unitName ∉ changedUnits s.scheduler newUnits := by
  cases hexec : s.executing with
  | none =>
    have hnil : s.scheduler.runQueue.pending = [] := (h.told.waits (h.alive hexec hr)).2.2
    simp [hnil] at hp
  | some c =>
    have hnone := hbehind c hexec
    rw [if_pos hr] at hnone
    exact hnone p hp

/-- A membership is taken up, and every unit that joins is queued. -/
theorem members_inv (s : Session U) (newUnits : List U) (h : SessionInv s)
    (hbehind : NoneBehind s newUnits) :
    ∃ s', s.step (.members newUnits) = .ok s' ∧ SessionInv s' ∧ s'.history = s.history ∧
      s'.current = newUnits ∧
      (∀ u ∈ newUnits, u ∉ s.current → ∃ q ∈ s'.scheduler.runQueue.pending, q.unitName = u ∧
        q.changeType ≠ .departed) ∧
      s'.scheduler.contextMembers ≠ none ∧
      Wrote (fun _ => True) s.scheduler s'.scheduler ∧
      ((changedUnits s.scheduler newUnits).length ≤ 1 →
        Wrote (fun f => Recoverable (present s.history) f newUnits.toFinset) s.scheduler
          s'.scheduler) := by
  obtain ⟨s', f, hs', ht', hv', hr', hj', hfile', hf', hgrow, hwrote, hkept⟩ :=
    cbChangeMembers_told (present s.history) s.scheduler s.current.toFinset s.current newUnits
      (inv_before s h) (by simpa using h.versions) (noneBehind_tail s newUnits h hbehind)
  obtain ⟨hhead, halive⟩ := loop_goesOn s s' _ h hr' hkept fun c hc hstopped hu => by
    have hother := hbehind c hc
    rw [if_neg (by simp [hstopped])] at hother
    exact hother hu
  obtain ⟨ms, hms, -⟩ := ht'.members
  exact ⟨_, by simp [Session.step, hs', bind, Except.bind],
    told_inv s' _ newUnits s.history ht' hv' (hfile'.trans hf'.symm) hhead halive, rfl, rfl,
    by simpa using hj', by simp [hms], hgrow, hwrote⟩

theorem settings_inv (s : Session U) (unitVersions : List (U × Int)) (h : SessionInv s)
    (htimely : Timely s (.settings unitVersions)) :
    ∃ s', s.step (.settings unitVersions) = .ok s' ∧ SessionInv s' ∧ s'.history = s.history ∧
      s'.current = s.current ∧ s'.scheduler.contextMembers ≠ none ∧
      Wrote (fun f => Recoverable (present s.history) f s.current.toFinset) s.scheduler
        s'.scheduler := by
  have ht := inv_told s h htimely.1
  obtain ⟨s', f, hs', ht', hv', hr', hfile', hf', hwrote, hkept⟩ :=
    cbChangeSettings_told (present s.history) s.scheduler s.current.toFinset unitVersions ht
      (by simpa using h.versions) (by simpa using htimely.2)
  obtain ⟨hhead, halive⟩ := loop_goesOn s s' [] h hr' hkept (by simp)
  obtain ⟨ms, hms, -⟩ := ht'.members
  exact ⟨_, by simp [Session.step, hs', bind, Except.bind],
    told_inv s' _ s.current s.history ht' (by simpa using hv') (hfile'.trans hf'.symm) hhead
      halive, rfl, rfl, by simp [hms], hwrote⟩

/-- What `run` puts when a hook has ended names only the unit and the kind of its change. -/
theorem hookEnded_same (s : HookScheduler U) (c d : Change U) (success : Bool)
    (hu : d.unitName = c.unitName) (ht : d.changeType = c.changeType) :
    hookEnded s c success = hookEnded s d success := by
  simp only [hookEnded, hu, ht]

theorem settle_same (c d : Change U) (live : Finset U) (hu : d.unitName = c.unitName)
    (ht : d.changeType = c.changeType) : c.settle live = d.settle live := by
  simp only [Change.settle, hu, ht]

/-- A hook ends: the files written before it is taken off the queue still have it at the head. -/
theorem hookEnds_inv (s : Session U) (c : Change U) (success : Bool) (h : SessionInv s)
    (hc : s.executing = some c) :
    ∃ s' e middle, s.step (.hookEnds success) = .ok s' ∧ SessionInv s' ∧
      s'.history = s.history ++ [e] ∧ e.change = c ∧ e.success = success ∧
      s'.current = s.current ∧
      Wrote (fun f => Recoverable (present s.history) f s.current.toFinset) s.scheduler middle ∧
      Wrote (fun f => Recoverable (present s'.history) f s.current.toFinset) middle
        s'.scheduler := by
  obtain ⟨hidle, d, rest, hp, hdu, hdt⟩ := h.head c hc
  have hknown : s.scheduler.contextMembers ≠ none := by
    intro hnone
    have hnil := (h.fresh hnone).2
    simp [hp] at hnil
  have hv : ∀ u, u ∈ s.scheduler.memberVersions ↔ u ∈ s.current.toFinset := by
    simpa using h.versions
  obtain ⟨s₁, behind, h₁, hended⟩ := hookEnded_expanded (present s.history)
    s.current.toFinset s.scheduler d rest success (inv_told s h hknown) hidle hp
  rw [← hookEnded_same s.scheduler c d success hdu hdt] at hended
  have hv₁ : ∀ u, u ∈ s₁.memberVersions ↔ u ∈ s.current.toFinset := by
    rw [h₁.versions]
    exact hv
  have hfirst : Wrote (fun f => Recoverable (present s.history) f s.current.toFinset)
      s.scheduler s₁ :=
    wrote_mono _ _ _ _ h₁.wrote (told_recoverable _ _ s₁ h₁.told hv₁)
  have hfile₁ := h₁.file h.file
  cases success with
  | false =>
    let s₂ : HookScheduler U := { s₁ with running := false }
    let e : Execution U := ⟨c, false, s₂.runQueue.pending⟩
    have ht₂ : Told (present (s.history ++ [e])) s₂ s.current.toFinset := by
      rw [present_snoc]
      exact ⟨h₁.told.members, h₁.told.queue, fun hw => absurd h₁.idle hw⟩
    refine ⟨⟨s₂, none, s.current, s.history ++ [e]⟩, e, s₁, ?_,
      told_inv s₂ none s.current _ ht₂ (by simpa using hv₁) hfile₁ (by simp) (by simp [s₂]), rfl,
      rfl, rfl, rfl, hfirst, wrote_refl _ _ _ rfl⟩
    simp [Session.step, hc, hended, bind, Except.bind, e, s₂]
  | true =>
    obtain ⟨s₂, f, hs₂, ht₂, hv₂, hr₂, hq₂, hf₂, hfile₂⟩ := finishedChange_told
      (present s.history) s.current.toFinset s₁ d behind h₁.told h₁.idle h₁.pending
    let e : Execution U := ⟨c, true, s₂.runQueue.pending⟩
    have hlive : present (s.history ++ [e]) = d.settle (present s.history) := by
      rw [present_snoc, ← settle_same c d _ hdu hdt]
      rfl
    rw [← hlive] at ht₂
    have hv₂' : ∀ u, u ∈ s₂.memberVersions ↔ u ∈ s.current.toFinset := by rwa [hv₂]
    have hlast : Wrote (fun f => Recoverable (present (s.history ++ [e])) f s.current.toFinset)
        s₁ s₂ := by
      refine ⟨[f], hfile₂, fun f' hf' => ?_⟩
      rw [List.mem_singleton.mp hf']
      exact told_recoverable _ _ s₂ ht₂ hv₂' f hf₂
    have hsnap : s₂.stateFile.head? = snapshot s₂ := by
      rw [hfile₂, hf₂]
      rfl
    -- Where the scheduler was stopped while the hook was executed, the loop ends.
    cases hr : s₂.running with
    | false =>
      refine ⟨⟨s₂, none, s.current, s.history ++ [e]⟩, e, s₁, ?_,
        told_inv s₂ none s.current _ ht₂ (by simpa using hv₂') hsnap (by simp) (by simp [hr]), rfl,
        rfl, rfl, rfl, hfirst, hlast⟩
      simp [Session.step, hc, hended, hs₂, hr, bind, Except.bind, e]
    | true =>
      obtain ⟨ms, hms, hmem⟩ := ht₂.members
      obtain ⟨s₃, executing, hs₃, hinv₃, hsame⟩ := nextChange_inv s₂ s.current (s.history ++ [e])
        ⟨⟨ms, by simp [hms], hmem⟩, ht₂.queue, ht₂.waits⟩ (by simpa using hv₂') hsnap
        (by simp [hms]) (by simp [hq₂]) hr
      obtain ⟨files, hfiles, hgood⟩ := hlast
      refine ⟨⟨s₃, executing, s.current, s.history ++ [e]⟩, e, s₁, ?_, hinv₃, rfl, rfl, rfl, rfl,
        hfirst, files, hsame.trans hfiles, hgood⟩
      simp [Session.step, hc, hended, hs₂, hr, hs₃, bind, Except.bind, e]

/-- Starting and stopping the loop. -/
theorem run_inv (s : Session U) (h : SessionInv s) :
    ∃ s', s.step .run = .ok s' ∧ SessionInv s' ∧ s'.history = s.history ∧
      s'.current = s.current ∧ s'.scheduler.stateFile = s.scheduler.stateFile := by
  by_cases hstarted : s.scheduler.running ∨ s.executing.isSome
  · exact ⟨s, by simp [Session.step, hstarted], h, rfl, rfl, rfl⟩
  · have hidle : s.scheduler.runQueue.waiting = 0 := by
      by_contra hw
      exact hstarted (.inl (h.told.waits hw).2.1)
    obtain ⟨s', executing, hs', hinv, hsame⟩ := nextChange_inv
      { s.scheduler with running := true } s.current s.history
      ⟨h.told.members, h.told.queue, fun hw => absurd hidle hw⟩ h.versions h.file h.fresh hidle rfl
    exact ⟨_, by simp [Session.step, hstarted, hs', bind, Except.bind], hinv, rfl, rfl, hsame⟩

theorem stop_inv (s : Session U) (h : SessionInv s) :
    ∃ s', s.step .stop = .ok s' ∧ SessionInv s' ∧ s'.history = s.history ∧
      s'.current = s.current ∧ s'.scheduler.stateFile = s.scheduler.stateFile := by
  cases hr : s.scheduler.running with
  | false => exact ⟨s, by simp [Session.step, stop, hr, bind, Except.bind], h, rfl, rfl, rfl⟩
  | true =>
    -- A waiting loop is woken with nothing and ends.
    let stopped : HookScheduler U :=
      { s.scheduler with running := false, runQueue := ⟨s.scheduler.runQueue.pending, 0⟩ }
    have hstopped : stop s.scheduler = .ok stopped := by
      by_cases hw : s.scheduler.runQueue.waiting = 0
      · have hqueue : s.scheduler.runQueue = ⟨s.scheduler.runQueue.pending, 0⟩ := by rw [← hw]
        simpa [stop, hr, put, hw, bind, Except.bind, stopped] using hqueue
      · have hone : s.scheduler.runQueue.waiting = 1 := (h.told.waits hw).1
        simp [stop, hr, put, hone, bind, Except.bind, stopped]
    refine ⟨{ s with scheduler := stopped }, ?_, ?_, rfl, rfl, rfl⟩
    · simp [Session.step, hstopped, bind, Except.bind]
    · exact ⟨⟨h.told.members, h.told.queue, fun hw => absurd rfl hw⟩, h.versions, h.file, h.fresh,
        fun c hc => ⟨rfl, (h.head c hc).2⟩, by simp [stopped]⟩

end Juju.Hooks

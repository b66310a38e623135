import Juju.Hooks.DueChanges
import Juju.Hooks.LateSettings

namespace Juju.Hooks
open Juju.Base

variable {U : Type} [LinearOrder U]

section folds

variable (live context : Finset U) (s s' : HookScheduler U) (units : List U)

theorem foldlM_queueJoined_carries (h : Told live s context) (hnodup : units.Nodup)
    (hu : ∀ u ∈ units, u ∉ context)
    (hbehind : s.running = true → ∀ p ∈ s.runQueue.pending.tail, p.unitName ∉ units)
    (hs' : units.foldlM queueJoined s = .ok s') :
    (∀ w, w ∉ units → Carries s s' w) ∧ ∀ u ∈ units, Answers s s' u := by
  induction units generalizing s context with
  | nil =>
    obtain rfl := Except.ok.inj hs'
    exact ⟨fun w _ => carries_refl s, by simp⟩
  | cons u units ih =>
    rw [List.nodup_cons] at hnodup
    have hfirst (hr : s.running = true) (p : Change U) (hp : p ∈ s.runQueue.pending.tail) :
        p.unitName ≠ u := fun he => hbehind hr p hp (by simp [he])
    obtain ⟨s₁, hs₁, ht₁, hp₁, -⟩ := queueJoined_told live context s u h (hu u (by simp)) hfirst
    obtain ⟨hcarries, hanswers⟩ :=
      queueJoined_carries live context s s₁ u h (hu u (by simp)) hfirst hs₁
    rw [List.foldlM_cons, hs₁] at hs'
    have hrest := joined_rest context u units hnodup.1 hu
    have hbehind₁ := putFor_behind s s₁ u units hp₁ hnodup.1 hbehind
    obtain ⟨hcarries', hanswers'⟩ := ih (insert u context) s₁ ht₁ hnodup.2 hrest hbehind₁ hs'
    refine ⟨fun w hw => ?_, fun w hw => ?_⟩
    · rw [List.mem_cons, not_or] at hw
      exact carries_trans (hcarries w hw.1) (hcarries' w hw.2)
    · rcases List.mem_cons.mp hw with rfl | hw
      · exact answers_carries hanswers (hcarries' w hnodup.1)
      · have hne : w ≠ u := fun he => hnodup.1 (he ▸ hw)
        exact carries_answers (hcarries w hne) (hanswers' w hw)

theorem foldlM_queueDeparted_carries (h : Told live s context) (hnodup : units.Nodup)
    (hu : ∀ u ∈ units, u ∈ context)
    (hbehind : s.running = true → ∀ p ∈ s.runQueue.pending.tail, p.unitName ∉ units)
    (hs' : units.foldlM queueDeparted s = .ok s') (w : U) (hw : w ∉ units) : Carries s s' w := by
  induction units generalizing s context with
  | nil =>
    obtain rfl := Except.ok.inj hs'
    exact carries_refl s
  | cons u units ih =>
    rw [List.nodup_cons] at hnodup
    rw [List.mem_cons, not_or] at hw
    have hfirst (hr : s.running = true) (p : Change U) (hp : p ∈ s.runQueue.pending.tail) :
        p.unitName ≠ u := fun he => hbehind hr p hp (by simp [he])
    obtain ⟨s₁, hs₁, ht₁, hp₁⟩ := queueDeparted_told live context s u h (hu u (by simp)) hfirst
    have hcarries := queueDeparted_carries live context s s₁ u h (hu u (by simp)) hfirst hs₁ w hw.1
    rw [List.foldlM_cons, hs₁] at hs'
    have hrest := departed_rest context u units hnodup.1 hu
    have hbehind₁ := putFor_behind s s₁ u units hp₁ hnodup.1 hbehind
    exact carries_trans hcarries (ih (context.erase u) s₁ ht₁ hnodup.2 hrest hbehind₁ hs' hw.2)

end folds

section callbacks

variable (live context : Finset U) (s s' : HookScheduler U)

local instance lawfulBEq_member : LawfulBEq U := inferInstance

theorem saveState_carries (h : saveState s = .ok s') :
    (∀ w, Carries s s' w) ∧ s'.memberVersions = s.memberVersions := by
  cases hc : s.contextMembers with
  | none => simp [saveState, hc] at h
  | some ms =>
    simp only [saveState, hc, Except.ok.injEq] at h
    subst h
    exact ⟨fun w => ⟨fun _ => id, id⟩, rfl⟩

/-- A membership is taken up: the hooks of units that stay are still to come, and one is for each
unit that joins. -/
theorem cbChangeMembers_carries (oldUnits newUnits : List U)
    (h : Told live { s with contextMembers := some (s.contextMembers.getD oldUnits.dedup) }
      context)
    (hv : ∀ u, u ∈ s.memberVersions ↔ u ∈ context)
    (hbehind : s.running = true → ∀ p ∈ s.runQueue.pending.tail,
      p.unitName ∉ changedUnits s newUnits)
    (hs' : cbChangeMembers s oldUnits newUnits = .ok s') (u : U) (hu : u ∈ newUnits) :
    (u ∈ context → Carries s s' u ∧ s'.memberVersions.lookup u = s.memberVersions.lookup u) ∧
      (u ∉ context → Answers s s' u ∧ s'.memberVersions.lookup u = some 0) := by
  let added := newUnits.dedup.filter (· ∉ s.memberVersions)
  let removed := s.memberVersions.keys.filter (· ∉ newUnits)
  let versions := removed.foldl (fun d u => d.erase u)
    (added.foldl (fun d u => d.insert u 0) s.memberVersions)
  let s₀ : HookScheduler U := { s with
    contextMembers := some (s.contextMembers.getD oldUnits.dedup), memberVersions := versions }
  have hadded (u : U) : u ∈ added ↔ u ∈ newUnits ∧ u ∉ context := by
    simp [added, hv]
  have hremoved (u : U) : u ∈ removed ↔ u ∈ context ∧ u ∉ newUnits := by
    simp [removed, AList.mem_keys.symm, hv]
  have hstart : Told live s₀ context := ⟨h.members, h.queue, h.waits⟩
  have hnodup : (sorted added).Nodup := sorted_nodup _ (newUnits.nodup_dedup.filter _)
  have hout : ∀ u ∈ sorted added, u ∉ context := by simp [hadded]
  have hbehind₀ (hr : s.running = true) (p : Change U) (hp : p ∈ s.runQueue.pending.tail) :
      p.unitName ∉ sorted added := fun hin => hbehind hr p hp (List.mem_append_left _ hin)
  obtain ⟨s₁, hs₁, ht₁, hp₁, -⟩ :=
    foldlM_queueJoined live context s₀ (sorted added) hstart hnodup hout hbehind₀
  have hnodup' : (sorted removed).Nodup :=
    sorted_nodup _ (s.memberVersions.keys_nodup.filter _)
  have hin : ∀ u ∈ sorted removed, u ∈ (sorted added).toFinset ∪ context := by
    intro u hu
    simp only [mem_sorted, hremoved] at hu
    simp [hu.1]
  have hbehind₁ (hr : s₁.running = true) (p : Change U) (hp : p ∈ s₁.runQueue.pending.tail) :
      p.unitName ∉ sorted removed := by
    intro hin
    rw [hp₁.running] at hr
    rcases hp₁.behind hr p hp with hp | hp
    · exact hbehind hr p hp (List.mem_append_right _ hin)
    · simp only [mem_sorted, hadded, hremoved] at hp hin
      exact hin.2 hp.1
  obtain ⟨s₂, hs₂, ht₂, hp₂⟩ :=
    foldlM_queueDeparted live _ s₁ (sorted removed) ht₁ hnodup' hin hbehind₁
  have hsave : saveState s₂ = .ok s' := by
    simp only [cbChangeMembers] at hs'
    rw [hs₁] at hs'
    simp only [bind, Except.bind] at hs₂ hs'
    rwa [show s.memberVersions.keys.filter (· ∉ newUnits) = removed from rfl, hs₂] at hs'
  obtain ⟨hsaved, hsavedVersions⟩ := saveState_carries s₂ s' hsave
  obtain ⟨hcarries, hanswers⟩ := foldlM_queueJoined_carries live context s₀ s₁ (sorted added)
    hstart hnodup hout hbehind₀ hs₁
  have hkept := carries_trans (foldlM_queueDeparted_carries live _ s₁ s₂ (sorted removed) ht₁
    hnodup' hin hbehind₁ hs₂ u (by simp [hremoved, hu])) (hsaved u)
  have hlookup : s'.memberVersions.lookup u = if u ∈ context then s.memberVersions.lookup u
      else some 0 := by
    rw [hsavedVersions, hp₂.versions, hp₁.versions]
    simp only [s₀, versions, Dict.lookup_foldl_erase, Dict.lookup_foldl_insert, hadded, hremoved,
      hu, not_true_eq_false, and_false, if_false, true_and]
    by_cases hc : u ∈ context <;> simp [hc]
  refine ⟨fun hc => ⟨?_, by rw [hlookup, if_pos hc]⟩, fun hc => ⟨?_, by rw [hlookup, if_neg hc]⟩⟩
  · have hstay := carries_trans (hcarries u (by simp [hadded, hc])) hkept
    exact ⟨hstay.head, hstay.due⟩
  · exact answers_carries (hanswers u (by simp [hadded, hu, hc])) hkept

/-- The settings of a unit are taken up. -/
theorem cbChangeSettings_carries (u : U) (v : Int) (h : Told live s context)
    (hv : ∀ w, w ∈ s.memberVersions ↔ w ∈ context) (hu : u ∈ context ∨ v ≤ 0)
    (hs' : cbChangeSettings s [(u, v)] = .ok s') :
    (∀ w, Carries s s' w) ∧ (∀ w, w ≠ u → s'.memberVersions.lookup w = s.memberVersions.lookup w) ∧
      (((s.memberVersions.lookup u).getD 0 < v ∧ Answers s s' u ∧
          s'.memberVersions.lookup u = some v) ∨
        v ≤ (s.memberVersions.lookup u).getD 0 ∧
          s'.memberVersions.lookup u = s.memberVersions.lookup u) := by
  obtain ⟨s₁, hs₁, ht₁, -⟩ := queueModified_told live context s (u, v) h hv hu
  have hsave : saveState s₁ = .ok s' := by
    rw [← hs', cbChangeSettings, List.foldlM_cons, hs₁]
    rfl
  obtain ⟨hsaved, hversions⟩ := saveState_carries s₁ s' hsave
  obtain ⟨hcarries, hothers, hown⟩ := queueModified_carries live context s s₁ u v h hv hu hs₁
  refine ⟨fun w => carries_trans (hcarries w) (hsaved w), fun w hw => ?_, ?_⟩
  · rw [hversions, hothers w hw]
  · rcases hown with ⟨hnew, hanswers, hlookup⟩ | ⟨hold, rfl⟩
    · exact Or.inl ⟨hnew, answers_carries hanswers (hsaved u), by rw [hversions, hlookup]⟩
    · exact Or.inr ⟨hold, by rw [hversions]⟩

end callbacks

section loop

variable (s s' : HookScheduler U)

theorem finishedChange_cases (h : finishedChange s = .ok s') :
    s'.runQueue = { s.runQueue with pending := s.runQueue.pending.tail } ∧
      s'.memberVersions = s.memberVersions := by
  obtain ⟨running, members, versions, ⟨pending, waiting⟩, file⟩ := s
  cases pending with
  | nil =>
    obtain rfl := Except.ok.inj h
    exact ⟨rfl, rfl⟩
  | cons c rest =>
    cases members with
    | none => simp [finishedChange, saveState] at h
    | some ms =>
      obtain rfl := Except.ok.inj h
      exact ⟨rfl, rfl⟩

/-- A hook that has ended leaves the changes behind it, and maybe one more, in the queue. -/
theorem hookEnded_cases (c : Change U) (rest : List (Change U)) (success : Bool)
    (hidle : s.runQueue.waiting = 0) (hp : s.runQueue.pending = c :: rest)
    (h : hookEnded s c success = .ok s') :
    ∃ behind, rest ⊆ behind ∧
      s'.runQueue = ⟨if success then behind else c :: behind, 0⟩ ∧
      s'.memberVersions = s.memberVersions := by
  have hexpanded : ∃ s₁ behind, rest ⊆ behind ∧ s₁.runQueue = ⟨c :: behind, 0⟩ ∧
      s₁.memberVersions = s.memberVersions ∧
      (if success then finishedChange s₁ else .ok { s₁ with running := false }) = .ok s' := by
    by_cases hc : c.changeType = .joined
    · cases hm : s.contextMembers with
      | none => simp [hookEnded, hc, getChange, hm, bind, Except.bind] at h
      | some ms =>
        simp only [hookEnded, hc, if_true, getChange, hm, bind, Except.bind, pure,
          Except.pure] at h
        split at h
        · cases h
        · rename_i result hput
          obtain ⟨s₁, fired⟩ := result
          obtain ⟨saved, hq, -, hv₁, hidle₁⟩ := put_cases _ _ _ _ _ hput
          simp only [hidle, hp, ne_eq, not_true_eq_false, if_false] at hq
          have hqueue (pending : List (Change U)) (hp₁ : s₁.runQueue.pending = pending) :
              s₁.runQueue = ⟨pending, 0⟩ := by
            rw [← hp₁, ← hidle₁ hidle]
          rcases queueChange_modified _ _ _ _ _ rfl hq with ⟨hp₁, -⟩ | hp₁
          · exact ⟨s₁, rest, List.Subset.refl _, hqueue _ hp₁, hv₁, h⟩
          · exact ⟨s₁, rest ++ [_], List.subset_append_left _ _, hqueue _ hp₁, hv₁, h⟩
    · refine ⟨s, rest, List.Subset.refl _, by rw [← hp, ← hidle], rfl, ?_⟩
      simpa [hookEnded, hc, bind, Except.bind, pure, Except.pure] using h
  obtain ⟨s₁, behind, hsub, hq₁, hv₁, hend⟩ := hexpanded
  refine ⟨behind, hsub, ?_⟩
  cases success with
  | false =>
    obtain rfl := Except.ok.inj hend
    exact ⟨hq₁, hv₁⟩
  | true =>
    obtain ⟨hq, hv'⟩ := finishedChange_cases s₁ s' hend
    exact ⟨by simp [hq, hq₁], hv'.trans hv₁⟩

omit [LinearOrder U] in
theorem nextChange_cases (taken : Option (Change U)) (h : nextChange s = .ok (s', taken)) :
    s'.runQueue.pending = s.runQueue.pending ∧ s'.memberVersions = s.memberVersions ∧
      taken = s.runQueue.pending.head? := by
  obtain ⟨running, members, versions, ⟨pending, waiting⟩, file⟩ := s
  cases pending with
  | nil =>
    by_cases hw : waiting < 1
    · simp only [nextChange, hw, if_true, Except.ok.injEq, Prod.mk.injEq] at h
      obtain ⟨rfl, rfl⟩ := h
      exact ⟨rfl, rfl, rfl⟩
    · simp [nextChange, hw] at h
  | cons c rest =>
    obtain ⟨rfl, rfl⟩ := Prod.mk.inj (Except.ok.inj h)
    exact ⟨rfl, rfl, rfl⟩

theorem stop_cases (h : stop s = .ok s') :
    s'.memberVersions = s.memberVersions ∧ s'.runQueue.pending = s.runQueue.pending := by
  cases hr : s.running with
  | false =>
    simp only [stop, hr, Bool.false_eq_true, if_false, Except.ok.injEq] at h
    exact ⟨by rw [h], by rw [h]⟩
  | true =>
    by_cases hw : s.runQueue.waiting = 0
    · simp only [stop, hr, if_true, put, hw, ne_eq, not_true_eq_false, if_false, bind,
        Except.bind, Except.ok.injEq] at h
      rw [← h]
      exact ⟨rfl, rfl⟩
    · simp only [stop, hr, if_true, put, hw, ne_eq, not_false_eq_true, bind,
        Except.bind, Except.ok.injEq] at h
      rw [← h]
      exact ⟨rfl, rfl⟩

end loop

namespace Session

/-- The entries of the queue whose hooks have not begun. -/
def notBegun (s : Session U) : List (Change U) :=
  if s.executing.isSome then s.scheduler.runQueue.pending.tail else s.scheduler.runQueue.pending

/-- A hook is to begin that shows the unit to the charm. -/
def Due (s : Session U) (u : U) : Prop :=
  ∃ q ∈ s.notBegun, q.unitName = u ∧ q.changeType ≠ .departed

/-- No hook is under way that a stopped loop has left. -/
def InLoop (s : Session U) : Prop := s.executing.isSome → s.scheduler.running = true

instance decidableInLoop (s : Session U) : Decidable s.InLoop :=
  inferInstanceAs (Decidable (_ → _))

/-- The hook that begins in an event. -/
def begun (s s' : Session U) : SessionEvent U → Option (Change U)
  | .hookEnds _ => if s.executing.isSome then s'.executing else none
  | _ => if s.executing.isSome then none else s'.executing

/-- The unit is shown to the charm by the hook that begins, or is to be by one in the queue. -/
def Shows (s s' : Session U) (e : SessionEvent U) (u : U) : Prop :=
  s'.Due u ∨ ∃ c, s.begun s' e = some c ∧ c.unitName = u ∧ c.changeType ≠ .departed

end Session

section events

variable (s s' : Session U) (u : U)

/-- In its loop a session is with the head of the queue, and has begun no other hook. -/
theorem inLoop_head (h : SessionInv s) (hloop : s.InLoop) :
    s.notBegun = notBegun s.scheduler ∧ (s.executing = none ↔ loopHead s.scheduler = none) ∧
      ∀ c, loopHead s.scheduler = some c → ∃ d, s.executing = some d ∧ d.unitName = c.unitName ∧
        d.changeType = c.changeType := by
  cases hexec : s.executing with
  | none =>
    have hnone : loopHead s.scheduler = none := by
      cases hr : s.scheduler.running with
      | false => exact (stopped_loopHead hr).1
      | true => simp [loopHead, h.alive hexec hr]
    refine ⟨?_, by simp [hnone], fun c hc => ?_⟩
    · simp [Session.notBegun, notBegun, hexec, hnone]
    · rw [hnone] at hc
      cases hc
  | some d =>
    obtain ⟨hidle, c, rest, hp, hcu, hct⟩ := h.head d hexec
    have hr : s.scheduler.running = true := hloop (by simp [hexec])
    have hhead : loopHead s.scheduler = some c := by simp [loopHead, hr, hidle, hp]
    refine ⟨?_, by simp [hhead], fun c' hc' => ?_⟩
    · simp [Session.notBegun, notBegun, hexec, hhead]
    · obtain rfl := Option.some.inj (hhead.symm.trans hc')
      exact ⟨d, rfl, hcu.symm, hct.symm⟩

theorem inLoop_due (h : SessionInv s) (hloop : s.InLoop) : s.Due u ↔ Due s.scheduler u := by
  simp only [Session.Due, Due, (inLoop_head s h hloop).1]

/-- A callback answers in its session as it does in the scheduler. -/
theorem answers_shows (e : SessionEvent U) (he : e.isCallback) (h : SessionInv s)
    (hloop : s.InLoop) (h' : SessionInv s') (hloop' : s'.InLoop)
    (ha : Answers s.scheduler s'.scheduler u) : s.Shows s' e u := by
  rcases ha with hdue | ⟨hnone, c, hc, hcu, hct⟩
  · exact Or.inl ((inLoop_due s' u h' hloop').mpr hdue)
  · obtain ⟨d, hd, hdu, hdt⟩ := (inLoop_head s' h' hloop').2.2 c hc
    have hwaited := (inLoop_head s h hloop).2.1.mpr hnone
    have hbegun : s.begun s' e = some d := by
      cases e with
      | members newUnits => simp [Session.begun, hwaited, hd]
      | settings unitVersions => simp [Session.begun, hwaited, hd]
      | run => exact he.elim
      | hookEnds success => exact he.elim
      | stop => exact he.elim
    exact Or.inr ⟨d, hbegun, hdu.trans hcu, hdt ▸ hct⟩

omit [LinearOrder U] in
/-- What is queued once the loop has asked for its next change. -/
theorem taken_shows (t : HookScheduler U) (e : SessionEvent U)
    (htake : nextChange t = .ok (s'.scheduler, s'.executing))
    (hbegun : s.begun s' e = s'.executing)
    (hu : ∃ q ∈ t.runQueue.pending, q.unitName = u ∧ q.changeType ≠ .departed) :
    s.Shows s' e u := by
  obtain ⟨q, hq, hqu⟩ := hu
  obtain ⟨hp, -, htaken⟩ := nextChange_cases t s'.scheduler s'.executing htake
  obtain ⟨c, rest, hcons⟩ := List.exists_cons_of_ne_nil (List.ne_nil_of_mem hq)
  rw [hcons, List.head?_cons] at htaken
  rw [hcons, List.mem_cons] at hq
  rcases hq with rfl | hq
  · exact Or.inr ⟨q, hbegun.trans htaken, hqu⟩
  · exact Or.inl ⟨q, by simpa [Session.notBegun, htaken, hp, hcons] using hq, hqu⟩

/-- The hooks that are to come are still to come when the loop has gone on. -/
theorem loop_shows (e : SessionEvent U) (h : SessionInv s) (he : ¬ e.isCallback)
    (hs' : s.step e = .ok s') : (∀ u, s.Due u → s.Shows s' e u) ∧
      s'.scheduler.memberVersions = s.scheduler.memberVersions ∧ s'.current = s.current := by
  cases e with
  | members newUnits => exact absurd trivial he
  | settings unitVersions => exact absurd trivial he
  | run =>
    by_cases hstarted : s.scheduler.running ∨ s.executing.isSome
    · simp only [Session.step, hstarted, if_true, Except.ok.injEq] at hs'
      subst hs'
      exact ⟨fun _ => Or.inl, rfl, rfl⟩
    · have hnone : s.executing = none := by
        rw [not_or] at hstarted
        simpa using hstarted.2
      simp only [Session.step, hstarted, if_false, bind, Except.bind] at hs'
      split at hs'
      · cases hs'
      · rename_i result htake
        obtain ⟨t, taken⟩ := result
        obtain rfl := Except.ok.inj hs'
        refine ⟨fun u hdue => ?_, (nextChange_cases _ t taken htake).2.1, rfl⟩
        refine taken_shows s _ u { s.scheduler with running := true } .run htake
          (by simp [Session.begun, hnone]) ?_
        simpa [Session.Due, Session.notBegun, hnone] using hdue
  | hookEnds success =>
    cases hexec : s.executing with
    | none =>
      simp only [Session.step, hexec, Except.ok.injEq] at hs'
      subst hs'
      exact ⟨fun _ => Or.inl, rfl, rfl⟩
    | some c =>
      obtain ⟨hidle, d, rest, hp, hdu, hdt⟩ := h.head c hexec
      have hnot : s.notBegun = rest := by simp [Session.notBegun, hexec, hp]
      simp only [Session.step, hexec, bind, Except.bind] at hs'
      split at hs'
      · cases hs'
      · rename_i t hended
        rw [hookEnded_same s.scheduler c d success hdu hdt] at hended
        obtain ⟨behind, hsub, hqt, hvt⟩ :=
          hookEnded_cases s.scheduler t d rest success hidle hp hended
        have hcome : ∀ u, s.Due u → ∃ q ∈ t.runQueue.pending, q.unitName = u ∧
            q.changeType ≠ .departed := by
          intro u hdue
          obtain ⟨q, hq, hqu⟩ := hdue
          have hin : q ∈ behind := hsub (hnot ▸ hq)
          refine ⟨q, ?_, hqu⟩
          rw [hqt]
          cases success with
          | false => exact List.mem_cons_of_mem d hin
          | true => exact hin
        cases hrt : t.running with
        | false =>
          simp only [hrt, Bool.false_eq_true, if_false, Except.ok.injEq] at hs'
          subst hs'
          refine ⟨fun u hdue => Or.inl ?_, hvt, rfl⟩
          simpa [Session.Due, Session.notBegun] using hcome u hdue
        | true =>
          simp only [hrt, if_true] at hs'
          split at hs'
          · cases hs'
          · rename_i result htake
            obtain ⟨t', taken⟩ := result
            obtain rfl := Except.ok.inj hs'
            refine ⟨fun u hdue => ?_, (nextChange_cases t t' taken htake).2.1.trans hvt, rfl⟩
            exact taken_shows s _ u t _ htake (by simp [Session.begun, hexec]) (hcome u hdue)
  | stop =>
    simp only [Session.step, bind, Except.bind] at hs'
    split at hs'
    · cases hs'
    · rename_i t hstop
      obtain rfl := Except.ok.inj hs'
      obtain ⟨hversions, hp⟩ := stop_cases s.scheduler t hstop
      refine ⟨fun u hdue => Or.inl ?_, hversions, rfl⟩
      simpa [Session.Due, Session.notBegun, hp] using hdue

/-- A callback that a session in its loop has taken up leaves it in its loop. -/
theorem callback_inLoop (t : HookScheduler U) (h : SessionInv s) (hloop : s.InLoop)
    (hr : t.running = s.scheduler.running) (current : List U) :
    Session.InLoop ⟨t, wokenWith s.scheduler t s.executing, current, s.history⟩ := by
  intro hsome
  simp only [wokenWith] at hsome
  rw [hr]
  split at hsome
  · rename_i hwoken
    exact (h.told.waits hwoken.1).2.1
  · exact hloop hsome

theorem members_shows (newUnits : List U) (h : SessionInv s) (hloop : s.InLoop)
    (hbehind : NoneBehind s newUnits) (hs' : s.step (.members newUnits) = .ok s')
    (hu : u ∈ newUnits) :
    (u ∈ s.current → (s.Due u → s.Shows s' (.members newUnits) u) ∧
        s'.scheduler.memberVersions.lookup u = s.scheduler.memberVersions.lookup u) ∧
      (u ∉ s.current → s.Shows s' (.members newUnits) u ∧
        s'.scheduler.memberVersions.lookup u = some 0) := by
  obtain ⟨s₁, hs₁, hinv', -⟩ := members_inv s newUnits h hbehind
  obtain rfl : s₁ = s' := Except.ok.inj (hs₁.symm.trans hs')
  have hrunning := noneBehind_tail s newUnits h hbehind
  obtain ⟨t, f, ht, -, -, hr, -⟩ := cbChangeMembers_told (present s.history) s.scheduler
    s.current.toFinset s.current newUnits (inv_before s h) (by simpa using h.versions) hrunning
  have hshape : s₁ = ⟨t, wokenWith s.scheduler t s.executing, newUnits, s.history⟩ := by
    simp only [Session.step, ht, bind, Except.bind] at hs'
    exact (Except.ok.inj hs').symm
  have hloop' : s₁.InLoop := hshape ▸ callback_inLoop s t h hloop hr newUnits
  obtain ⟨hstays, hjoins⟩ := cbChangeMembers_carries (present s.history) s.current.toFinset
    s.scheduler t s.current newUnits (inv_before s h) (by simpa using h.versions)
    hrunning ht u hu
  rw [List.mem_toFinset] at hstays hjoins
  have ht₁ : s₁.scheduler = t := by rw [hshape]
  rw [← ht₁] at hstays hjoins
  refine ⟨fun hin => ?_, fun hout => ?_⟩
  · obtain ⟨hcarries, hlookup⟩ := hstays hin
    refine ⟨fun hdue => Or.inl ((inLoop_due s₁ u hinv' hloop').mpr ?_), hlookup⟩
    exact hcarries.due ((inLoop_due s u h hloop).mp hdue)
  · obtain ⟨hanswers, hlookup⟩ := hjoins hout
    exact ⟨answers_shows s s₁ u _ trivial h hloop hinv' hloop' hanswers, hlookup⟩

theorem settings_shows (v : Int) (h : SessionInv s) (hloop : s.InLoop)
    (he : Timely s (.settings [(u, v)])) (hs' : s.step (.settings [(u, v)]) = .ok s') :
    (∀ w, s.Due w → s.Shows s' (.settings [(u, v)]) w) ∧
      (∀ w, w ≠ u →
        s'.scheduler.memberVersions.lookup w = s.scheduler.memberVersions.lookup w) ∧
      (((s.scheduler.memberVersions.lookup u).getD 0 < v ∧ s.Shows s' (.settings [(u, v)]) u ∧
          s'.scheduler.memberVersions.lookup u = some v) ∨
        v ≤ (s.scheduler.memberVersions.lookup u).getD 0 ∧
          s'.scheduler.memberVersions.lookup u = s.scheduler.memberVersions.lookup u) := by
  obtain ⟨s₁, hs₁, hinv', -⟩ := settings_inv s [(u, v)] h he
  obtain rfl : s₁ = s' := Except.ok.inj (hs₁.symm.trans hs')
  have hmember : u ∈ s.current.toFinset ∨ v ≤ 0 := by simpa using he.2 (u, v) (by simp)
  obtain ⟨t, f, ht, -, -, hr, -⟩ := cbChangeSettings_told (present s.history) s.scheduler
    s.current.toFinset [(u, v)] (inv_told s h he.1) (by simpa using h.versions)
    (by simpa using hmember)
  have hshape : s₁ = ⟨t, wokenWith s.scheduler t s.executing, s.current, s.history⟩ := by
    simp only [Session.step, ht, bind, Except.bind] at hs'
    exact (Except.ok.inj hs').symm
  have hloop' : s₁.InLoop := hshape ▸ callback_inLoop s t h hloop hr s.current
  obtain ⟨hcarries, hothers, hown⟩ := cbChangeSettings_carries (present s.history)
    s.current.toFinset s.scheduler t u v (inv_told s h he.1) (by simpa using h.versions)
    hmember ht
  have ht₁ : s₁.scheduler = t := by rw [hshape]
  rw [← ht₁] at hcarries hothers hown
  refine ⟨fun w hdue => Or.inl ((inLoop_due s₁ w hinv' hloop').mpr ?_), hothers, ?_⟩
  · exact (hcarries w).due ((inLoop_due s w h hloop).mp hdue)
  · rcases hown with ⟨hnew, hanswers, hlookup⟩ | hold
    · exact Or.inl
        ⟨hnew, answers_shows s s₁ u _ trivial h hloop hinv' hloop' hanswers, hlookup⟩
    · exact Or.inr hold

end events

end Juju.Hooks

import Juju.Hooks.WellQueued

namespace Juju.Hooks
open Juju.Base

variable {U : Type}

/-- Behind the head, an entry that is not modified is the last one of its unit. -/
def Once (pending : List (Change U)) : Prop :=
  pending.tail.Pairwise fun p q => p.unitName = q.unitName → p.changeType = .modified

theorem once_sublist (xs ys : List (Change U)) (hsub : xs.Sublist ys) (h : Once ys) : Once xs :=
  List.Pairwise.sublist hsub.tail h

/-- Removing an entry. -/
theorem once_remove (before after : List (Change U)) (p : Change U)
    (h : Once (before ++ p :: after)) : Once (before ++ after) :=
  once_sublist _ _ ((List.Sublist.refl before).append (List.sublist_cons_self p after)) h

/-- Appending an entry of a unit with modified entries only, the head apart. -/
theorem once_snoc (pending : List (Change U)) (c : Change U) (h : Once pending)
    (hu : ∀ q ∈ pending.tail, q.unitName = c.unitName → q.changeType = .modified) :
    Once (pending ++ [c]) := by
  cases pending with
  | nil => exact List.Pairwise.nil
  | cons d rest =>
    refine List.pairwise_append.mpr ⟨h, List.pairwise_singleton _ _, ?_⟩
    intro q hq e he heq
    rw [List.mem_singleton.mp he] at heq
    exact hu q hq heq

/-- Of two entries of a unit behind the head, the first is modified. -/
theorem once_before (before after : List (Change U)) (p : Change U)
    (h : Once (before ++ p :: after)) :
    ∀ q ∈ before.tail, q.unitName = p.unitName → q.changeType = .modified := by
  cases before with
  | nil => simp
  | cons c before =>
    intro q hq he
    exact (List.pairwise_append.mp h).2.2 q hq p (by simp) he

/-- With the latest entry of a unit taken away, all that is left behind the head is modified. -/
theorem once_rest (before after : List (Change U)) (p : Change U)
    (h : Once (before ++ p :: after)) (ha : ∀ q ∈ after, q.unitName ≠ p.unitName) :
    ∀ q ∈ (before ++ after).tail, q.unitName = p.unitName → q.changeType = .modified := by
  have hbefore := once_before before after p h
  cases before with
  | nil => exact fun q hq he => absurd he (ha q (List.mem_of_mem_tail hq))
  | cons c before =>
    intro q hq he
    rcases List.mem_append.mp (show q ∈ before ++ after from hq) with hq | hq
    · exact hbefore q hq he
    · exact absurd he (ha q hq)

variable [DecidableEq U]

/-- The queue of a scheduler whose hooks have put `live` into the relation, while `context`
are the members that a hook queued now would see. -/
structure QueueInv (live : Finset U) (pending : List (Change U)) (context : Finset U) :
    Prop where
  queued : WellQueued live pending context
  once : Once pending
  nodup : NodupMembers pending

theorem once_wipe (pending : List (Change U)) (u : U) (h : Once pending) :
    Once (wipeMember u pending) := by
  cases pending with
  | nil => exact h
  | cons c rest =>
    rw [Once, wipeMember_cons, List.tail_cons, wipeMember, List.pairwise_map]
    exact h

theorem queueInv_nil : QueueInv (∅ : Finset U) [] ∅ :=
  ⟨rfl, List.Pairwise.nil, by simp [NodupMembers]⟩

omit [DecidableEq U] in
theorem nodupMembers_sublist (xs ys : List (Change U)) (hsub : xs.Sublist ys)
    (h : NodupMembers ys) : NodupMembers xs :=
  fun c hc => h c (hsub.subset hc)

/-- In a well-queued list the entry after a joined one of its unit is not joined. -/
theorem wellQueued_not_joined (live context : Finset U) (c p : Change U)
    (before after : List (Change U))
    (h : WellQueued live (c :: (before ++ p :: after)) context) (hc : c.changeType = .joined)
    (hp : p.unitName = c.unitName)
    (hb : ∀ q ∈ before, q.unitName = c.unitName → q.changeType = .modified) :
    p.changeType ≠ .joined := by
  obtain ⟨mid, hbefore, hfits, -⟩ := (wellQueued_append _ _ before _).mp h.2
  have hmem : c.unitName ∈ mid := by
    rw [wellQueued_mem_of_modified _ _ _ _ hbefore hb]
    simp [Change.settle, hc]
  intro hjoined
  exact absurd (hp ▸ hmem) (hfits.1.mp hjoined)

/-- The same of a departed one. -/
theorem wellQueued_not_departed (live context : Finset U) (c p : Change U)
    (before after : List (Change U))
    (h : WellQueued live (c :: (before ++ p :: after)) context) (hc : c.changeType = .departed)
    (hp : p.unitName = c.unitName)
    (hb : ∀ q ∈ before, q.unitName = c.unitName → q.changeType = .modified) :
    p.changeType = .joined := by
  obtain ⟨mid, hbefore, hfits, -⟩ := (wellQueued_append _ _ before _).mp h.2
  have hmem : c.unitName ∉ mid := by
    rw [wellQueued_mem_of_modified _ _ _ _ hbefore hb]
    simp [Change.settle, hc]
  exact hfits.1.mpr (hp ▸ hmem)

/-- The latest entry of a unit, unless it is modified, is also the first one equal to it. -/
theorem latest_not_before (live context : Finset U) (before after : List (Change U))
    (p : Change U) (h : QueueInv live (before ++ p :: after) context)
    (hp : p.changeType ≠ .modified) : p ∉ before := by
  cases before with
  | nil => simp
  | cons c before =>
    have hb := once_before (c :: before) after p h.once
    intro hmem
    rcases List.mem_cons.mp hmem with rfl | hmem
    · cases ht : p.changeType with
      | modified => exact hp ht
      | joined => exact wellQueued_not_joined live context p p before after h.queued ht rfl hb ht
      | departed =>
        have hjoined := wellQueued_not_departed live context p p before after h.queued ht rfl hb
        simp [ht] at hjoined
    · exact hp (hb p hmem rfl)

/-- Queueing while stopped, on a queue whose latest entry of the unit is known. -/
theorem queueChange_stopped (change p : Change U) (before after : List (Change U))
    (hp : p.unitName = change.unitName) (ha : ∀ q ∈ after, q.unitName ≠ change.unitName) :
    queueChange (before ++ p :: after) change 0 =
      match prescribed p.changeType change.changeType with
      | none => .error (.unpackNone p.changeType change.changeType)
      | some .keep => .ok (before ++ p :: after, false)
      | some (.replace t) =>
        .ok ((before ++ p :: after).erase p ++ [{ change with changeType := t }], true)
      | some .cancel => .ok ((wipeMember change.unitName (before ++ p :: after)).eraseIdx
          ((before ++ p :: after).idxOf p), true) := by
  have herase := List.erase_eq_eraseIdx_of_idxOf
    (show (before ++ p :: after).idxOf p = (before ++ p :: after).idxOf p from rfl)
  rw [queueChange_split change _ before after p 0 (List.drop_zero) hp ha, herase]
  rfl

theorem erase_latest (before after : List (Change U)) (p : Change U) (h : p ∉ before) :
    (before ++ p :: after).erase p = before ++ after := by
  rw [List.erase_append_right _ h, List.erase_cons_head]

/-- Either the unit has no entry, or its latest entry splits the queue. -/
theorem latest_cases (u : U) (pending : List (Change U)) :
    (∀ q ∈ pending, q.unitName ≠ u) ∨ ∃ before after p, pending = before ++ p :: after ∧
      p.unitName = u ∧ ∀ q ∈ after, q.unitName ≠ u := by
  cases h : previous u pending with
  | none => exact .inl (previous_none u pending h)
  | some found =>
    obtain ⟨before, after, hsplit, hp, ha, -⟩ := previous_some u pending found.1 found.2 h
    exact .inr ⟨before, after, found.2, hsplit, hp, ha⟩

theorem queueChange_new (pending : List (Change U)) (change : Change U) (offset : Nat)
    (h : ∀ q ∈ pending.drop offset, q.unitName ≠ change.unitName) :
    queueChange pending change offset = .ok (pending ++ [change], true) := by
  rw [queueChange, previous_eq_none _ _ h]

/-- A change that fits goes to the end of the queue. -/
theorem queueInv_snoc (live context : Finset U) (pending : List (Change U)) (change : Change U)
    (h : QueueInv live pending context)
    (hu : ∀ q ∈ pending.tail, q.unitName = change.unitName → q.changeType = .modified)
    (hfits : Fits context change) (hn : change.members.Nodup) :
    QueueInv live (pending ++ [change]) (change.settle context) := by
  refine ⟨wellQueued_snoc _ _ _ _ h.queued hfits, once_snoc _ _ h.once hu, ?_⟩
  intro c hc
  rcases List.mem_append.mp hc with hc | hc
  · exact h.nodup c hc
  · rw [List.mem_singleton.mp hc]
    exact hn

/-- Behind the head no entry is of the change's unit. -/
theorem queueInv_new (live context : Finset U) (pending : List (Change U)) (change : Change U)
    (h : QueueInv live pending context)
    (hu : ∀ q ∈ pending.tail, q.unitName ≠ change.unitName)
    (hfits : Fits context change) (hn : change.members.Nodup) :
    QueueInv live (pending ++ [change]) (change.settle context) :=
  queueInv_snoc live context pending change h (fun q hq he => absurd he (hu q hq)) hfits hn

/-- A joined unit and its departure cancel. -/
theorem queueInv_cancel (live context : Finset U) (before after : List (Change U))
    (p : Change U) (h : QueueInv live (before ++ p :: after) context)
    (ha : ∀ q ∈ after, q.unitName ≠ p.unitName) (hp : p.changeType = .joined) :
    QueueInv live (wipeMember p.unitName (before ++ after)) (context.erase p.unitName) := by
  obtain ⟨mid, hbefore, hfits, hafter⟩ := (wellQueued_append live context before _).mp h.queued
  have hnodup : NodupMembers (before ++ after) := fun c hc => h.nodup c (by
    simp only [List.mem_append, List.mem_cons] at hc ⊢
    tauto)
  have hmid : (p.settle mid).erase p.unitName = mid := by
    simp only [Change.settle, hp]
    rw [Finset.erase_insert (hfits.1.mp hp)]
  have herase := wellQueued_erase _ _ _ _ hafter ha
    (fun c hc => hnodup c (List.mem_append_right _ hc))
  rw [hmid] at herase
  refine ⟨?_, once_wipe _ _ (once_remove before after p h.once),
    nodupMembers_wipe _ _ hnodup⟩
  rw [wipeMember_append]
  exact (wellQueued_append _ _ _ _).mpr ⟨mid, wellQueued_wipe _ _ _ _ hbefore, herase⟩

section stopped

variable (live context : Finset U) (pending : List (Change U)) (u : U) (ms : List U)

/-- A unit outside the context joins while the scheduler is stopped. -/
theorem queue_joined (h : QueueInv live pending context) (hu : u ∉ context)
    (hms : ∀ w ∈ ms, w ∈ insert u context) (hn : ms.Nodup) :
    ∃ result saved, queueChange pending ⟨u, .joined, ms⟩ 0 = .ok (result, saved) ∧
      QueueInv live result (insert u context) := by
  have hmem (w : U) (hw : w ∈ ms) : w = u ∨ w ∈ context := Finset.mem_insert.mp (hms w hw)
  rcases latest_cases u pending with hnone | ⟨before, after, p, rfl, rfl, ha⟩
  · refine ⟨_, _, queueChange_new _ _ 0 hnone, ?_⟩
    exact queueInv_new live context pending _ h (fun q hq => hnone q (List.mem_of_mem_tail hq))
      ⟨by simpa using hu, hmem⟩ hn
  · have hdeparted : p.changeType = .departed := by
      simpa using (wellQueued_latest _ _ _ _ _ h.queued ha).not.mp hu
    have hq := queueChange_stopped ⟨p.unitName, .joined, ms⟩ p before after rfl ha
    have hfirst := latest_not_before _ _ _ _ _ h (by simp [hdeparted])
    rw [hdeparted, erase_latest _ _ _ hfirst] at hq
    obtain ⟨mid, hbefore, hfits, hafter⟩ := (wellQueued_append live _ before _).mp h.queued
    have hmid : insert p.unitName (p.settle mid) = mid := by
      have hin : p.unitName ∈ mid := by
        by_contra hno
        simpa [hdeparted] using hfits.1.mpr hno
      simp only [Change.settle, hdeparted]
      rw [Finset.insert_erase hin]
    have hinsert := wellQueued_insert _ _ _ _ hafter ha
    rw [hmid] at hinsert
    have hrest : QueueInv live (before ++ after) (insert p.unitName context) :=
      ⟨(wellQueued_append _ _ _ _).mpr ⟨mid, hbefore, hinsert⟩, once_remove _ _ p h.once,
        nodupMembers_sublist _ _
          ((List.Sublist.refl before).append (List.sublist_cons_self p after)) h.nodup⟩
    exact ⟨_, _, hq, queueInv_snoc live _ (before ++ after) ⟨p.unitName, .modified, ms⟩ hrest
      (once_rest before after p h.once ha) ⟨by simp, fun w hw => Or.inr (hms w hw)⟩ hn⟩

/-- A unit of the context departs while the scheduler is stopped. -/
theorem queue_departed (h : QueueInv live pending context) (hu : u ∈ context)
    (hms : ∀ w ∈ ms, w ∈ context) (hn : ms.Nodup) :
    ∃ result saved, queueChange pending ⟨u, .departed, ms⟩ 0 = .ok (result, saved) ∧
      QueueInv live result (context.erase u) := by
  rcases latest_cases u pending with hnone | ⟨before, after, p, rfl, rfl, ha⟩
  · refine ⟨_, _, queueChange_new _ _ 0 hnone, ?_⟩
    exact queueInv_new live context pending ⟨u, .departed, ms⟩ h
      (fun q hq => hnone q (List.mem_of_mem_tail hq))
      ⟨by simpa using hu, fun w hw => Or.inr (hms w hw)⟩ hn
  · have hq := queueChange_stopped ⟨p.unitName, .departed, ms⟩ p before after rfl ha
    have hlatest := (wellQueued_latest _ _ _ _ _ h.queued ha).mp hu
    cases hp : p.changeType with
    | departed => exact absurd hp hlatest
    | joined =>
      have hfirst := latest_not_before _ _ _ _ _ h (by simp [hp])
      have hidx : (before ++ p :: after).idxOf p = before.length := by
        rw [List.idxOf_append_of_notMem hfirst]
        simp
      have hwipe := eraseIdx_split (wipeMember p.unitName before) (wipeMember p.unitName after)
        { p with members := p.members.erase p.unitName }
      rw [← wipeMember_cons, ← wipeMember_append, ← wipeMember_append, wipeMember_length]
        at hwipe
      rw [hp, hidx, hwipe] at hq
      exact ⟨_, _, hq, queueInv_cancel live context before after p h ha hp⟩
    | modified =>
      rw [hp] at hq
      have hsub := List.erase_sublist (a := p) (l := before ++ p :: after)
      have hrest : QueueInv live ((before ++ p :: after).erase p) context :=
        ⟨wellQueued_drop_modified _ _ _ p h.queued hp, once_sublist _ _ hsub h.once,
          nodupMembers_sublist _ _ hsub h.nodup⟩
      refine ⟨_, _, hq, queueInv_snoc live context _ ⟨p.unitName, .departed, ms⟩ hrest ?_
        ⟨by simpa using hu, fun w hw => Or.inr (hms w hw)⟩ hn⟩
      intro q hq he
      have hq := hsub.tail.subset hq
      by_cases hqp : q = p
      · exact hqp ▸ hp
      · refine once_rest before after p h.once ha q ?_ he
        cases before with
        | nil => exact absurd he (ha q hq)
        | cons c before =>
          simp only [List.cons_append, List.tail_cons, List.mem_append, List.mem_cons] at hq ⊢
          tauto

/-- A unit of the context changes its settings while the scheduler is stopped. -/
theorem queue_modified (h : QueueInv live pending context) (hu : u ∈ context)
    (hms : ∀ w ∈ ms, w ∈ context) (hn : ms.Nodup) :
    ∃ result saved, queueChange pending ⟨u, .modified, ms⟩ 0 = .ok (result, saved) ∧
      QueueInv live result context := by
  rcases latest_cases u pending with hnone | ⟨before, after, p, rfl, rfl, ha⟩
  · refine ⟨_, _, queueChange_new _ _ 0 hnone, ?_⟩
    exact queueInv_new live context pending ⟨u, .modified, ms⟩ h
      (fun q hq => hnone q (List.mem_of_mem_tail hq))
      ⟨by simpa using hu, fun w hw => Or.inr (hms w hw)⟩ hn
  · have hq := queueChange_stopped ⟨p.unitName, .modified, ms⟩ p before after rfl ha
    have hlatest := (wellQueued_latest _ _ _ _ _ h.queued ha).mp hu
    cases hp : p.changeType with
    | departed => exact absurd hp hlatest
    | joined =>
      rw [hp] at hq
      exact ⟨_, _, hq, h⟩
    | modified =>
      rw [hp] at hq
      exact ⟨_, _, hq, h⟩

end stopped

/-- The entries of units other than `u` are still there, perhaps with fewer members. -/
def OthersKept (u : U) (pending result : List (Change U)) : Prop :=
  ∀ p ∈ pending, p.unitName ≠ u →
    ∃ q ∈ result, q.unitName = p.unitName ∧ q.changeType = p.changeType

omit [DecidableEq U] in
theorem othersKept_subset (u : U) (pending result : List (Change U)) (h : pending ⊆ result) :
    OthersKept u pending result :=
  fun p hp _ => ⟨p, h hp, rfl, rfl⟩

theorem queueChange_othersKept (pending result : List (Change U)) (change : Change U)
    (saved : Bool) (h : queueChange pending change 0 = .ok (result, saved)) :
    OthersKept change.unitName pending result := by
  rcases latest_cases change.unitName pending with hnone | ⟨before, after, p, rfl, hp, ha⟩
  · rw [queueChange_new _ _ 0 hnone] at h
    obtain ⟨rfl, -⟩ : pending ++ [change] = result ∧ true = saved := by simpa using h
    exact othersKept_subset _ _ _ (List.subset_append_left _ _)
  · have hne (q : Change U) (hq : q ∈ before ++ p :: after)
        (hu : q.unitName ≠ change.unitName) : q ∈ (before ++ p :: after).erase p :=
      (List.mem_erase_of_ne (fun he : q = p => hu (he ▸ hp))).mpr hq
    rw [queueChange_stopped change p before after hp ha] at h
    cases hout : prescribed p.changeType change.changeType with
    | none => simp [hout] at h
    | some out =>
      rw [hout] at h
      cases out with
      | keep =>
        obtain ⟨rfl, -⟩ : before ++ p :: after = result ∧ false = saved := by simpa using h
        exact othersKept_subset _ _ _ (List.Subset.refl _)
      | replace t =>
        obtain ⟨rfl, -⟩ : _ = result ∧ true = saved := by simpa using h
        exact fun q hq hu => ⟨q, List.mem_append_left _ (hne q hq hu), rfl, rfl⟩
      | cancel =>
        obtain ⟨rfl, -⟩ : _ = result ∧ true = saved := by simpa using h
        intro q hq hu
        have hin := hne q hq hu
        rw [List.erase_eq_eraseIdx_of_idxOf rfl] at hin
        refine ⟨{ q with members := q.members.erase change.unitName }, ?_, rfl, rfl⟩
        rw [wipeMember, List.eraseIdx_map]
        exact List.mem_map_of_mem hin

/-- The head of the queue is still there, perhaps with fewer members, and so are the entries behind
it of units other than `u`. -/
def HeadKept (u : U) (d : Change U) (rest result : List (Change U)) : Prop :=
  ∃ d' rest', result = d' :: rest' ∧ d'.unitName = d.unitName ∧ d'.changeType = d.changeType ∧
    ∀ p ∈ rest, p.unitName ≠ u → ∃ q ∈ rest', q.unitName = p.unitName ∧ q.changeType = p.changeType

omit [DecidableEq U] in
theorem headKept_append (u : U) (d : Change U) (rest more : List (Change U)) :
    HeadKept u d rest (d :: rest ++ more) :=
  ⟨d, rest ++ more, rfl, rfl, rfl, fun p hp _ => ⟨p, List.mem_append_left _ hp, rfl, rfl⟩⟩

/-- A modified change is dropped or goes to the end, wherever it is merged. -/
theorem queueChange_modified (pending result : List (Change U)) (change : Change U) (offset : Nat)
    (saved : Bool) (hmodified : change.changeType = .modified)
    (h : queueChange pending change offset = .ok (result, saved)) :
    result = pending ∧ pending ≠ [] ∨ result = pending ++ [change] := by
  rw [queueChange, hmodified] at h
  split at h
  · exact .inr (congrArg Prod.fst (Except.ok.inj h)).symm
  · rename_i idx prev hprevious
    have hne : pending ≠ [] := by
      rintro rfl
      rw [List.drop_nil] at hprevious
      cases hprevious
    have hkeep : reduce (idx, prev.changeType) (-1, .modified) =
        some (some (idx : Int), some prev.changeType) := by
      cases prev.changeType <;> rfl
    rw [hkeep] at h
    simp only [if_true] at h
    exact .inl ⟨(congrArg Prod.fst (Except.ok.inj h)).symm, hne⟩

/-- Behind the head, the latest entry of the head's unit is another one, if the unit has an entry of
another type there. -/
theorem latest_ne_head (live context : Finset U) (d p : Change U) (before after : List (Change U))
    (h : QueueInv live (d :: (before ++ p :: after)) context)
    (ha : ∀ q ∈ after, q.unitName ≠ p.unitName)
    (hother : d.unitName = p.unitName → ∃ q ∈ before ++ p :: after, q.unitName = d.unitName ∧
      q.changeType ≠ d.changeType) : p ≠ d := by
  rintro rfl
  by_cases hp : p.changeType = .modified
  · obtain ⟨q, hq, hqu, hqt⟩ := hother rfl
    rcases List.mem_append.mp hq with hq | hq
    · have hfirst := once_before (p :: before) after p h.once q hq hqu
      exact hqt (hfirst.trans hp.symm)
    · rcases List.mem_cons.mp hq with rfl | hq
      · exact hqt rfl
      · exact ha q hq hqu
  · exact latest_not_before live context (p :: before) after p h hp List.mem_cons_self

/-- While the scheduler is stopped, a change of another unit than the head's keeps the head, and so
does one of a unit that has an entry of another type behind it. -/
theorem queueChange_head (live context : Finset U) (d : Change U) (rest result : List (Change U))
    (change : Change U) (saved : Bool) (h : QueueInv live (d :: rest) context)
    (hother : d.unitName = change.unitName → ∃ p ∈ rest, p.unitName = d.unitName ∧
      p.changeType ≠ d.changeType)
    (hq : queueChange (d :: rest) change 0 = .ok (result, saved)) :
    HeadKept change.unitName d rest result := by
  rcases latest_cases change.unitName (d :: rest) with hnone | ⟨before, after, p, hsplit, hp, ha⟩
  · rw [queueChange_new _ _ 0 hnone] at hq
    obtain ⟨rfl, -⟩ : d :: rest ++ [change] = result ∧ true = saved := by simpa using hq
    exact headKept_append _ d rest _
  · cases before with
    | nil =>
      obtain ⟨rfl, rfl⟩ := List.cons.inj hsplit
      obtain ⟨q, hin, hqu, -⟩ := hother hp
      exact absurd (hqu.trans hp) (ha q hin)
    | cons e before =>
      have hrest : rest = before ++ p :: after := (List.cons.inj hsplit).2
      obtain rfl : d = e := (List.cons.inj hsplit).1
      subst hrest
      have hne : p ≠ d := latest_ne_head live context d p before after h
        (fun q hin => hp ▸ ha q hin) fun he => hother (he.trans hp)
      have hkept (q : Change U) (hin : q ∈ before ++ p :: after)
          (hu : q.unitName ≠ change.unitName) : q ∈ (before ++ p :: after).erase p :=
        (List.mem_erase_of_ne fun he : q = p => hu (he ▸ hp)).mpr hin
      have hq' := queueChange_stopped change p (d :: before) after hp ha
      rw [List.cons_append] at hq'
      rw [hq'] at hq
      cases hout : prescribed p.changeType change.changeType with
      | none => simp [hout] at hq
      | some out =>
        rw [hout] at hq
        cases out with
        | keep =>
          obtain ⟨rfl, -⟩ : d :: (before ++ p :: after) = result ∧ false = saved := by
            simpa using hq
          exact ⟨d, _, rfl, rfl, rfl, fun q hin _ => ⟨q, hin, rfl, rfl⟩⟩
        | replace t =>
          obtain ⟨rfl, -⟩ : _ = result ∧ true = saved := by simpa using hq
          rw [List.erase_cons_tail (by simpa using hne.symm)]
          exact ⟨d, _, rfl, rfl, rfl, fun q hin hu =>
            ⟨q, List.mem_append_left _ (hkept q hin hu), rfl, rfl⟩⟩
        | cancel =>
          obtain ⟨rfl, -⟩ : _ = result ∧ true = saved := by simpa using hq
          rw [List.idxOf_cons_ne _ hne.symm, wipeMember_cons, List.eraseIdx_cons_succ]
          refine ⟨_, _, rfl, rfl, rfl, fun q hin hu => ?_⟩
          refine ⟨{ q with members := q.members.erase change.unitName }, ?_, rfl, rfl⟩
          have hmem := hkept q hin hu
          rw [List.erase_eq_eraseIdx_of_idxOf rfl] at hmem
          rw [wipeMember, List.eraseIdx_map]
          exact List.mem_map_of_mem hmem

/-- The modified change that `run` queues behind the joined hook it has just executed. -/
theorem queue_expanded (live context : Finset U) (c : Change U) (rest : List (Change U))
    (ms : List U) (h : QueueInv live (c :: rest) context) (hc : c.changeType = .joined)
    (hms : ∀ w ∈ ms, w ∈ context) (hn : ms.Nodup) :
    ∃ behind saved, queueChange (c :: rest) ⟨c.unitName, .modified, ms⟩ 1 =
        .ok (c :: behind, saved) ∧ QueueInv live (c :: behind) context ∧
      ∃ d ∈ behind, d.unitName = c.unitName ∧
        (d.changeType = .modified ∨ d.changeType = .departed) := by
  rcases latest_cases c.unitName rest with hnone | ⟨before, after, p, rfl, hp, ha⟩
  · have hu : c.unitName ∈ context := by
      rw [wellQueued_mem _ _ _ _ h.queued.2 hnone]
      simp [Change.settle, hc]
    have hq := queueChange_new (c :: rest) ⟨c.unitName, .modified, ms⟩ 1 hnone
    refine ⟨_, true, hq, ?_, ⟨c.unitName, .modified, ms⟩, by simp, rfl, Or.inl rfl⟩
    exact queueInv_new live context (c :: rest) ⟨c.unitName, .modified, ms⟩ h hnone
      ⟨by simpa using hu, fun w hw => Or.inr (hms w hw)⟩ hn
  · have hb := once_before (c :: before) after p h.once
    have hnot := wellQueued_not_joined live context c p before after h.queued hc hp
      (fun q hq he => hb q hq (he.trans hp.symm))
    have hq := queueChange_split ⟨c.unitName, .modified, ms⟩ (c :: (before ++ p :: after))
      before after p 1 rfl hp ha
    refine ⟨before ++ p :: after, false, ?_, h, p, by simp, hp, ?_⟩
    · rw [hq]
      cases ht : p.changeType with
      | joined => exact absurd ht hnot
      | departed => rfl
      | modified => rfl
    · cases ht : p.changeType <;> simp_all

end Juju.Hooks

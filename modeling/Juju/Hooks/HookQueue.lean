import Juju.Base.ListEdit

namespace Juju.Hooks
open Juju.Base

/-- ADDED, REMOVED and MODIFIED of the scheduler module. -/
inductive ChangeType where
  | joined
  | departed
  | modified
  deriving DecidableEq

/-- A queued change, as `_get_change` builds it. -/
structure Change (U : Type) where
  unitName : U
  changeType : ChangeType
  members : List U
  deriving DecidableEq

/-- What a call on the queue may raise. -/
inductive QueueError where
  /-- `_reduce` handles no such pair, so unpacking its None raises TypeError. -/
  | unpackNone (previous new : ChangeType)
  /-- The assertion on a cancelled change. -/
  | notRemoved
  deriving DecidableEq

variable {U : Type} [DecidableEq U]

/-- The most recent previous operation of the unit; its position is looked up by
equality, as `list.index` does. -/
def previous (unitName : U) (pending : List (Change U)) : Option (Nat × Change U) :=
  (pending.reverse.find? fun p => p.unitName = unitName).map fun p => (pending.idxOf p, p)

def wipeMember (unitName : U) (pending : List (Change U)) : List (Change U) :=
  pending.map fun p => { p with members := p.members.erase unitName }

/-- Reduce two operations of one unit, each with its clock; `none` where the code falls
through every branch. -/
def reduce (previous new : Int × ChangeType) : Option (Option Int × Option ChangeType) :=
  match previous.2, new.2 with
  | .departed, .joined => some (some new.1, some .modified)
  | .joined, .modified => some (some previous.1, some previous.2)
  | .joined, .departed => some (none, none)
  | .modified, .departed => some (some new.1, some new.2)
  | .modified, .modified => some (some previous.1, some previous.2)
  | .departed, .modified => some (some previous.1, some previous.2)
  | _, _ => none

/-- `_queue_change`: the new pending list, and whether `cb_modified` was called.
`previousIdx` counts from `offset`, but is popped from the whole list. -/
def queueChange (pending : List (Change U)) (change : Change U) (offset : Nat) :
    Except QueueError (List (Change U) × Bool) :=
  match previous change.unitName (pending.drop offset) with
  | none => .ok (pending ++ [change], true)
  | some (previousIdx, prev) =>
    match reduce (previousIdx, prev.changeType) (-1, change.changeType) with
    | none => .error (.unpackNone prev.changeType change.changeType)
    | some (changeIdx, changeType) =>
      if changeIdx = some (previousIdx : Int) then .ok (pending, false)
      else match changeType with
        | some t => .ok (pending.eraseIdx previousIdx ++ [{ change with changeType := t }], true)
        | none =>
          if change.changeType = .departed then
            .ok ((pending.take offset ++
              wipeMember change.unitName (pending.drop offset)).eraseIdx previousIdx, true)
          else .error .notRemoved

/-- The outcome of a merge for the unit: the old entry stays, the new one is appended with
a type, or both vanish. -/
inductive Outcome where
  | keep
  | replace (t : ChangeType)
  | cancel
  deriving DecidableEq

/-- The outcome that `_reduce` prescribes for a pair of types. -/
def prescribed (previous new : ChangeType) : Option Outcome :=
  match reduce (0, previous) (-1, new) with
  | none => none
  | some (some 0, _) => some .keep
  | some (_, some t) => some (.replace t)
  | some (_, none) => some .cancel

/-- What queueing a change may do to the entries open to merging: only the latest entry of
the change's own unit is kept, replaced or cancelled, every other entry stays in place. -/
inductive Merged (change : Change U) : List (Change U) → List (Change U) → Prop where
  | append (open_ : List (Change U)) (h : ∀ p ∈ open_, p.unitName ≠ change.unitName) :
      Merged change open_ (open_ ++ [change])
  | keep (before after : List (Change U)) (p : Change U) (hp : p.unitName = change.unitName)
      (ha : ∀ q ∈ after, q.unitName ≠ change.unitName)
      (h : prescribed p.changeType change.changeType = some .keep) :
      Merged change (before ++ p :: after) (before ++ p :: after)
  | replace (before after : List (Change U)) (p : Change U) (t : ChangeType)
      (hp : p.unitName = change.unitName) (ha : ∀ q ∈ after, q.unitName ≠ change.unitName)
      (h : prescribed p.changeType change.changeType = some (.replace t)) :
      Merged change (before ++ p :: after)
        (before ++ after ++ [{ change with changeType := t }])
  | cancel (before after : List (Change U)) (p : Change U) (hp : p.unitName = change.unitName)
      (ha : ∀ q ∈ after, q.unitName ≠ change.unitName)
      (h : prescribed p.changeType change.changeType = some .cancel) :
      Merged change (before ++ p :: after) (wipeMember change.unitName (before ++ after))

/-- The queueing law: the entries before `offset` are untouched and the rest is merged. -/
def QueueLaw (pending : List (Change U)) (change : Change U) (offset : Nat)
    (result : List (Change U)) : Prop :=
  ∃ rest, result = pending.take offset ++ rest ∧ Merged change (pending.drop offset) rest

/-- The law leaves every entry of another unit, in order, up to a wiped membership. -/
theorem Merged.others (change : Change U) (open_ rest : List (Change U))
    (h : Merged change open_ rest) :
    rest.filter (fun p => p.unitName ≠ change.unitName) =
        open_.filter (fun p => p.unitName ≠ change.unitName) ∨
      rest.filter (fun p => p.unitName ≠ change.unitName) =
        wipeMember change.unitName
          (open_.filter (fun p => p.unitName ≠ change.unitName)) := by
  cases h with
  | append open_ h => left; simp
  | keep before after p hp ha h => left; rfl
  | replace before after p t hp ha h => left; simp [hp]
  | cancel before after p hp ha h =>
    right
    simp [wipeMember, List.filter_map, hp, Function.comp_def]

/-- The position of the unit's latest entry. -/
def lastPosition (unitName : U) (pending : List (Change U)) : Nat :=
  pending.length - 1 - pending.reverse.findIdx fun p => p.unitName = unitName

/-- When the table removes an entry, popping the index the code pops gives the same queue
as popping the latest entry of the unit. -/
def MergesCleanly (pending : List (Change U)) (change : Change U) (offset : Nat) : Prop :=
  match previous change.unitName (pending.drop offset) with
  | none => True
  | some (previousIdx, prev) =>
    let latest := offset + lastPosition change.unitName (pending.drop offset)
    match prescribed prev.changeType change.changeType with
    | none => False
    | some .keep => True
    | some (.replace _) => EqualRun pending previousIdx latest
    | some .cancel =>
      EqualRun (pending.take offset ++ wipeMember change.unitName (pending.drop offset))
        previousIdx latest

theorem wipeMember_append (u : U) (xs ys : List (Change U)) :
    wipeMember u (xs ++ ys) = wipeMember u xs ++ wipeMember u ys := by
  simp [wipeMember]

theorem wipeMember_cons (u : U) (x : Change U) (xs : List (Change U)) :
    wipeMember u (x :: xs) = { x with members := x.members.erase u } :: wipeMember u xs := rfl

theorem wipeMember_length (u : U) (xs : List (Change U)) :
    (wipeMember u xs).length = xs.length := by
  simp [wipeMember]

theorem previous_none (u : U) (pending : List (Change U)) (h : previous u pending = none) :
    ∀ p ∈ pending, p.unitName ≠ u := by
  simpa [previous] using h

theorem previous_eq_none (u : U) (pending : List (Change U))
    (h : ∀ p ∈ pending, p.unitName ≠ u) : previous u pending = none := by
  simpa [previous] using h

/-- The entry `previous` finds is the unit's latest; the index it reports is that of the
first equal entry. -/
theorem previous_some (u : U) (pending : List (Change U)) (i : Nat) (p : Change U)
    (h : previous u pending = some (i, p)) :
    ∃ before after, pending = before ++ p :: after ∧ p.unitName = u ∧
      (∀ q ∈ after, q.unitName ≠ u) ∧ i = (before ++ p :: after).idxOf p := by
  simp only [previous, Option.map_eq_some_iff, Prod.mk.injEq] at h
  obtain ⟨a, hfind, hi, rfl⟩ := h
  obtain ⟨before, after, hsplit, hp, ha⟩ := find?_reverse_eq_some _ _ _ hfind
  refine ⟨before, after, hsplit, by simpa using hp, ?_, by rw [← hi, hsplit]⟩
  intro q hq
  simpa using ha q hq

theorem previous_split (u : U) (before after : List (Change U)) (p : Change U)
    (hp : p.unitName = u) (ha : ∀ q ∈ after, q.unitName ≠ u) :
    previous u (before ++ p :: after) = some ((before ++ p :: after).idxOf p, p) := by
  have hfind : after.reverse.find? (fun q => decide (q.unitName = u)) = none := by
    simpa using ha
  simp [previous, List.find?_append, hfind, hp]

theorem lastPosition_split (u : U) (before after : List (Change U)) (p : Change U)
    (hp : p.unitName = u) (ha : ∀ q ∈ after, q.unitName ≠ u) :
    lastPosition u (before ++ p :: after) = before.length := by
  have hidx : (after.reverse ++ p :: before.reverse).findIdx (fun q => decide (q.unitName = u)) =
      after.length := by
    have hno : after.reverse.findIdx (fun q => decide (q.unitName = u)) = after.length := by
      rw [List.findIdx_eq_length_of_false (by simpa using ha), List.length_reverse]
    rw [List.findIdx_append, hno]
    simp [hp, List.findIdx_cons]
  simp only [lastPosition, List.reverse_append, List.reverse_cons, List.append_assoc,
    List.singleton_append, hidx, List.length_append, List.length_cons]
  omega

/-- The merge of a queue whose latest entry of the unit is known. -/
theorem merged_split (change : Change U) (before after rest : List (Change U)) (p : Change U)
    (hp : p.unitName = change.unitName) (ha : ∀ q ∈ after, q.unitName ≠ change.unitName) :
    Merged change (before ++ p :: after) rest ↔
      match prescribed p.changeType change.changeType with
      | none => False
      | some .keep => rest = before ++ p :: after
      | some (.replace t) => rest = before ++ after ++ [{ change with changeType := t }]
      | some .cancel => rest = wipeMember change.unitName (before ++ after) := by
  constructor
  · intro h
    generalize hopen : before ++ p :: after = open_ at h
    have uniq (b a : List (Change U)) (q : Change U) (he : before ++ p :: after = b ++ q :: a)
        (hq : q.unitName = change.unitName) (haq : ∀ r ∈ a, r.unitName ≠ change.unitName) :
        before = b ∧ p = q ∧ after = a :=
      last_split_unique (fun r => r.unitName = change.unitName) _ _ _ _ _ _ he hp hq ha haq
    cases h with
    | append _ h => exact absurd hp (h p (by simp [← hopen]))
    | keep b a q hq haq h =>
      obtain ⟨rfl, rfl, rfl⟩ := uniq b a q hopen hq haq
      simp [h]
    | replace b a q t hq haq h =>
      obtain ⟨rfl, rfl, rfl⟩ := uniq b a q hopen hq haq
      simp [h]
    | cancel b a q hq haq h =>
      obtain ⟨rfl, rfl, rfl⟩ := uniq b a q hopen hq haq
      simp [h]
  · intro h
    split at h
    · exact h.elim
    · rw [h]; exact .keep before after p hp ha ‹_›
    · rw [h]; exact .replace before after p _ hp ha ‹_›
    · rw [h]; exact .cancel before after p hp ha ‹_›

/-- The six handled pairs and what the clocks of the code make of them. -/
theorem queueChange_split (change : Change U) (pending before after : List (Change U))
    (p : Change U) (offset : Nat) (hdrop : pending.drop offset = before ++ p :: after)
    (hp : p.unitName = change.unitName) (ha : ∀ q ∈ after, q.unitName ≠ change.unitName) :
    queueChange pending change offset =
      let i := (before ++ p :: after).idxOf p
      match prescribed p.changeType change.changeType with
      | none => .error (.unpackNone p.changeType change.changeType)
      | some .keep => .ok (pending, false)
      | some (.replace t) => .ok (pending.eraseIdx i ++ [{ change with changeType := t }], true)
      | some .cancel => .ok ((pending.take offset ++
          wipeMember change.unitName (before ++ p :: after)).eraseIdx i, true) := by
  have hneg (n : Nat) : ¬ (-1 : Int) = (n : Int) := by omega
  rw [queueChange, hdrop, previous_split _ _ _ _ hp ha]
  cases hprev : p.changeType <;> cases hnew : change.changeType <;>
    simp [reduce, prescribed, hneg, hprev]

theorem queueLaw_append (pending : List (Change U)) (change : Change U) (offset : Nat)
    (rest : List (Change U)) :
    QueueLaw pending change offset (pending.take offset ++ rest) ↔
      Merged change (pending.drop offset) rest := by
  constructor
  · rintro ⟨rest', heq, h⟩
    exact List.append_cancel_left heq ▸ h
  · exact fun h => ⟨rest, rfl, h⟩

theorem queueLaw_self (pending : List (Change U)) (change : Change U) (offset : Nat) :
    QueueLaw pending change offset pending ↔
      Merged change (pending.drop offset) (pending.drop offset) := by
  have h := queueLaw_append pending change offset (pending.drop offset)
  rwa [List.take_append_drop] at h

theorem mergesCleanly_split (change : Change U) (pending before after : List (Change U))
    (p : Change U) (offset : Nat) (hdrop : pending.drop offset = before ++ p :: after)
    (hp : p.unitName = change.unitName) (ha : ∀ q ∈ after, q.unitName ≠ change.unitName) :
    MergesCleanly pending change offset ↔
      let i := (before ++ p :: after).idxOf p
      match prescribed p.changeType change.changeType with
      | none => False
      | some .keep => True
      | some (.replace _) => EqualRun pending i (offset + before.length)
      | some .cancel =>
        EqualRun (pending.take offset ++ wipeMember change.unitName (before ++ p :: after)) i
          (offset + before.length) := by
  rw [MergesCleanly, hdrop, previous_split _ _ _ _ hp ha]
  simp only [lastPosition_split _ _ _ _ hp ha]

/-- Queueing a change obeys the law exactly when its merge is clean. -/
theorem queueChange_lawful_iff (pending : List (Change U)) (change : Change U) (offset : Nat) :
    (∃ result saved, queueChange pending change offset = .ok (result, saved) ∧
      QueueLaw pending change offset result) ↔ MergesCleanly pending change offset := by
  have hjoin := List.take_append_drop offset pending
  cases hprev : previous change.unitName (pending.drop offset) with
  | none =>
    have hlaw : QueueLaw pending change offset (pending ++ [change]) := by
      refine ⟨pending.drop offset ++ [change], ?_, .append _ (previous_none _ _ hprev)⟩
      rw [← List.append_assoc, hjoin]
    simp [queueChange, MergesCleanly, hprev, hlaw]
  | some found =>
    obtain ⟨i, p⟩ := found
    obtain ⟨before, after, hdrop, hp, ha, hidx⟩ := previous_some _ _ _ _ hprev
    have hle : i ≤ before.length := hidx ▸ idxOf_le_of_split before after p
    have hlen : (pending.take offset).length = offset := by
      have hpos : (pending.drop offset).length = before.length + (after.length + 1) := by
        rw [hdrop, List.length_append, List.length_cons]
      rw [List.length_drop] at hpos
      rw [List.length_take]
      omega
    have hm (rest : List (Change U)) := merged_split change before after rest p hp ha
    rw [queueChange_split _ _ _ _ _ _ hdrop hp ha, mergesCleanly_split _ _ _ _ _ _ hdrop hp ha,
      ← hidx]
    cases hout : prescribed p.changeType change.changeType with
    | none => simp
    | some out =>
      simp only [hout] at hm
      cases out with
      | keep => simp [queueLaw_self, hdrop, hm]
      | replace t =>
        have hrun := erase_run_iff (pending.take offset) before after p i hle
        rw [← hdrop, hjoin, hlen] at hrun
        simp only [← hrun]
        constructor
        · rintro ⟨result, saved, heq, rest, hresult, hmerged⟩
          simp only [Except.ok.injEq, Prod.mk.injEq] at heq
          rw [hdrop, hm] at hmerged
          rw [hresult, hmerged, ← List.append_assoc] at heq
          exact List.append_cancel_right heq.1
        · intro h
          refine ⟨_, _, rfl, before ++ after ++ [{ change with changeType := t }], ?_, ?_⟩
          · rw [h, List.append_assoc]
          · rw [hdrop, hm]
      | cancel =>
        have hrun := erase_run_iff (pending.take offset) (wipeMember change.unitName before)
          (wipeMember change.unitName after)
          { p with members := p.members.erase change.unitName } i
          (by rw [wipeMember_length]; exact hle)
        rw [← wipeMember_cons, ← wipeMember_append, ← wipeMember_append, hlen,
          wipeMember_length] at hrun
        simp only [← hrun]
        constructor
        · rintro ⟨result, saved, heq, rest, hresult, hmerged⟩
          simp only [Except.ok.injEq, Prod.mk.injEq] at heq
          rw [hdrop, hm] at hmerged
          rw [heq.1, hresult, hmerged]
        · intro h
          refine ⟨_, _, rfl, wipeMember change.unitName (before ++ after), h, ?_⟩
          rw [hdrop, hm]

/-- While the joined hook of unit 1 runs, the departure of unit 2 pops the running change. -/
theorem queueChange_pops_running_head :
    queueChange [⟨1, .joined, [1]⟩, ⟨2, .joined, [1, 2]⟩] ⟨2, .departed, [1]⟩ 1 =
        .ok ([⟨2, .joined, [1]⟩], true) ∧
      ¬ ∃ result saved,
        queueChange [⟨1, .joined, [1]⟩, ⟨2, .joined, [1, 2]⟩] ⟨2, .departed, [1]⟩ 1 =
            .ok (result, saved) ∧
          QueueLaw [⟨1, .joined, [1]⟩, ⟨2, .joined, [1, 2]⟩] ⟨2, .departed, [1]⟩ 1 result := by
  have hrun : queueChange [⟨1, .joined, [1]⟩, ⟨2, .joined, [1, 2]⟩] ⟨2, .departed, [1]⟩ 1 =
      .ok ([⟨2, .joined, [1]⟩], true) := by decide
  refine ⟨hrun, ?_⟩
  rintro ⟨result, saved, heq, rest, hresult, -⟩
  rw [hrun] at heq
  simp only [Except.ok.injEq, Prod.mk.injEq] at heq
  rw [← heq.1] at hresult
  simp at hresult

end Juju.Hooks

import Juju.State.YAMLCommits

namespace Juju.State
open Juju.Base

variable {C W K V : Type} [DecidableEq K] [DecidableEq V]

/-- The key has a pending edit. -/
def YAMLState.Edited (s : YAMLState K V) (k : K) : Prop :=
  ∃ pristine, s.pristineCache = some pristine ∧ s.mapping.lookup k ≠ pristine.lookup k

/-- Neither the object of `c` is called nor another write is named `w`. -/
def Quiet (c : C) (w : W) : YAMLAction C W K V → Prop
  | .readStart c' => c' ≠ c
  | .readFinish c' _ => c' ≠ c
  | .setItem c' _ _ => c' ≠ c
  | .delItem c' _ => c' ≠ c
  | .writeStart c' w' => c' ≠ c ∧ w' ≠ w
  | _ => True

variable [DecidableEq C] [DecidableEq W]

theorem quiet_client (c : C) (w : W) (m : YAMLNode C W K V) (a : YAMLAction C W K V)
    (ha : Quiet c w a) : (yamlStep m a).1.clients c = m.clients c := by
  have hset (m : YAMLNode C W K V) (c' : C) (s : YAMLState K V) (hc : c' ≠ c) :
      (m.setClient c' s).clients c = m.clients c := Function.update_of_ne (Ne.symm hc) _ _
  cases a with
  | readStart c' => exact hset m c' _ ha
  | readFinish c' required =>
    simp only [yamlStep, readFinish]
    split
    · rfl
    · split
      · exact hset m c' _ ha
      · split
        · exact hset m c' _ ha
        · exact hset m c' _ ha
  | setItem c' key value =>
    simp only [yamlStep, setItem]
    split
    · rfl
    · exact hset m c' _ ha
  | delItem c' key =>
    simp only [yamlStep, delItem]
    split
    · rfl
    · split
      · exact hset m c' _ ha
      · rfl
  | writeStart c' w' =>
    simp only [yamlStep, writeStart]
    split
    · rfl
    · rfl
    · exact hset m c' _ ha.1
  | attempt w' =>
    simp only [yamlStep, attemptWrite]
    split <;> rfl
  | commit w' =>
    simp only [yamlStep, commitWrite]
    split
    · rfl
    · split
      · rfl
      · split <;> rfl
  | fail w' =>
    simp only [yamlStep, failWrite]
    split <;> rfl

theorem quiet_run_client (c : C) (w : W) (m : YAMLNode C W K V)
    (actions : List (YAMLAction C W K V)) (ha : ∀ a ∈ actions, Quiet c w a) :
    (yamlRun m actions).clients c = m.clients c := by
  induction actions generalizing m with
  | nil => rfl
  | cons a actions ih =>
    have hrest := ih (yamlStep m a).1 (fun b hb => ha b (by simp [hb]))
    exact hrest.trans (quiet_client c w m a (ha a (by simp)))

/-- A write of `c` is under way, or over, with these two dictionaries. -/
structure Writing (c : C) (w : W) (s : YAMLState K V) (pristine : Dict K V)
    (m : YAMLNode C W K V) : Prop where
  client : m.clients c = s
  write : ∀ p, m.writes w = some p → p.client = c ∧ p.pristine = pristine ∧ p.cache = s.cache ∧
    ∀ a, p.attempt = some a → a.cache = s.mapping

section steps

variable (c : C) (w : W) (s : YAMLState K V) (pristine : Dict K V) (m : YAMLNode C W K V)
  (h : Writing c w s pristine m)
include h

omit [DecidableEq K] [DecidableEq V] [DecidableEq C] in
theorem setWrite_writing (w' : W) (q : Option (PendingWrite C K V))
    (hq : w' = w → ∀ p, q = some p → p.client = c ∧ p.pristine = pristine ∧ p.cache = s.cache ∧
      ∀ a, p.attempt = some a → a.cache = s.mapping) (p : PendingWrite C K V)
    (hp : (m.setWrite w' q).writes w = some p) :
    p.client = c ∧ p.pristine = pristine ∧ p.cache = s.cache ∧
      ∀ a, p.attempt = some a → a.cache = s.mapping := by
  simp only [YAMLNode.setWrite, Function.update_apply] at hp
  split at hp
  · exact hq ‹w = w'›.symm p hp
  · exact h.write p hp

theorem yamlStep_writing (a : YAMLAction C W K V) (ha : Quiet c w a) :
    Writing c w s pristine (yamlStep m a).1 := by
  refine ⟨(quiet_client c w m a ha).trans h.client, ?_⟩
  cases a with
  | readStart c' => exact h.write
  | readFinish c' required =>
    simp only [yamlStep, readFinish]
    split
    · exact h.write
    · split
      · exact h.write
      · split <;> exact h.write
  | setItem c' key value =>
    simp only [yamlStep, setItem]
    split <;> exact h.write
  | delItem c' key =>
    simp only [yamlStep, delItem]
    split
    · exact h.write
    · split <;> exact h.write
  | writeStart c' w' =>
    simp only [yamlStep, writeStart]
    split
    · exact h.write
    · exact h.write
    · exact setWrite_writing c w s pristine m h w' _ (fun he => absurd he ha.2)
  | attempt w' =>
    simp only [yamlStep, attemptWrite]
    split
    · exact h.write
    · rename_i p hp
      apply setWrite_writing c w s pristine m h
      intro he q hq
      cases hq
      obtain ⟨hclient, hpristine, hcache, -⟩ := h.write p (he ▸ hp)
      refine ⟨hclient, hpristine, hcache, ?_⟩
      intro a ha
      cases ha
      show (m.clients p.client).caches p.cache = s.mapping
      rw [hclient, h.client, hcache]
      rfl
  | commit w' =>
    simp only [yamlStep, commitWrite]
    split
    · exact h.write
    · rename_i p hp
      split
      · exact h.write
      · split
        · exact setWrite_writing c w s pristine m h w' none (fun _ q hq => by cases hq)
        · apply setWrite_writing c w s pristine m h
          intro he q hq
          cases hq
          obtain ⟨hclient, hpristine, hcache, -⟩ := h.write p (he ▸ hp)
          exact ⟨hclient, hpristine, hcache, fun a ha => by cases ha⟩
  | fail w' =>
    simp only [yamlStep, failWrite]
    split
    · exact h.write
    · exact setWrite_writing c w s pristine m h w' none (fun _ q hq => by cases hq)

theorem yamlRun_writing (actions : List (YAMLAction C W K V))
    (ha : ∀ a ∈ actions, Quiet c w a) : Writing c w s pristine (yamlRun m actions) := by
  induction actions generalizing m with
  | nil => exact h
  | cons a actions ih =>
    exact ih _ (yamlStep_writing c w s pristine m h a (ha a (by simp)))
      (fun b hb => ha b (by simp [hb]))

/-- What a write that returns has stored. -/
theorem commitWrite_stored (base : Dict K V) (hm : Traced base m)
    (changes : List (ChangeItem K V))
    (hstep : (yamlStep m (.commit w)).2 = some (.changes changes)) :
    ((yamlStep m (.commit w)).1.clients c) = s ∧
      ((yamlStep m (.commit w)).1.content.lookup ·) =
        threeWay (pristine.lookup ·) (s.mapping.lookup ·) (m.content.lookup ·) := by
  simp only [yamlStep, commitWrite] at hstep ⊢
  cases hw : m.writes w with
  | none => simp [hw] at hstep
  | some p =>
    simp only [hw] at hstep ⊢
    obtain ⟨-, hpristine, -, hcache⟩ := h.write p hw
    cases ha : p.attempt with
    | none => simp [ha] at hstep
    | some a =>
      simp only [ha] at hstep ⊢
      obtain ⟨hcomputed, -, hcurrent⟩ := hm.pending w p a hw ha
      by_cases hversion : a.version = m.version
      · simp only [hversion, if_true]
        refine ⟨h.client, ?_⟩
        have hcontent : a.content = (applyChanges p.pristine a.cache a.current).1 :=
          congrArg Prod.fst hcomputed
        show (a.content.lookup ·) = _
        rw [hcontent, applyChanges_lookup, hpristine, hcache a ha, hcurrent hversion]
      · simp [hversion] at hstep

end steps

section calls

variable (m : YAMLNode C W K V) (c : C) (w : W) (pristine : Dict K V)

omit [DecidableEq K] [DecidableEq V] in
/-- `write` takes the cache for pristine before it has stored anything. -/
theorem writeStart_writing (hp : (m.clients c).pristineCache = some pristine)
    (hw : m.writes w = none) :
    Writing c w { m.clients c with pristineCache := some (m.clients c).mapping } pristine
      (writeStart m c w).1 := by
  simp only [writeStart, hw, hp]
  refine ⟨?_, ?_⟩
  · simp [YAMLNode.setWrite, YAMLNode.setClient]
  · intro p hpending
    simp only [YAMLNode.setWrite, YAMLNode.setClient, Function.update_self,
      Option.some.injEq] at hpending
    subst hpending
    exact ⟨rfl, rfl, rfl, fun a ha => by cases ha⟩

/-- A write from its start on, whatever the other clients do meanwhile. -/
theorem write_writing (hp : (m.clients c).pristineCache = some pristine)
    (hw : m.writes w = none) (others : List (YAMLAction C W K V))
    (ho : ∀ a ∈ others, Quiet c w a) :
    Writing c w { m.clients c with pristineCache := some (m.clients c).mapping } pristine
      (yamlRun m (.writeStart c w :: others)) :=
  yamlRun_writing c w _ pristine _ (writeStart_writing m c w pristine hp hw) others ho

omit [DecidableEq V] [DecidableEq C] [DecidableEq W] in
/-- Once the cache has been taken for pristine no edit is pending. -/
theorem not_edited_self (s : YAMLState K V) (k : K) :
    ¬ YAMLState.Edited { s with pristineCache := some s.mapping } k := by
  intro ⟨p, hp, hk⟩
  cases hp
  exact hk rfl

/-- A write shows what it stored exactly when the node agreed with the cache wherever there was
no edit, and a failed write keeps the edits, for a later one to publish, exactly when there was
none. -/
theorem write_truthful_iff (node : Option (Dict K V)) (actions : List (YAMLAction C W K V))
    (others : List (YAMLAction C W K V)) (ho : ∀ a ∈ others, Quiet c w a)
    (hp : ((yamlRun (newYAMLNode node) actions).clients c).pristineCache = some pristine)
    (hw : (yamlRun (newYAMLNode node) actions).writes w = none) :
    let s := (yamlRun (newYAMLNode node) actions).clients c
    let m := yamlRun (newYAMLNode node) (actions ++ .writeStart c w :: others)
    (∀ changes, (yamlStep m (.commit w)).2 = some (.changes changes) →
      ((((yamlStep m (.commit w)).1.clients c).mapping.lookup ·) =
          ((yamlStep m (.commit w)).1.content.lookup ·) ↔
        ∀ k, s.mapping.lookup k = pristine.lookup k →
          m.content.lookup k = s.mapping.lookup k)) ∧
    ((∀ k, ((yamlStep m (.fail w)).1.clients c).Edited k ↔ s.Edited k) ↔
      ∀ k, s.mapping.lookup k = pristine.lookup k) ∧
    (∀ w' between after, (∀ a ∈ between, Quiet c w' a) → (∀ a ∈ after, Quiet c w' a) →
      (yamlRun (yamlStep m (.fail w)).1 between).writes w' = none →
      let m' := yamlRun (yamlStep m (.fail w)).1 (between ++ .writeStart c w' :: after)
      ∀ changes, (yamlStep m' (.commit w')).2 = some (.changes changes) →
        ((∀ k, s.Edited k →
            (yamlStep m' (.commit w')).1.content.lookup k = s.mapping.lookup k) ↔
          ∀ k, s.mapping.lookup k ≠ pristine.lookup k →
            m'.content.lookup k = s.mapping.lookup k)) := by
  intro s m
  have hrun (xs ys : List (YAMLAction C W K V)) (m : YAMLNode C W K V) :
      yamlRun m (xs ++ ys) = yamlRun (yamlRun m xs) ys := List.foldl_append
  have htraced (xs : List (YAMLAction C W K V)) :
      Traced (node.getD ∅) (yamlRun (newYAMLNode node) xs) :=
    yamlRun_traced _ _ (newYAMLNode_traced node) xs
  have hwriting : Writing c w { s with pristineCache := some s.mapping } pristine m := by
    rw [show m = yamlRun (yamlRun (newYAMLNode node) actions) (.writeStart c w :: others) from
      hrun _ _ _]
    exact write_writing _ c w pristine hp hw others ho
  have hedited (k : K) : s.Edited k ↔ s.mapping.lookup k ≠ pristine.lookup k := by
    constructor
    · intro ⟨p, hpristine, hk⟩
      obtain rfl : pristine = p := Option.some.inj (hp.symm.trans hpristine)
      exact hk
    · exact fun hk => ⟨pristine, hp, hk⟩
  have hfail : (yamlStep m (.fail w)).1.clients c =
      { s with pristineCache := some s.mapping } :=
    (yamlStep_writing c w _ pristine m hwriting (.fail w) trivial).client
  refine ⟨?_, ?_, ?_⟩
  · intro changes hstep
    obtain ⟨hclient, hstored⟩ :=
      commitWrite_stored c w _ pristine m hwriting _ (htraced _) changes hstep
    rw [hclient, hstored, eq_comm]
    exact threeWay_eq_local_iff _ _ _
  · rw [hfail]
    constructor
    · intro h k
      by_contra hk
      exact not_edited_self s k ((h k).mpr ((hedited k).mpr hk))
    · intro h k
      exact ⟨fun he => absurd he (not_edited_self s k), fun he => absurd (h k) ((hedited k).mp he)⟩
  · intro w' between after hb ha hw' m' changes hstep
    -- the object as the failed write has left it
    have hbetween : (yamlRun (yamlStep m (.fail w)).1 between).clients c =
        { s with pristineCache := some s.mapping } :=
      (quiet_run_client c w' _ between hb).trans hfail
    have hwriting' : Writing c w' { s with pristineCache := some s.mapping } s.mapping m' := by
      have hstart := write_writing (yamlRun (yamlStep m (.fail w)).1 between) c w' s.mapping
        (by rw [hbetween]) hw' after ha
      rw [hbetween] at hstart
      rw [show m' = yamlRun (yamlRun (yamlStep m (.fail w)).1 between) (.writeStart c w' :: after)
        from hrun _ _ _]
      exact hstart
    have hm' : Traced (node.getD ∅) m' :=
      yamlRun_traced _ _ (yamlStep_traced _ m (htraced _) (.fail w)) _
    have hstored := (commitWrite_stored c w' _ s.mapping m' hwriting' _ hm' changes hstep).2
    -- nothing is pending, so the later write stores the node's content as it finds it
    have hsame (k : K) : (yamlStep m' (.commit w')).1.content.lookup k = m'.content.lookup k :=
      congrFun (hstored.trans (threeWay_self _ _)) k
    constructor
    · intro h k hk
      rw [← hsame k]
      exact h k ((hedited k).mpr hk)
    · intro h k hk
      rw [hsame k]
      exact h k ((hedited k).mp hk)

end calls

/-- A write of one edit, over a node that has no content yet. -/
theorem write_truthful_iff_one_edit :
    let read : List (YAMLAction Nat Nat String Nat) :=
      [.readStart 0, .readFinish 0 false, .setItem 0 "a" 1]
    let s := (yamlRun (newYAMLNode none) read).clients 0
    let m := yamlRun (newYAMLNode none) (read ++ [.writeStart 0 0, .attempt 0])
    (∀ changes, (yamlStep m (.commit 0)).2 = some (.changes changes) →
      ((((yamlStep m (.commit 0)).1.clients 0).mapping.lookup ·) =
          ((yamlStep m (.commit 0)).1.content.lookup ·) ↔
        ∀ k, s.mapping.lookup k = (∅ : Dict String Nat).lookup k →
          m.content.lookup k = s.mapping.lookup k)) ∧
    ((∀ k, ((yamlStep m (.fail 0)).1.clients 0).Edited k ↔ s.Edited k) ↔
      ∀ k, s.mapping.lookup k = (∅ : Dict String Nat).lookup k) := by
  intro read s m
  have h := write_truthful_iff 0 0 ∅ none read [.attempt 0] (by simp [Quiet]) rfl rfl
  exact ⟨h.1, h.2.1⟩

/-- After its write an object does not show the key that another client has stored meanwhile,
and an edit whose write has failed is never stored. -/
theorem write_hides_and_forgets :
    (let m : YAMLNode Nat Nat String Nat := yamlRun (newYAMLNode none)
      [.readStart 0, .readFinish 0 false, .readStart 1, .readFinish 1 false, .setItem 0 "a" 1,
        .setItem 1 "b" 2, .writeStart 1 1, .attempt 1, .commit 1, .writeStart 0 0, .attempt 0]
    (yamlStep m (.commit 0)).2 = some (.changes [.added "a" 1]) ∧
      ((yamlStep m (.commit 0)).1.clients 0).mapping.lookup "b" = none ∧
      (yamlStep m (.commit 0)).1.content.lookup "b" = some 2) ∧
    (let m : YAMLNode Nat Nat String Nat := yamlRun (newYAMLNode none)
      [.readStart 0, .readFinish 0 false, .setItem 0 "a" 1, .writeStart 0 0, .fail 0,
        .writeStart 0 1, .attempt 1]
    (yamlStep m (.commit 1)).2 = some (.changes []) ∧
      ((yamlStep m (.commit 1)).1.clients 0).mapping.lookup "a" = some 1 ∧
      (yamlStep m (.commit 1)).1.content.lookup "a" = none) :=
  ⟨⟨rfl, rfl, rfl⟩, ⟨rfl, rfl, rfl⟩⟩

end Juju.State

import Juju.State.YAMLOrigins

namespace Juju.State
open Juju.Base

variable {C W K V : Type} [DecidableEq K] [DecidableEq V]

/-- A committed write stored the three-way merge, and lists what it changed. -/
structure Merges (e : Commit C K V) : Prop where
  content : ∀ k, e.attempt.content.lookup k =
    if e.attempt.cache.lookup k ≠ e.pristine.lookup k then e.attempt.cache.lookup k
    else e.attempt.current.lookup k
  nodup : (e.attempt.changes.map ChangeItem.key).Nodup
  item : ∀ item ∈ e.attempt.changes,
    changeItem e.pristine e.attempt.cache e.attempt.current item.key = some item
  entry : ∀ k, k ∈ e.attempt.changes.map ChangeItem.key ↔
    e.attempt.cache.lookup k ≠ e.pristine.lookup k ∧
      (e.attempt.cache.lookup k = none → k ∈ e.attempt.current)

/-- The commits follow one another on the node, from the content `base` to `content`. -/
def CommitChain (base : Dict K V) : List (Commit C K V) → Dict K V → Prop
  | [], content => content = base
  | e :: commits, content => e.attempt.current = base ∧
      CommitChain e.attempt.content commits content

omit [DecidableEq K] [DecidableEq V] in
theorem commitChain_snoc (base content : Dict K V) (commits : List (Commit C K V))
    (e : Commit C K V) (h : CommitChain base commits content)
    (he : e.attempt.current = content) :
    CommitChain base (commits ++ [e]) e.attempt.content := by
  induction commits generalizing base with
  | nil => exact ⟨he.trans h, rfl⟩
  | cons d commits ih => exact ⟨h.1, ih _ h.2⟩

/-- What later commits without an edit of the key leave of an update. -/
theorem commitChain_keeps (base content : Dict K V) (commits : List (Commit C K V)) (k : K)
    (h : CommitChain base commits content) (hm : ∀ e ∈ commits, Merges e)
    (hk : ∀ e ∈ commits, e.attempt.cache.lookup k = e.pristine.lookup k) :
    content.lookup k = base.lookup k := by
  induction commits generalizing base with
  | nil => rw [show content = base from h]
  | cons e commits ih =>
    have hrest := ih _ h.2 (fun d hd => hm d (by simp [hd])) (fun d hd => hk d (by simp [hd]))
    rw [hrest, (hm e (by simp)).content k, if_neg (not_not.mpr (hk e (by simp))), h.1]

omit [DecidableEq K] [DecidableEq V] in
theorem commitChain_split (base content : Dict K V) (before after : List (Commit C K V))
    (h : CommitChain base (before ++ after) content) :
    ∃ mid, CommitChain base before mid ∧ CommitChain mid after content := by
  induction before generalizing base with
  | nil => exact ⟨base, rfl, h⟩
  | cons e before ih =>
    obtain ⟨mid, hb, ha⟩ := ih _ h.2
    exact ⟨mid, ⟨h.1, hb⟩, ha⟩

/-- An attempt's result is what `apply_changes` makes of what it has read. -/
def Computed (pristine : Dict K V) (a : Attempt K V) : Prop :=
  (a.content, a.changes) = applyChanges pristine a.cache a.current

theorem computed_merges (e : Commit C K V) (h : Computed e.pristine e.attempt) : Merges e := by
  have hcontent := congrArg Prod.fst h
  have hchanges := congrArg Prod.snd h
  have hentries := applyChanges_entries e.pristine e.attempt.cache e.attempt.current
  rw [← hchanges] at hentries
  refine ⟨?_, hentries.1, hentries.2.1, hentries.2.2⟩
  intro k
  have hlookup := congrFun (applyChanges_lookup e.pristine e.attempt.cache e.attempt.current) k
  rw [← hcontent] at hlookup
  exact hlookup

/-- The commits and the attempts under way agree with the node. -/
structure Traced (base : Dict K V) (m : YAMLNode C W K V) : Prop where
  chain : CommitChain base m.commits m.content
  computed : ∀ e ∈ m.commits, Computed e.pristine e.attempt
  pending : ∀ w p a, m.writes w = some p → p.attempt = some a →
    Computed p.pristine a ∧ a.version ≤ m.version ∧
      (a.version = m.version → a.current = m.content)

section runs

variable [DecidableEq W]

omit [DecidableEq K] [DecidableEq V] in
/-- Replacing a write by one that has not read the node yet. -/
theorem pending_update (writes : W → Option (PendingWrite C K V)) (w : W)
    (q : Option (PendingWrite C K V)) (P : PendingWrite C K V → Attempt K V → Prop)
    (h : ∀ w p a, writes w = some p → p.attempt = some a → P p a)
    (hq : ∀ p a, q = some p → p.attempt = some a → P p a) :
    ∀ w' p a, Function.update writes w q w' = some p → p.attempt = some a → P p a := by
  intro w' p a hw ha
  rw [Function.update_apply] at hw
  split at hw
  · exact hq p a hw ha
  · exact h w' p a hw ha

omit [DecidableEq W] in
theorem newYAMLNode_traced (node : Option (Dict K V)) :
    Traced (node.getD ∅) (newYAMLNode node : YAMLNode C W K V) :=
  ⟨rfl, by simp [newYAMLNode], by simp [newYAMLNode]⟩

variable (base : Dict K V) (m : YAMLNode C W K V) (h : Traced base m)
include h

omit [DecidableEq W] in
theorem setClient_traced [DecidableEq C] (c : C) (s : YAMLState K V) : Traced base (m.setClient c s) :=
  ⟨h.chain, h.computed, h.pending⟩

theorem setWrite_traced (w : W) (p : Option (PendingWrite C K V))
    (hp : ∀ q a, p = some q → q.attempt = some a → Computed q.pristine a ∧
      a.version ≤ m.version ∧ (a.version = m.version → a.current = m.content)) :
    Traced base (m.setWrite w p) :=
  ⟨h.chain, h.computed, pending_update m.writes w p _ h.pending hp⟩

theorem attemptWrite_traced (w : W) : Traced base (attemptWrite m w) := by
  unfold attemptWrite
  split
  · exact h
  · apply setWrite_traced base m h
    intro q a hq ha
    cases hq
    cases ha
    exact ⟨rfl, le_rfl, fun _ => rfl⟩

theorem commitWrite_traced (w : W) : Traced base (commitWrite m w).1 := by
  unfold commitWrite
  split
  · exact h
  · rename_i p hw
    split
    · exact h
    · rename_i a ha
      obtain ⟨hcomputed, hle, hcurrent⟩ := h.pending w p a hw ha
      split
      · rename_i hversion
        refine ⟨commitChain_snoc _ _ _ _ h.chain (hcurrent hversion), ?_, ?_⟩
        · intro e he
          rcases List.mem_append.mp he with he | he
          · exact h.computed e he
          · obtain rfl := List.mem_singleton.mp he
            exact hcomputed
        · apply pending_update
          · intro w' q b hq hb
            obtain ⟨hc, hv, -⟩ := h.pending w' q b hq hb
            have hlt : b.version ≠ m.version + 1 := by omega
            exact ⟨hc, Nat.le_succ_of_le hv, fun he => absurd he hlt⟩
          · intro q b hq
            cases hq
      · apply setWrite_traced base m h
        intro q b hq hb
        cases hq
        cases hb

variable [DecidableEq C]

theorem yamlStep_traced (a : YAMLAction C W K V) : Traced base (yamlStep m a).1 := by
  have hedited (c : C) (he : a.edited = some c) : Traced base (yamlStep m a).1 := by
    obtain ⟨s, hs⟩ := yamlStep_edited m c a he
    rw [hs]
    exact setClient_traced base m h c s
  cases a with
  | readStart c => exact hedited c rfl
  | readFinish c required => exact hedited c rfl
  | setItem c key value => exact hedited c rfl
  | delItem c key => exact hedited c rfl
  | writeStart c w =>
    simp only [yamlStep, writeStart]
    split
    · exact h
    · exact h
    · apply setWrite_traced base _ (setClient_traced base m h c _)
      intro q a hq ha
      cases hq
      cases ha
  | attempt w => exact attemptWrite_traced base m h w
  | commit w => exact commitWrite_traced base m h w
  | fail w =>
    simp only [yamlStep, failWrite]
    split
    · exact h
    · apply setWrite_traced base m h w none
      intro q a hq
      cases hq

theorem yamlRun_traced (actions : List (YAMLAction C W K V)) :
    Traced base (yamlRun m actions) := by
  induction actions generalizing m with
  | nil => exact h
  | cons a actions ih => exact ih _ (yamlStep_traced base m h a)

end runs

end Juju.State

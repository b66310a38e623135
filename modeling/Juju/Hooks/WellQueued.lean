import Juju.Hooks.HookQueue
import Mathlib.Data.Finset.Basic

namespace Juju.Hooks
open Juju.Base

variable {U : Type} [DecidableEq U]

/-- The units in the relation once a change has been executed. -/
def Change.settle (c : Change U) (live : Finset U) : Finset U :=
  match c.changeType with
  | .joined => insert c.unitName live
  | .departed => live.erase c.unitName
  | .modified => live

/-- A change a charm may see while the units of `live` are in the relation. -/
def Fits (live : Finset U) (c : Change U) : Prop :=
  (c.changeType = .joined ↔ c.unitName ∉ live) ∧ ∀ w ∈ c.members, w = c.unitName ∨ w ∈ live

/-- Executing the queue in order leads from `live` to `context`, each change fitting. -/
def WellQueued (live : Finset U) : List (Change U) → Finset U → Prop
  | [], context => live = context
  | c :: rest, context => Fits live c ∧ WellQueued (c.settle live) rest context

theorem settle_mem_of_ne (c : Change U) (live : Finset U) (u : U) (h : c.unitName ≠ u) :
    u ∈ c.settle live ↔ u ∈ live := by
  unfold Change.settle
  split <;> simp [Ne.symm h]

theorem settle_insert (c : Change U) (live : Finset U) (u : U) (h : c.unitName ≠ u) :
    c.settle (insert u live) = insert u (c.settle live) := by
  unfold Change.settle
  split
  · exact Finset.insert_comm _ _ _
  · rw [Finset.erase_insert_of_ne (Ne.symm h)]
  · rfl

theorem settle_erase (c : Change U) (live : Finset U) (u : U) (ms : List U)
    (h : c.unitName ≠ u) :
    Change.settle { c with members := ms } (live.erase u) = (c.settle live).erase u := by
  cases ht : c.changeType with
  | joined =>
    simp only [Change.settle, ht]
    rw [Finset.erase_insert_of_ne h]
  | departed =>
    simp only [Change.settle, ht]
    exact Finset.erase_right_comm
  | modified => simp only [Change.settle, ht]

theorem wellQueued_append (live context : Finset U) (xs ys : List (Change U)) :
    WellQueued live (xs ++ ys) context ↔
      ∃ mid, WellQueued live xs mid ∧ WellQueued mid ys context := by
  induction xs generalizing live with
  | nil => simp [WellQueued]
  | cons x xs ih =>
    simp only [List.cons_append, WellQueued, ih]
    constructor
    · intro ⟨hx, mid, h₁, h₂⟩
      exact ⟨mid, ⟨hx, h₁⟩, h₂⟩
    · intro ⟨mid, ⟨hx, h₁⟩, h₂⟩
      exact ⟨hx, mid, h₁, h₂⟩

theorem wellQueued_snoc (live context : Finset U) (xs : List (Change U)) (c : Change U)
    (h : WellQueued live xs context) (hc : Fits context c) :
    WellQueued live (xs ++ [c]) (c.settle context) :=
  (wellQueued_append live _ xs [c]).mpr ⟨context, h, hc, rfl⟩

/-- A unit with nothing but modified entries in the queue stays where it is. -/
theorem wellQueued_mem_of_modified (live context : Finset U) (xs : List (Change U)) (u : U)
    (h : WellQueued live xs context)
    (hu : ∀ c ∈ xs, c.unitName = u → c.changeType = .modified) : u ∈ context ↔ u ∈ live := by
  induction xs generalizing live with
  | nil => rw [show live = context from h]
  | cons c xs ih =>
    rw [ih _ h.2 (fun d hd => hu d (by simp [hd]))]
    by_cases hc : c.unitName = u
    · simp only [Change.settle, hu c (by simp) hc]
    · exact settle_mem_of_ne c live u hc

theorem wellQueued_mem (live context : Finset U) (xs : List (Change U)) (u : U)
    (h : WellQueued live xs context) (hu : ∀ c ∈ xs, c.unitName ≠ u) :
    u ∈ context ↔ u ∈ live :=
  wellQueued_mem_of_modified live context xs u h (fun c hc he => absurd he (hu c hc))

/-- A modified entry may be dropped. -/
theorem wellQueued_drop_modified (live context : Finset U) (xs : List (Change U))
    (p : Change U) (h : WellQueued live xs context) (hp : p.changeType = .modified) :
    WellQueued live (xs.erase p) context := by
  induction xs generalizing live with
  | nil => exact h
  | cons c xs ih =>
    by_cases hc : c = p
    · have hsettle : c.settle live = live := by simp only [Change.settle, hc, hp]
      rw [hc, List.erase_cons_head]
      exact hsettle ▸ h.2
    · rw [List.erase_cons_tail (by simpa using hc)]
      exact ⟨h.1, ih _ h.2⟩

theorem wellQueued_insert (live context : Finset U) (xs : List (Change U)) (u : U)
    (h : WellQueued live xs context) (hu : ∀ c ∈ xs, c.unitName ≠ u) :
    WellQueued (insert u live) xs (insert u context) := by
  induction xs generalizing live with
  | nil => rw [show live = context from h]; rfl
  | cons c xs ih =>
    have hne : c.unitName ≠ u := hu c (by simp)
    have hrest := ih _ h.2 (fun d hd => hu d (by simp [hd]))
    refine ⟨⟨?_, ?_⟩, by rw [settle_insert _ _ _ hne]; exact hrest⟩
    · rw [h.1.1, Finset.mem_insert]
      tauto
    · intro w hw
      have hmem := h.1.2 w hw
      rw [Finset.mem_insert]
      tauto

theorem wellQueued_wipe (live context : Finset U) (xs : List (Change U)) (u : U)
    (h : WellQueued live xs context) : WellQueued live (wipeMember u xs) context := by
  induction xs generalizing live with
  | nil => exact h
  | cons c xs ih =>
    exact ⟨⟨h.1.1, fun w hw => h.1.2 w (List.mem_of_mem_erase hw)⟩, ih _ h.2⟩

/-- The members lists of a queue have no repetitions. -/
def NodupMembers (xs : List (Change U)) : Prop := ∀ c ∈ xs, c.members.Nodup

theorem nodupMembers_wipe (xs : List (Change U)) (u : U) (h : NodupMembers xs) :
    NodupMembers (wipeMember u xs) := by
  intro c hc
  obtain ⟨d, hd, rfl⟩ := List.mem_map.mp hc
  exact (h d hd).erase u

theorem wellQueued_erase (live context : Finset U) (xs : List (Change U)) (u : U)
    (h : WellQueued live xs context) (hu : ∀ c ∈ xs, c.unitName ≠ u) (hn : NodupMembers xs) :
    WellQueued (live.erase u) (wipeMember u xs) (context.erase u) := by
  induction xs generalizing live with
  | nil => rw [show live = context from h]; rfl
  | cons c xs ih =>
    have hne : c.unitName ≠ u := hu c (by simp)
    have hrest := ih _ h.2 (fun d hd => hu d (by simp [hd])) (fun d hd => hn d (by simp [hd]))
    refine ⟨⟨?_, ?_⟩, by rw [settle_erase _ _ _ _ hne]; exact hrest⟩
    · rw [h.1.1, Finset.mem_erase]
      tauto
    · intro w hw
      obtain ⟨hwu, hw⟩ := (hn c (by simp)).mem_erase_iff.mp hw
      have hmem := h.1.2 w hw
      rw [Finset.mem_erase]
      tauto

/-- A unit that comes in has a joined entry. -/
theorem wellQueued_joined (live context : Finset U) (xs : List (Change U)) (u : U)
    (h : WellQueued live xs context) (hu : u ∈ context) (hl : u ∉ live) :
    ∃ c ∈ xs, c.unitName = u ∧ c.changeType = .joined := by
  induction xs generalizing live with
  | nil => exact absurd ((show live = context from h) ▸ hu) hl
  | cons c xs ih =>
    by_cases hc : c.unitName = u
    · exact ⟨c, by simp, hc, h.1.1.mpr (hc ▸ hl)⟩
    · obtain ⟨d, hd, hdu, hdt⟩ := ih _ h.2 ((settle_mem_of_ne c live u hc).not.mpr hl)
      exact ⟨d, by simp [hd], hdu, hdt⟩

/-- A unit that goes out has a departed entry. -/
theorem wellQueued_departed (live context : Finset U) (xs : List (Change U)) (u : U)
    (h : WellQueued live xs context) (hu : u ∉ context) (hl : u ∈ live) :
    ∃ c ∈ xs, c.unitName = u ∧ c.changeType = .departed := by
  induction xs generalizing live with
  | nil => exact absurd ((show live = context from h) ▸ hl) hu
  | cons c xs ih =>
    have hnext : u ∈ c.settle live ∨ c.unitName = u ∧ c.changeType = .departed := by
      cases ht : c.changeType with
      | joined => simp [Change.settle, ht, hl]
      | modified => simp [Change.settle, ht, hl]
      | departed =>
        by_cases hc : c.unitName = u
        · exact Or.inr ⟨hc, rfl⟩
        · simp [Change.settle, ht, hl, Ne.symm hc]
    rcases hnext with hin | ⟨hc, ht⟩
    · obtain ⟨d, hd, hdu, hdt⟩ := ih _ h.2 hin
      exact ⟨d, by simp [hd], hdu, hdt⟩
    · exact ⟨c, by simp, hc, ht⟩

/-- Where the unit's latest entry leaves the unit. -/
theorem wellQueued_latest (live context : Finset U) (before after : List (Change U))
    (p : Change U) (h : WellQueued live (before ++ p :: after) context)
    (ha : ∀ q ∈ after, q.unitName ≠ p.unitName) :
    p.unitName ∈ context ↔ p.changeType ≠ .departed := by
  obtain ⟨mid, -, hfits, hafter⟩ := (wellQueued_append live context before _).mp h
  rw [wellQueued_mem _ _ _ _ hafter ha]
  cases hp : p.changeType <;> simp_all [Change.settle, Fits]

end Juju.Hooks

import Mathlib.Data.List.AList

namespace Juju.Base

/-- A dictionary with keys `K` and values `V`. -/
abbrev Dict (K V : Type) := AList fun _ : K => V

namespace Dict

variable {K V : Type} [DecidableEq K]

theorem lookup_insert (d : Dict K V) (k k' : K) (v : V) :
    (AList.insert k v d).lookup k' = if k' = k then some v else d.lookup k' := by
  by_cases h : k' = k
  · subst h
    rw [if_pos rfl, AList.lookup_insert]
  · rw [if_neg h, AList.lookup_insert_ne h]

theorem lookup_erase (d : Dict K V) (k k' : K) :
    (AList.erase k d).lookup k' = if k' = k then none else d.lookup k' := by
  by_cases h : k' = k
  · subst h
    rw [if_pos rfl, AList.lookup_erase]
  · rw [if_neg h, AList.lookup_erase_ne h]

theorem mem_iff_lookup (d : Dict K V) (k : K) : k ∈ d ↔ ∃ v, d.lookup k = some v := by
  rw [← AList.lookup_isSome, Option.isSome_iff_exists]

theorem mem_entries_iff (d : Dict K V) (e : Sigma fun _ : K => V) :
    e ∈ d.entries ↔ d.lookup e.1 = some e.2 :=
  AList.mem_lookup_iff.symm

theorem mem_foldl_insert (keys : List K) (v : V) (d : Dict K V) (k : K) :
    k ∈ keys.foldl (fun d k => d.insert k v) d ↔ k ∈ keys ∨ k ∈ d := by
  induction keys generalizing d with
  | nil => simp
  | cons a keys ih =>
    rw [List.foldl_cons, ih, AList.mem_insert, List.mem_cons]
    tauto

theorem mem_foldl_erase (keys : List K) (d : Dict K V) (k : K) :
    k ∈ keys.foldl (fun d k => d.erase k) d ↔ k ∉ keys ∧ k ∈ d := by
  induction keys generalizing d with
  | nil => simp
  | cons a keys ih =>
    rw [List.foldl_cons, ih, AList.mem_erase, List.mem_cons]
    tauto

theorem lookup_foldl_insert (keys : List K) (v : V) (d : Dict K V) (k : K) :
    (keys.foldl (fun d k => d.insert k v) d).lookup k = if k ∈ keys then some v else d.lookup k := by
  induction keys generalizing d with
  | nil => simp
  | cons a keys ih =>
    rw [List.foldl_cons, ih, lookup_insert]
    by_cases hmem : k ∈ keys <;> by_cases ha : k = a <;> simp [hmem, ha]

theorem lookup_foldl_erase (keys : List K) (d : Dict K V) (k : K) :
    (keys.foldl (fun d k => d.erase k) d).lookup k = if k ∈ keys then none else d.lookup k := by
  induction keys generalizing d with
  | nil => simp
  | cons a keys ih =>
    rw [List.foldl_cons, ih, lookup_erase]
    by_cases hmem : k ∈ keys <;> by_cases ha : k = a <;> simp [hmem, ha]

/-- `d.update(other)`. -/
def update (d other : Dict K V) : Dict K V := other ∪ d

theorem lookup_update (d other : Dict K V) (k : K) :
    (d.update other).lookup k = (other.lookup k).or (d.lookup k) := by
  unfold update
  cases hother : other.lookup k with
  | some v =>
    have hmem : k ∈ other := (mem_iff_lookup other k).mpr ⟨v, hother⟩
    rw [AList.lookup_union_left hmem, hother, Option.some_or]
  | none =>
    have hnot : k ∉ other := by
      rw [mem_iff_lookup, hother]
      nofun
    rw [AList.lookup_union_right hnot, Option.none_or]

/-- Of dictionaries laid over each other, the last to have a key has the say. -/
theorem lookup_foldl_update (ds : List (Dict K V)) (d : Dict K V) (k : K) :
    (ds.foldl update d).lookup k = (ds.reverse.findSome? fun d => d.lookup k).or (d.lookup k) := by
  induction ds generalizing d with
  | nil => simp
  | cons a ds ih =>
    rw [List.foldl_cons, ih, lookup_update, List.reverse_cons, List.findSome?_append,
      Option.or_assoc]
    simp

end Dict

end Juju.Base

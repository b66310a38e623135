import Juju.State.YAMLState

namespace Juju.State
open Juju.Base

variable {K V : Type} [DecidableEq K] [DecidableEq V]

/-- The entry of the change list for a key, if it has one. -/
def changeItem (pristine cache current : Dict K V) (key : K) : Option (ChangeItem K V) :=
  match pristine.lookup key, cache.lookup key with
  | some old, some new => if old = new then none else some (.modified key old new)
  | none, some new => some (.added key new)
  | some old, none => if key ∈ current then some (.deleted key old) else none
  | none, none => none

theorem applyChange_lookup (pristine cache : Dict K V) (acc : Dict K V × List (ChangeItem K V))
    (key k : K) : (applyChange pristine cache acc key).1.lookup k =
      if k = key then threeWay (pristine.lookup ·) (cache.lookup ·) (acc.1.lookup ·) k
      else acc.1.lookup k := by
  by_cases hk : k = key
  · subst hk
    rw [if_pos rfl]
    cases hp : pristine.lookup k with
    | none =>
      cases hc : cache.lookup k with
      | none => simp [applyChange, threeWay, hp, hc]
      | some new => simp [applyChange, threeWay, hp, hc]
    | some old =>
      cases hc : cache.lookup k with
      | none =>
        by_cases hin : k ∈ acc.1
        · simp [applyChange, threeWay, hp, hc, hin]
        · simp [applyChange, threeWay, hp, hc, hin, AList.lookup_eq_none.mpr hin]
      | some new =>
        by_cases he : old = new
        · simp [applyChange, threeWay, hp, hc, he]
        · simp [applyChange, threeWay, hp, hc, he, Ne.symm he]
  · rw [if_neg hk]
    unfold applyChange
    split
    · split
      · rfl
      · rw [Dict.lookup_insert, if_neg hk]
    · rw [Dict.lookup_insert, if_neg hk]
    · split
      · rw [Dict.lookup_erase, if_neg hk]
      · rfl
    · rfl

theorem foldl_applyChange_lookup (pristine cache : Dict K V) (keys : List K)
    (acc : Dict K V × List (ChangeItem K V)) (k : K) :
    (keys.foldl (applyChange pristine cache) acc).1.lookup k =
      if k ∈ keys then threeWay (pristine.lookup ·) (cache.lookup ·) (acc.1.lookup ·) k
      else acc.1.lookup k := by
  induction keys generalizing acc with
  | nil => simp
  | cons key keys ih =>
    rw [List.foldl_cons, ih]
    by_cases hk : k = key
    · subst hk
      have hstep := applyChange_lookup pristine cache acc k k
      rw [if_pos rfl] at hstep
      by_cases he : cache.lookup k = pristine.lookup k <;>
        simp [threeWay, hstep, he]
    · have hstep := applyChange_lookup pristine cache acc key k
      rw [if_neg hk] at hstep
      simp [threeWay, hstep, hk]

/-- The stored content is the three-way merge of the three versions of the map. -/
theorem applyChanges_lookup (pristine cache current : Dict K V) :
    ((applyChanges pristine cache current).1.lookup ·) =
      threeWay (pristine.lookup ·) (cache.lookup ·) (current.lookup ·) := by
  funext k
  show (applyChanges pristine cache current).1.lookup k = _
  rw [applyChanges, foldl_applyChange_lookup]
  by_cases hk : k ∈ pristine.keys ∪ cache.keys
  · rw [if_pos hk]
  · rw [if_neg hk]
    have hnot : k ∉ pristine.keys ∧ k ∉ cache.keys := by
      simpa [List.mem_union_iff] using hk
    have hp : pristine.lookup k = none := AList.lookup_eq_none.mpr hnot.1
    have hc : cache.lookup k = none := AList.lookup_eq_none.mpr hnot.2
    simp [threeWay, hp, hc]

theorem applyChange_changes (pristine cache : Dict K V)
    (acc : Dict K V × List (ChangeItem K V)) (key : K) :
    (applyChange pristine cache acc key).2 =
      acc.2 ++ (changeItem pristine cache acc.1 key).toList := by
  cases hp : pristine.lookup key with
  | none => cases hc : cache.lookup key <;> simp [applyChange, changeItem, hp, hc]
  | some old =>
    cases hc : cache.lookup key with
    | none => by_cases hin : key ∈ acc.1 <;> simp [applyChange, changeItem, hp, hc, hin]
    | some new => by_cases he : old = new <;> simp [applyChange, changeItem, hp, hc, he]

theorem changeItem_congr (pristine cache current current' : Dict K V) (key : K)
    (h : current'.lookup key = current.lookup key) :
    changeItem pristine cache current' key = changeItem pristine cache current key := by
  have hmem : key ∈ current' ↔ key ∈ current := by
    rw [Dict.mem_iff_lookup, Dict.mem_iff_lookup, h]
  simp only [changeItem, hmem]

theorem foldl_applyChange_changes (pristine cache : Dict K V) (keys : List K)
    (hnodup : keys.Nodup) (acc : Dict K V × List (ChangeItem K V)) :
    (keys.foldl (applyChange pristine cache) acc).2 =
      acc.2 ++ keys.filterMap (changeItem pristine cache acc.1) := by
  induction keys generalizing acc with
  | nil => simp
  | cons key keys ih =>
    rw [List.nodup_cons] at hnodup
    have hrest : keys.filterMap (changeItem pristine cache (applyChange pristine cache acc key).1)
        = keys.filterMap (changeItem pristine cache acc.1) := by
      apply List.filterMap_congr
      intro k hk
      apply changeItem_congr
      rw [applyChange_lookup, if_neg]
      intro he
      exact hnodup.1 (he ▸ hk)
    rw [List.foldl_cons, ih hnodup.2, hrest, applyChange_changes, List.append_assoc,
      List.filterMap_cons]
    cases changeItem pristine cache acc.1 key <;> rfl

theorem applyChanges_changes (pristine cache current : Dict K V) :
    (applyChanges pristine cache current).2 =
      (pristine.keys ∪ cache.keys).filterMap (changeItem pristine cache current) := by
  have hnodup : (pristine.keys ∪ cache.keys).Nodup := cache.keys_nodup.union _
  rw [applyChanges, foldl_applyChange_changes pristine cache _ hnodup, List.nil_append]

theorem changeItem_key (pristine cache current : Dict K V) (key : K) (item : ChangeItem K V)
    (h : changeItem pristine cache current key = some item) : item.key = key := by
  unfold changeItem at h
  split at h
  · split at h
    · cases h
    · cases h
      rfl
  · cases h
    rfl
  · split at h
    · cases h
      rfl
    · cases h
  · cases h

/-- A key has an entry when it was edited, unless it was deleted and is gone already. -/
theorem changeItem_isSome (pristine cache current : Dict K V) (key : K) :
    (changeItem pristine cache current key).isSome ↔ cache.lookup key ≠ pristine.lookup key ∧
      (cache.lookup key = none → key ∈ current) := by
  unfold changeItem
  split
  · rename_i old new hp hc
    by_cases he : old = new
    · simp [hp, hc, he]
    · simp [hp, hc, he, Ne.symm he]
  · rename_i new hp hc
    simp [hp, hc]
  · rename_i old hp hc
    by_cases hin : key ∈ current <;> simp [hp, hc, hin]
  · rename_i hp hc
    simp [hp, hc]

/-- The change list has one entry for each key that was edited, the deletions of keys that are
gone already apart. -/
theorem applyChanges_entries (pristine cache current : Dict K V) :
    ((applyChanges pristine cache current).2.map ChangeItem.key).Nodup ∧
      (∀ item ∈ (applyChanges pristine cache current).2,
        changeItem pristine cache current item.key = some item) ∧
      ∀ key, key ∈ (applyChanges pristine cache current).2.map ChangeItem.key ↔
        cache.lookup key ≠ pristine.lookup key ∧ (cache.lookup key = none → key ∈ current) := by
  have hnodup : (pristine.keys ∪ cache.keys).Nodup := cache.keys_nodup.union _
  have hitem (item : ChangeItem K V) (h : item ∈ (applyChanges pristine cache current).2) :
      changeItem pristine cache current item.key = some item := by
    rw [applyChanges_changes] at h
    obtain ⟨key, -, hkey⟩ := List.mem_filterMap.mp h
    rw [changeItem_key _ _ _ key item hkey]
    exact hkey
  refine ⟨?_, hitem, ?_⟩
  · rw [applyChanges_changes, List.map_filterMap]
    apply hnodup.filterMap
    intro a b k ha hb
    obtain ⟨x, hx, rfl⟩ := Option.map_eq_some_iff.mp ha
    obtain ⟨y, hy, hxy⟩ := Option.map_eq_some_iff.mp hb
    rw [← changeItem_key _ _ _ a x hx, ← changeItem_key _ _ _ b y hy, hxy]
  · intro key
    rw [← changeItem_isSome]
    constructor
    · intro h
      obtain ⟨item, hmem, rfl⟩ := List.mem_map.mp h
      rw [hitem item hmem]
      rfl
    · intro h
      obtain ⟨item, hsome⟩ := Option.isSome_iff_exists.mp h
      have hkey := changeItem_key _ _ _ key item hsome
      refine List.mem_map.mpr ⟨item, ?_, hkey⟩
      rw [applyChanges_changes, List.mem_filterMap]
      refine ⟨key, ?_, hsome⟩
      have hedited := ((changeItem_isSome pristine cache current key).mp h).1
      apply List.mem_union_iff.mpr
      by_contra hnot
      rw [not_or] at hnot
      exact hedited ((AList.lookup_eq_none.mpr hnot.2).trans
        (AList.lookup_eq_none.mpr hnot.1).symm)

end Juju.State

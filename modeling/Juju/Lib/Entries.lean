import Mathlib.Data.List.Forall2

namespace Juju.Lib.Entries

section entries

variable {K V : Type} [DecidableEq K]

/-- The entries with the one at `k` put in the place of what was there. -/
def assign (k : K) (v : V) (d : List (K × V)) : List (K × V) :=
  (k, v) :: d.filter fun e => e.1 ≠ k

def without (k : K) (d : List (K × V)) : List (K × V) := d.filter fun e => e.1 ≠ k

variable (d : List (K × V)) (k k' : K) (v : V)

theorem lookup_cons (e : K × V) : (e :: d).lookup k = if k = e.1 then some e.2 else d.lookup k := by
  rw [List.lookup_cons]
  by_cases h : k = e.1
  · simp [h]
  · rw [if_neg h, beq_false_of_ne h]

theorem lookup_filter (p : K → Bool) :
    (d.filter fun e => p e.1).lookup k = if p k then d.lookup k else none := by
  induction d with
  | nil => simp
  | cons e d ih =>
    by_cases he : p e.1
    · rw [List.filter_cons_of_pos (by simpa using he), lookup_cons, lookup_cons, ih]
      by_cases hk : k = e.1
      · simp [hk, he]
      · simp [hk]
    · rw [List.filter_cons_of_neg (by simpa using he), lookup_cons, ih]
      by_cases hk : k = e.1
      · simp [hk, he]
      · simp [hk]

theorem lookup_without : (without k' d).lookup k = if k = k' then none else d.lookup k := by
  rw [without, lookup_filter d k fun x => decide (x ≠ k')]
  by_cases h : k = k' <;> simp [h]

theorem lookup_assign :
    (assign k' v d).lookup k = if k = k' then some v else d.lookup k := by
  rw [assign, lookup_cons, ← without, lookup_without]
  by_cases h : k = k' <;> simp [h]

theorem mem_without (e : K × V) : e ∈ without k d ↔ e ∈ d ∧ e.1 ≠ k := by
  simp [without]

theorem mem_assign (e : K × V) : e ∈ assign k v d ↔ e = (k, v) ∨ (e ∈ d ∧ e.1 ≠ k) := by
  rw [assign, List.mem_cons, ← without, mem_without]

theorem mem_of_lookup (h : d.lookup k = some v) : (k, v) ∈ d := by
  obtain ⟨l₁, l₂, rfl, -⟩ := List.lookup_eq_some_iff.mp h
  simp

theorem lookup_ne_none : d.lookup k ≠ none ↔ ∃ e ∈ d, e.1 = k := by
  rw [← Option.isSome_iff_ne_none, List.lookup_isSome_iff]
  constructor
  · rintro ⟨e, he, hk⟩
    exact ⟨e, he, (beq_iff_eq.mp hk).symm⟩
  · rintro ⟨e, he, rfl⟩
    exact ⟨e, he, beq_self_eq_true _⟩

/-- Values that are changed where they stand are looked up as before. -/
theorem lookup_map {W : Type} (f : K → V → W) :
    (d.map fun e => (e.1, f e.1 e.2)).lookup k = (d.lookup k).map (f k) := by
  induction d with
  | nil => rfl
  | cons e d ih =>
    rw [List.map_cons, lookup_cons, lookup_cons, ih]
    by_cases hk : k = e.1
    · simp [hk]
    · simp [hk]

end entries

section mapM

variable {α β ε : Type} (f : α → Except ε β)

theorem mapM_ok_iff (l : List α) (l' : List β) :
    l.mapM f = .ok l' ↔ List.Forall₂ (fun a b => f a = .ok b) l l' := by
  induction l generalizing l' with
  | nil =>
    rw [List.mapM_nil]
    constructor
    · rintro ⟨⟩
      exact .nil
    · rintro ⟨⟩
      rfl
  | cons a l ih =>
    rw [List.mapM_cons]
    cases ha : f a with
    | error e =>
      constructor
      · rintro ⟨⟩
      · intro h
        cases h with
        | cons hb _ =>
          rw [ha] at hb
          cases hb
    | ok b =>
      cases hl : l.mapM f with
      | error e =>
        constructor
        · rintro ⟨⟩
        · intro h
          cases h with
          | cons _ hrest =>
            rw [(ih _).mpr hrest] at hl
            cases hl
      | ok bs =>
        constructor
        · rintro ⟨⟩
          exact .cons ha ((ih bs).mp hl)
        · intro h
          cases h with
          | cons hb hrest =>
            rw [(ih _).mpr hrest] at hl
            obtain rfl := Except.ok.inj hl
            obtain rfl := Except.ok.inj (ha.symm.trans hb)
            rfl

/-- Each of the second list comes from one of the first. -/
theorem mem_forall₂_right (R : α → β → Prop) (l : List α) (l' : List β) (h : List.Forall₂ R l l')
    (b : β) (hb : b ∈ l') : ∃ a ∈ l, R a b := by
  induction h with
  | nil => cases hb
  | @cons a b' l l' hab _ ih =>
    rcases List.mem_cons.mp hb with rfl | hb
    · exact ⟨a, List.mem_cons_self, hab⟩
    · obtain ⟨x, hx, hxb⟩ := ih hb
      exact ⟨x, List.mem_cons_of_mem a hx, hxb⟩

theorem exists_forall₂ (R : α → β → Prop) (l : List α) (h : ∀ a ∈ l, ∃ b, R a b) :
    ∃ l', List.Forall₂ R l l' := by
  induction l with
  | nil => exact ⟨[], .nil⟩
  | cons a l ih =>
    obtain ⟨b, hb⟩ := h a List.mem_cons_self
    obtain ⟨l', hl⟩ := ih fun x hx => h x (List.mem_cons_of_mem a hx)
    exact ⟨b :: l', .cons hb hl⟩

/-- What is found between the two lists, entry by entry, makes a list. -/
theorem forall₂_between {γ : Type} {R : α → γ → Prop} (S : α → β → Prop) (T : β → γ → Prop)
    (l : List α) (l' : List γ) (h : List.Forall₂ R l l')
    (hmiddle : ∀ a c, c ∈ l' → R a c → ∃ b, S a b ∧ T b c) :
    ∃ m, List.Forall₂ S l m ∧ List.Forall₂ T m l' := by
  induction h with
  | nil => exact ⟨[], .nil, .nil⟩
  | @cons a c l l' hac _ ih =>
    obtain ⟨b, hab, hbc⟩ := hmiddle a c List.mem_cons_self hac
    obtain ⟨m, hm, hm'⟩ := ih fun a c hc => hmiddle a c (List.mem_cons_of_mem _ hc)
    exact ⟨b :: m, .cons hab hm, .cons hbc hm'⟩

theorem map_forall₂ (g : α → β) (l l' : List α) (h : List.Forall₂ (fun a a' => g a = g a') l l') :
    l.map g = l'.map g := by
  induction h with
  | nil => rfl
  | cons hfirst _ ih => rw [List.map_cons, List.map_cons, hfirst, ih]

theorem mapM_returns (l : List α) (h : ∀ a ∈ l, ∃ b, f a = .ok b) : ∃ l', l.mapM f = .ok l' := by
  obtain ⟨l', hl⟩ := exists_forall₂ (fun a b => f a = .ok b) l h
  exact ⟨l', (mapM_ok_iff f l l').mpr hl⟩

variable (l : List α) (l' : List β) (h : l.mapM f = .ok l')
include h

theorem mapM_mem_right (b : β) (hb : b ∈ l') : ∃ a ∈ l, f a = .ok b :=
  mem_forall₂_right _ l l' ((mapM_ok_iff f l l').mp h) b hb

theorem mapM_mem_left (a : α) (ha : a ∈ l) : ∃ b ∈ l', f a = .ok b :=
  mem_forall₂_right _ l' l (((mapM_ok_iff f l l').mp h).flip) a ha

end mapM

end Juju.Lib.Entries

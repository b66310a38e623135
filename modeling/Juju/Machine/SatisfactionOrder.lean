import Juju.Machine.ProviderConstraints

namespace Juju.Machine
open Juju.Base

variable {V : Type}

/-- The comparer is a preorder of the values that the constraint converts to. -/
structure ConstraintType.ComparesPreorder (constraint : ConstraintType V) : Prop where
  refl : constraint.AcceptsOwn
  trans : ∀ x y z, (∃ s, constraint.converter s = .ok (some x)) →
    (∃ s, constraint.converter s = .ok (some y)) → (∃ s, constraint.converter s = .ok (some z)) →
    constraint.comparer x y = true → constraint.comparer y z = true → constraint.comparer x z = true

def ConstraintSet.Preordered (cs : ConstraintSet V) : Prop :=
  ∀ name constraint, cs.registry.lookup name = some constraint → constraint.ComparesPreorder

namespace Constraints

/-- What is set or defaulted converts, for every registered name. -/
def Convertible (c : Constraints V) : Prop :=
  ∀ name, name ∈ c.available.registry → ∃ v, c.getItem name = .ok v

/-- A machine's value is all right for the unit's. -/
def ItemSatisfied (self : Constraints V) (name : String) (unitValue : V) : Prop :=
  ∃ value constraint, self.getItem name = .ok (some value) ∧
    self.available.registry.lookup name = some constraint ∧ constraint.comparer value unitValue = true

theorem satisfiesItems_iff (self : Constraints V) (items : List (String × Option V)) :
    self.satisfiesItems items = .ok true ↔
      ∀ name unitValue, (name, some unitValue) ∈ items → self.ItemSatisfied name unitValue := by
  induction items with
  | nil => simp [satisfiesItems, pure, Except.pure]
  | cons item items ih =>
    obtain ⟨name, unitValue⟩ := item
    cases unitValue with
    | none => simpa [satisfiesItems] using ih
    | some unitValue =>
      have hcons : (∀ name' u, (name', some u) ∈ (name, some unitValue) :: items →
            self.ItemSatisfied name' u) ↔
          self.ItemSatisfied name unitValue ∧ self.satisfiesItems items = .ok true := by
        rw [ih]
        simp only [List.mem_cons, Prod.mk.injEq, Option.some.injEq]
        constructor
        · intro h
          exact ⟨h name unitValue (Or.inl ⟨rfl, rfl⟩), fun name' u hin => h name' u (Or.inr hin)⟩
        · rintro ⟨hfirst, hrest⟩ name' u (⟨rfl, rfl⟩ | hin)
          · exact hfirst
          · exact hrest name' u hin
      rw [hcons]
      unfold ItemSatisfied
      cases hvalue : self.getItem name with
      | error e => simp [satisfiesItems, hvalue, bind, Except.bind]
      | ok value =>
        cases value with
        | none => simp [satisfiesItems, hvalue, bind, Except.bind, pure, Except.pure]
        | some value =>
          cases hlookup : self.available.registry.lookup name with
          | none => simp [satisfiesItems, hvalue, hlookup, bind, Except.bind, pure, Except.pure]
          | some constraint =>
            by_cases hcompare : constraint.comparer value unitValue = true
            · simp [satisfiesItems, hvalue, hlookup, hcompare, bind, Except.bind]
            · simp [satisfiesItems, hvalue, hlookup, hcompare, bind, Except.bind, pure, Except.pure]

theorem items_returns (c : Constraints V) (names : List String)
    (h : ∀ name ∈ names, ∃ v, c.getItem name = .ok v) : ∃ items, c.items names = .ok items := by
  induction names with
  | nil => exact ⟨[], rfl⟩
  | cons name names ih =>
    obtain ⟨v, hv⟩ := h name List.mem_cons_self
    obtain ⟨rest, hrest⟩ := ih fun name hname => h name (List.mem_cons_of_mem _ hname)
    refine ⟨(name, v) :: rest, ?_⟩
    simp [items, hv, hrest, bind, Except.bind, pure, Except.pure]

theorem items_names (c : Constraints V) (names : List String) (items : List (String × Option V))
    (h : c.items names = .ok items) (name : String) (hname : name ∈ names) :
    ∃ value, (name, value) ∈ items ∧ c.getItem name = .ok value := by
  induction names generalizing items with
  | nil => cases hname
  | cons name₁ names ih =>
    obtain ⟨value₁, hvalue, h⟩ := except_bind_ok _ _ _ h
    obtain ⟨rest, hrest, h⟩ := except_bind_ok _ _ _ h
    cases h
    rcases List.mem_cons.mp hname with rfl | hname
    · exact ⟨value₁, List.mem_cons_self, hvalue⟩
    · obtain ⟨value, hin, hget⟩ := ih rest hrest hname
      exact ⟨value, List.mem_cons_of_mem _ hin, hget⟩

/-- Both are complete, the unit's values all convert, and the machine's are all right for them. -/
theorem canSatisfy_iff (self other : Constraints V) :
    self.canSatisfy other = .ok true ↔
      self.complete = .ok true ∧ other.complete = .ok true ∧ other.Convertible ∧
        ∀ name ∈ other.available.registry, ∀ u, other.getItem name = .ok (some u) →
          self.ItemSatisfied name u := by
  constructor
  · intro h
    obtain ⟨machineComplete, hmachine, h⟩ := except_bind_ok _ _ _ h
    cases machineComplete with
    | false => cases h
    | true =>
      obtain ⟨unitComplete, hunit, h⟩ := except_bind_ok _ _ _ h
      cases unitComplete with
      | false => cases h
      | true =>
        obtain ⟨items, hitems, h⟩ := except_bind_ok _ _ _ h
        refine ⟨hmachine, hunit, fun name hname => ?_, fun name hname u hu => ?_⟩
        · obtain ⟨value, -, hvalue⟩ := items_names other _ items hitems name hname
          exact ⟨value, hvalue⟩
        · obtain ⟨value, hin, hvalue⟩ := items_names other _ items hitems name hname
          have hsame : value = some u := Except.ok.inj (hvalue.symm.trans hu)
          exact (satisfiesItems_iff self items).mp h name u (hsame ▸ hin)
  · rintro ⟨hmachine, hunit, hconverts, hsatisfied⟩
    obtain ⟨items, hitems⟩ := items_returns other other.available.registry.keys hconverts
    have hall : self.satisfiesItems items = .ok true := by
      refine (satisfiesItems_iff self items).mpr fun name u hin => ?_
      have hu := items_ok other _ items hitems name (some u) hin
      obtain ⟨constraint, s, hlookup, -⟩ := getItem_some other name u hu
      exact hsatisfied name ((Dict.mem_iff_lookup _ _).mpr ⟨constraint, hlookup⟩) u hu
    simp [canSatisfy, hmachine, hunit, hitems, hall, bind, Except.bind]

theorem checkData_converts (cs : ConstraintSet V)
    (data : List (Sigma fun _ : String => Option String)) (h : cs.checkData data = .ok ())
    (name : String) (value : Option String) (constraint : ConstraintType V)
    (hin : ⟨name, value⟩ ∈ data) (hlookup : cs.registry.lookup name = some constraint) :
    ∃ v, constraint.convert value = .ok v := by
  induction data with
  | nil => cases hin
  | cons e data ih =>
    obtain ⟨name₁, value₁⟩ := e
    unfold ConstraintSet.checkData at h
    rcases List.mem_cons.mp hin with heq | hin
    · cases heq
      rw [hlookup] at h
      obtain ⟨v, hv, -⟩ := except_bind_ok _ _ _ h
      exact ⟨v, hv⟩
    · refine ih ?_ hin
      split at h
      · exact h
      · obtain ⟨_, -, h⟩ := except_bind_ok _ _ _ h
        exact h

/-- What a set's `load` gives back converts, if the defaults do. -/
theorem load_convertible (cs : ConstraintSet V) (data : Dict String (Option String))
    (c : Constraints V) (h : cs.load data = .ok c)
    (hdefaults : ∀ name constraint, cs.registry.lookup name = some constraint →
      ∃ v, constraint.convert constraint.default = .ok v) : c.Convertible := by
  obtain ⟨_, hdata, hc⟩ := except_bind_ok _ _ _ h
  cases hc
  intro name hname
  obtain ⟨constraint, hlookup⟩ := (Dict.mem_iff_lookup _ _).mp hname
  simp only [getItem, rawValue, hlookup]
  cases hvalue : data.lookup name with
  | none => exact hdefaults name constraint hlookup
  | some value =>
    exact checkData_converts cs data.entries hdata name value constraint
      ((Dict.mem_entries_iff data ⟨name, value⟩).mpr hvalue) hlookup

end Constraints

/-- Constraints of one set, whose comparers are preorders: complete ones satisfy themselves just
where their values all convert, what satisfies what satisfies a third satisfies it too, and what is
satisfied or satisfies is complete. -/
theorem canSatisfy_preorder (cs : ConstraintSet V) (hcs : cs.Preordered)
    (a b c : Dict String (Option String)) :
    ((Constraints.mk cs a).canSatisfy ⟨cs, a⟩ = .ok true ↔
        (Constraints.mk cs a).complete = .ok true ∧ (Constraints.mk cs a).Convertible) ∧
      ((Constraints.mk cs a).canSatisfy ⟨cs, b⟩ = .ok true →
        (Constraints.mk cs b).canSatisfy ⟨cs, c⟩ = .ok true →
        (Constraints.mk cs a).canSatisfy ⟨cs, c⟩ = .ok true) ∧
      ((Constraints.mk cs a).canSatisfy ⟨cs, b⟩ = .ok true →
        (Constraints.mk cs a).complete = .ok true ∧ (Constraints.mk cs b).complete = .ok true) := by
  refine ⟨?_, ?_, ?_⟩
  · rw [Constraints.canSatisfy_iff]
    refine ⟨fun h => ⟨h.1, h.2.2.1⟩, fun h => ⟨h.1, h.1, h.2, fun name hname u hu => ?_⟩⟩
    obtain ⟨constraint, s, hlookup, hconverts⟩ := Constraints.getItem_some _ name u hu
    exact ⟨u, constraint, hu, hlookup, (hcs name constraint hlookup).refl s u hconverts⟩
  · simp only [Constraints.canSatisfy_iff]
    rintro ⟨ha, hb, hbconverts, hab⟩ ⟨-, hc, hcconverts, hbc⟩
    refine ⟨ha, hc, hcconverts, fun name hname u hu => ?_⟩
    obtain ⟨v, constraint, hv, hlookup, hvu⟩ := hbc name hname u hu
    obtain ⟨w, constraint', hw, hlookup', hwv⟩ := hab name hname v hv
    have hsame : constraint' = constraint := Option.some.inj (hlookup'.symm.trans hlookup)
    subst hsame
    have converted (c : Dict String (Option String)) (x : V)
        (hx : (Constraints.mk cs c).getItem name = .ok (some x)) :
        ∃ s, constraint'.converter s = .ok (some x) := by
      obtain ⟨constraint, s, hconstraint, hs⟩ := Constraints.getItem_some _ name x hx
      have hsame : constraint = constraint' := Option.some.inj (hconstraint.symm.trans hlookup)
      exact ⟨s, hsame ▸ hs⟩
    exact ⟨w, constraint', hw, hlookup, (hcs name constraint' hlookup).trans w v u
      (converted a w hw) (converted b v hv) (converted c u hu) hwv hvu⟩
  · intro h
    have hboth := (Constraints.canSatisfy_iff _ _).mp h
    exact ⟨hboth.1, hboth.2.1⟩

section examples

/-- A set of texts, with a size whose default its own converter refuses. -/
def sizedSet : ConstraintSet String :=
  (ConstraintSet.new id "dummy").register ⟨"size", some "big",
    fun _ => .error (.valueError "not a size"), fun x y => decide (x = y), true⟩

def preciseData : Dict String (Option String) :=
  (AList.singleton "provider-type" (some "dummy")).insert "ubuntu-series" (some "precise")

theorem preordered_register (cs : ConstraintSet V) (constraint : ConstraintType V)
    (h : cs.Preordered) (hconstraint : constraint.ComparesPreorder) :
    (cs.register constraint).Preordered := by
  intro name other hlookup
  rw [ConstraintSet.register, Dict.lookup_insert] at hlookup
  split at hlookup
  · exact Option.some.inj hlookup ▸ hconstraint
  · exact h name other hlookup

/-- Equal values are a preorder, whatever they are converted from. -/
theorem equality_preorder [DecidableEq V] (constraint : ConstraintType V)
    (h : ∀ x y, constraint.comparer x y = decide (x = y)) : constraint.ComparesPreorder := by
  constructor
  · intro s v _
    simp [h]
  · intro x y z _ _ _ hxy hyz
    simp only [h, decide_eq_true_eq] at hxy hyz ⊢
    exact hxy.trans hyz

theorem new_preordered [DecidableEq V] (text : String → V) (providerType : String) :
    (ConstraintSet.new text providerType).Preordered := by
  have hempty : (ConstraintSet.mk (V := V) providerType ∅ ∅).Preordered := by
    intro name constraint h
    cases h
  exact preordered_register _ _ (preordered_register _ _ hempty
    (equality_preorder _ fun _ _ => rfl)) (equality_preorder _ fun _ _ => rfl)

theorem canSatisfy_preorder_precise :
    (Constraints.mk (ConstraintSet.new id "dummy") preciseData).canSatisfy
      ⟨ConstraintSet.new id "dummy", preciseData⟩ = .ok true := by
  refine (canSatisfy_preorder _ (new_preordered id "dummy") preciseData preciseData
    preciseData).1.mpr ⟨rfl, ?_⟩
  refine Constraints.load_convertible (ConstraintSet.new id "dummy") preciseData _ rfl ?_
  intro name constraint hlookup
  simp only [ConstraintSet.new, ConstraintSet.register, Dict.lookup_insert] at hlookup
  split at hlookup
  · cases hlookup
    exact ⟨none, rfl⟩
  · split at hlookup
    · cases hlookup
      exact ⟨none, rfl⟩
    · cases hlookup

/-- Complete constraints that a set has loaded do not satisfy themselves: a default raises. -/
theorem refused_default : sizedSet.Preordered ∧
    sizedSet.load preciseData = .ok ⟨sizedSet, preciseData⟩ ∧
    (Constraints.mk sizedSet preciseData).complete = .ok true ∧
    (Constraints.mk sizedSet preciseData).canSatisfy ⟨sizedSet, preciseData⟩ =
      .error (.badConstraint "size" "big" "not a size") :=
  ⟨preordered_register _ _ (new_preordered id "dummy") (equality_preorder _ fun _ _ => rfl),
    rfl, rfl, rfl⟩

end examples

end Juju.Machine

import Juju.Machine.Constraints

namespace Juju.Machine
open Juju.Base

variable {V : Type}

namespace ConstraintSet

/-- What one setting makes of a name. -/
def settingOf (cs : ConstraintSet V) (s name : String) : Option (Option String) :=
  (splitSetting s).bind fun setting =>
    if setting.1 = name then
      (cs.registry.lookup name).map fun constraint => constraint.settingValue setting.2
    else none

/-- What a layer sets a name to: the last of its settings of the name, and the provider's type. -/
def layerSets (cs : ConstraintSet V) (strs : List String) (name : String) :
    Option (Option String) :=
  (strs.reverse.findSome? fun s => cs.settingOf s name).or
    (if name = "provider-type" then some (some cs.providerType) else none)

/-- What a layer has to say about a name: what it sets it to, or None where it gives a value to a
constraint in conflict. -/
def layerValue (cs : ConstraintSet V) (strs : List String) (name : String) :
    Option (Option String) :=
  match cs.layerSets strs name with
  | some value => some value
  | none =>
    if (cs.conflictsOf name).any fun other => (cs.layerSets strs other).join.isSome then
      some none
    else none

def default (cs : ConstraintSet V) (name : String) : Option String :=
  (cs.registry.lookup name).bind ConstraintType.default

/-- A conflict goes both ways, between two constraints of which one has no default. -/
structure Coherent (cs : ConstraintSet V) : Prop where
  symmetric : ∀ a b, b ∈ cs.conflictsOf a → a ∈ cs.conflictsOf b
  irreflexive : ∀ a, a ∉ cs.conflictsOf a
  oneDefault : ∀ a b, b ∈ cs.conflictsOf a → cs.default a = none ∨ cs.default b = none

theorem addConflicts_ok (others names : List String) (cs cs' : ConstraintSet V)
    (h : addConflicts others names cs = .ok cs') (a b : String) :
    b ∈ cs'.conflictsOf a ↔ b ∈ cs.conflictsOf a ∨ a ∈ names ∧ b ∈ others := by
  induction names generalizing cs with
  | nil =>
    injection h with h
    subst h
    simp
  | cons name names ih =>
    unfold addConflicts at h
    split at h
    · cases h
    · rename_i conflicts hlookup
      rw [ih _ h]
      by_cases ha : a = name
      · subst ha
        simp only [conflictsOf, Dict.lookup_insert, if_true, hlookup, Option.getD_some,
          List.mem_union_iff, List.mem_cons, true_or, true_and]
        tauto
      · simp only [conflictsOf, Dict.lookup_insert, List.mem_cons, ha, if_false, false_or]

/-- Conflicts registered between two groups go both ways. -/
theorem registerConflicts_symmetric (cs cs' : ConstraintSet V) (reds blues : List String)
    (h : cs.registerConflicts reds blues = .ok cs')
    (hcs : ∀ a b, b ∈ cs.conflictsOf a → a ∈ cs.conflictsOf b) (a b : String)
    (hb : b ∈ cs'.conflictsOf a) : a ∈ cs'.conflictsOf b := by
  obtain ⟨cs₁, hreds, hblues⟩ := except_bind_ok _ _ _ h
  rw [addConflicts_ok _ _ _ _ hblues, addConflicts_ok _ _ _ _ hreds] at hb ⊢
  have hold := hcs a b
  tauto

/-- It is enough to look at the constraints that are registered. -/
theorem coherent_of_keys (cs : ConstraintSet V)
    (h : ∀ a ∈ cs.conflicts.keys, ∀ b ∈ cs.conflictsOf a,
      a ∈ cs.conflictsOf b ∧ a ≠ b ∧ (cs.default a = none ∨ cs.default b = none)) :
    cs.Coherent := by
  have hkey (a b : String) (hb : b ∈ cs.conflictsOf a) : a ∈ cs.conflicts.keys := by
    rw [← AList.mem_keys, Dict.mem_iff_lookup]
    cases hlookup : cs.conflicts.lookup a with
    | none =>
      rw [conflictsOf, hlookup] at hb
      cases hb
    | some conflicts => exact ⟨conflicts, rfl⟩
  refine ⟨fun a b hb => ?_, fun a ha => ?_, fun a b hb => ?_⟩
  · exact (h a (hkey a b hb) b hb).1
  · exact (h a (hkey a a ha) a ha).2.1 rfl
  · exact (h a (hkey a b hb) b hb).2.2

theorem readSetting_ok (cs : ConstraintSet V) (s name : String) (value : Option String)
    (h : cs.readSetting s = .ok (name, value)) (other : String) :
    cs.settingOf s other = if other = name then some value else none := by
  unfold readSetting at h
  split at h
  · cases h
  · rename_i n text hsplit
    split at h
    · cases h
    · rename_i constraint hlookup
      obtain ⟨v, -, h⟩ := except_bind_ok _ _ _ h
      split at h
      · injection h with h
        injection h with hname hvalue
        subst hname hvalue
        rw [settingOf, hsplit]
        by_cases hother : other = n
        · subst hother
          simp [hlookup]
        · simp [hother, Ne.symm hother]
      · cases h

/-- Reading keeps to what the settings read so far have made of each name. -/
theorem readSettings_ok (cs : ConstraintSet V) (strs : List String)
    (data result : Dict String (Option String)) (h : cs.readSettings data strs = .ok result)
    (name : String) :
    result.lookup name =
      (strs.reverse.findSome? fun s => cs.settingOf s name).or (data.lookup name) := by
  induction strs generalizing data with
  | nil =>
    injection h with h
    subst h
    simp
  | cons s strs ih =>
    unfold readSettings at h
    obtain ⟨setting, hread, h⟩ := except_bind_ok _ _ _ h
    have hsetting := readSetting_ok cs s setting.1 setting.2 hread name
    rw [ih _ h, Dict.lookup_insert, List.reverse_cons, List.findSome?_append, Option.or_assoc,
      List.findSome?_singleton, hsetting]
    split <;> rfl

theorem checkConflicts_ok (data : Dict String (Option String)) (name : String)
    (conflicts : List String) (h : checkConflicts data name conflicts = .ok ()) :
    ∀ conflict ∈ conflicts, conflict ∉ data := by
  induction conflicts with
  | nil => nofun
  | cons conflict rest ih =>
    unfold checkConflicts at h
    split at h
    · cases h
    · rename_i hnot
      intro other hother
      rcases List.mem_cons.mp hother with rfl | hrest
      · exact hnot
      · exact ih h other hrest

/-- What is found are the conflicts of the names with a value, and no such conflict is set. -/
theorem findConflicts_ok (cs : ConstraintSet V) (data : Dict String (Option String))
    (names conflicts : List String) (h : cs.findConflicts data names = .ok conflicts) :
    (∀ a ∈ names, data.lookup a ≠ some none → ∀ b ∈ cs.conflictsOf a, b ∉ data) ∧
      ∀ b, b ∈ conflicts ↔
        ∃ a ∈ names, data.lookup a ≠ some none ∧ b ∈ cs.conflictsOf a := by
  induction names generalizing conflicts with
  | nil =>
    injection h with h
    subst h
    exact ⟨nofun, fun b => ⟨nofun, nofun⟩⟩
  | cons name names ih =>
    unfold findConflicts at h
    split at h
    · rename_i hnone
      obtain ⟨hset, hmem⟩ := ih conflicts h
      refine ⟨fun a ha hvalue => ?_, fun b => ?_⟩
      · rcases List.mem_cons.mp ha with rfl | ha
        · exact absurd hnone hvalue
        · exact hset a ha hvalue
      · rw [hmem]
        simp [hnone]
    · rename_i hvalue
      split at h
      · cases h
      · rename_i overlaps hoverlaps
        have hof : cs.conflictsOf name = overlaps := by
          rw [conflictsOf, hoverlaps]
          rfl
        obtain ⟨u, hcheck, h⟩ := except_bind_ok _ _ _ h
        obtain ⟨others, hothers, h⟩ := except_bind_ok _ _ _ h
        injection h with h
        have hfree := checkConflicts_ok data name _ hcheck
        obtain ⟨hset, hmem⟩ := ih others hothers
        refine ⟨fun a ha hvalue b hb => ?_, fun b => ?_⟩
        · rcases List.mem_cons.mp ha with rfl | ha
          · rw [hof] at hb
            exact hfree b ((List.mem_insertionSort _).mpr hb)
          · exact hset a ha hvalue b hb
        · rw [← h, List.mem_append, hmem, ← hof]
          simp [hvalue]

/-- A layer that parses has what its settings make of each name, and masks the rest of their
conflicts. -/
theorem parse_ok (cs : ConstraintSet V) (hcs : cs.Coherent) (strs : List String)
    (layer : Constraints V) (h : cs.parse strs = .ok layer) :
    layer.available = cs ∧ (∀ name, layer.data.lookup name = cs.layerValue strs name) ∧
      ∀ a b value, b ∈ cs.conflictsOf a → cs.layerSets strs a = some (some value) →
        cs.layerSets strs b = none := by
  unfold parse at h
  obtain ⟨data, hread, h⟩ := except_bind_ok _ _ _ h
  obtain ⟨conflicts, hfind, h⟩ := except_bind_ok _ _ _ h
  injection h with h
  subst h
  have hdata (name : String) : data.lookup name = cs.layerSets strs name := by
    rw [readSettings_ok cs strs _ data hread name, layerSets]
    congr 1
    by_cases hname : name = "provider-type"
    · subst hname
      rfl
    · rw [if_neg hname, AList.lookup_eq_none]
      simpa [AList.mem_keys, AList.keys_singleton] using hname
  obtain ⟨hset, hmem⟩ := findConflicts_ok cs data _ conflicts hfind
  have hkey (a : String) (value : Option String) (ha : data.lookup a = some value) :
      a ∈ data.keys.insertionSort (· ≤ ·) :=
    (List.mem_insertionSort _).mpr (AList.mem_keys.mp ((Dict.mem_iff_lookup data a).mpr ⟨_, ha⟩))
  have hfree (a b value : String) (hb : b ∈ cs.conflictsOf a)
      (ha : data.lookup a = some (some value)) : data.lookup b = none := by
    rw [AList.lookup_eq_none]
    exact hset a (hkey a _ ha) (by simp [ha]) b hb
  have hmasked (name : String) : name ∈ conflicts ↔
      ∃ other ∈ cs.conflictsOf name, ∃ value, data.lookup other = some (some value) := by
    rw [hmem]
    constructor
    · rintro ⟨other, hother, hvalue, hin⟩
      refine ⟨other, hcs.symmetric other name hin, ?_⟩
      have hin' : other ∈ data := AList.mem_keys.mpr ((List.mem_insertionSort _).mp hother)
      obtain ⟨value, hlookup⟩ := (Dict.mem_iff_lookup data other).mp hin'
      cases value with
      | none => exact absurd hlookup hvalue
      | some value => exact ⟨value, hlookup⟩
    · rintro ⟨other, hin, value, hlookup⟩
      exact ⟨other, hkey other _ hlookup, by simp [hlookup], hcs.symmetric name other hin⟩
  refine ⟨rfl, fun name => ?_, fun a b value hb ha => ?_⟩
  · rw [Dict.lookup_foldl_insert, layerValue, ← hdata]
    cases hlookup : data.lookup name with
    | some value =>
      rw [if_neg]
      intro hin
      obtain ⟨other, hother, value', hlookup'⟩ := (hmasked name).mp hin
      rw [hfree other name value' (hcs.symmetric name other hother) hlookup'] at hlookup
      cases hlookup
    | none =>
      have hany : (cs.conflictsOf name).any (fun other => (cs.layerSets strs other).join.isSome) =
          true ↔ name ∈ conflicts := by
        rw [hmasked, List.any_eq_true]
        simp [← hdata, Option.isSome_iff_exists, Option.join_eq_some_iff]
      by_cases hin : name ∈ conflicts <;> simp only [hany, hin, if_true, if_false]
  · rw [← hdata] at ha ⊢
    exact hfree a b value hb ha

end ConstraintSet

/-- Constraints updated with one layer after another. -/
def Constraints.combine (lowest : Constraints V) (layers : List (Constraints V)) : Constraints V :=
  layers.foldl Constraints.update lowest

theorem combine_available (lowest : Constraints V) (layers : List (Constraints V)) :
    (lowest.combine layers).available = lowest.available := by
  induction layers generalizing lowest with
  | nil => rfl
  | cons layer layers ih => exact ih (lowest.update layer)

theorem combine_data (lowest : Constraints V) (layers : List (Constraints V)) :
    (lowest.combine layers).data = (layers.map Constraints.data).foldl Dict.update lowest.data := by
  induction layers generalizing lowest with
  | nil => rfl
  | cons layer layers ih => exact ih (lowest.update layer)

namespace ConstraintSet

/-- What the topmost layer with a say makes of a name, and its default where there is none. -/
def effectiveValue (cs : ConstraintSet V) (strss : List (List String)) (name : String) :
    Option String :=
  match strss.reverse.findSome? fun strs => cs.layerValue strs name with
  | some value => value
  | none => cs.default name

/-- Layers that parse, each in the place of its settings. -/
def Parsed (cs : ConstraintSet V) (strss : List (List String)) (layers : List (Constraints V)) :
    Prop :=
  List.Forall₂ (fun strs layer => cs.parse strs = .ok layer) strss layers

theorem parsed_data (cs : ConstraintSet V) (hcs : cs.Coherent) (strss : List (List String))
    (layers : List (Constraints V)) (h : cs.Parsed strss layers) (name : String) :
    (layers.reverse.findSome? fun layer => layer.data.lookup name) =
      strss.reverse.findSome? fun strs => cs.layerValue strs name := by
  induction h with
  | nil => rfl
  | cons hparse _ ih =>
    simp only [List.reverse_cons, List.findSome?_append, ih, List.findSome?_singleton,
      (parse_ok cs hcs _ _ hparse).2.1 name]

theorem combine_rawValue (cs : ConstraintSet V) (hcs : cs.Coherent) (strss : List (List String))
    (lowest : Constraints V) (layers : List (Constraints V))
    (h : cs.Parsed strss (lowest :: layers)) (name : String) :
    (lowest.combine layers).rawValue name = cs.effectiveValue strss name := by
  have hdata := parsed_data cs hcs strss _ h name
  have hlowest : lowest.available = cs := by
    cases h with
    | cons hparse _ => exact (parse_ok cs hcs _ _ hparse).1
  have hlookup : (lowest.combine layers).data.lookup name =
      strss.reverse.findSome? fun strs => cs.layerValue strs name := by
    rw [combine_data, Dict.lookup_foldl_update, ← List.map_reverse, List.findSome?_map, ← hdata,
      List.reverse_cons, List.findSome?_append, List.findSome?_singleton]
    rfl
  rw [Constraints.rawValue, effectiveValue, hlookup, combine_available, hlowest]
  rfl

/-- Of two constraints in conflict a layer gives at most one a value, and then masks the other. -/
theorem layerValue_masks (cs : ConstraintSet V) (hcs : cs.Coherent) (strs : List String)
    (layer : Constraints V) (h : cs.parse strs = .ok layer) (a b value : String)
    (hb : b ∈ cs.conflictsOf a) (ha : cs.layerValue strs a = some (some value)) :
    cs.layerValue strs b = some none := by
  have hset : cs.layerSets strs a = some (some value) := by
    unfold layerValue at ha
    split at ha
    · rename_i v hv
      rw [hv, ha]
    · split at ha <;> cases ha
  have hnot := (parse_ok cs hcs strs layer h).2.2 a b value hb hset
  rw [layerValue, hnot]
  dsimp only
  rw [if_pos]
  refine List.any_eq_true.mpr ⟨a, hcs.symmetric a b hb, ?_⟩
  rw [hset]
  rfl

theorem layerValue_decides (cs : ConstraintSet V) (hcs : cs.Coherent) (strs : List String)
    (layer : Constraints V) (h : cs.parse strs = .ok layer) (a b : String)
    (hb : b ∈ cs.conflictsOf a) :
    cs.layerValue strs a = some none ∨ cs.layerValue strs b = some none ∨
      cs.layerValue strs a = none ∧ cs.layerValue strs b = none := by
  cases ha : cs.layerValue strs a with
  | some value =>
    cases value with
    | none => exact Or.inl rfl
    | some value => exact Or.inr (Or.inl (layerValue_masks cs hcs strs layer h a b value hb ha))
  | none =>
    cases hvalue : cs.layerValue strs b with
    | none => exact Or.inr (Or.inr ⟨rfl, rfl⟩)
    | some value =>
      cases value with
      | none => exact Or.inr (Or.inl rfl)
      | some value =>
        have hmasks := layerValue_masks cs hcs strs layer h b a value (hcs.symmetric a b hb) hvalue
        rw [ha] at hmasks
        cases hmasks

theorem parsed_mem (cs : ConstraintSet V) (strss : List (List String))
    (layers : List (Constraints V)) (h : cs.Parsed strss layers) (strs : List String)
    (hstrs : strs ∈ strss) : ∃ layer, cs.parse strs = .ok layer := by
  induction h with
  | nil => cases hstrs
  | cons hparse _ ih =>
    rcases List.mem_cons.mp hstrs with rfl | hrest
    · exact ⟨_, hparse⟩
    · exact ih hrest

theorem effectiveValue_exclusive (cs : ConstraintSet V) (hcs : cs.Coherent)
    (strss : List (List String)) (layers : List (Constraints V)) (h : cs.Parsed strss layers)
    (a b : String) (hb : b ∈ cs.conflictsOf a) :
    cs.effectiveValue strss a = none ∨ cs.effectiveValue strss b = none := by
  unfold effectiveValue
  have hparsed : ∀ strs ∈ strss.reverse, ∃ layer, cs.parse strs = .ok layer :=
    fun strs hstrs => parsed_mem cs strss layers h strs (List.mem_reverse.mp hstrs)
  generalize strss.reverse = tops at hparsed
  induction tops with
  | nil => exact hcs.oneDefault a b hb
  | cons strs tops ih =>
    obtain ⟨layer, hlayer⟩ := hparsed strs List.mem_cons_self
    rcases layerValue_decides cs hcs strs layer hlayer a b hb with ha | hb | ⟨ha, hb⟩
    · left
      rw [List.findSome?_cons_of_isSome] <;> simp [ha]
    · right
      rw [List.findSome?_cons_of_isSome] <;> simp [hb]
    · simp only [List.findSome?_cons, ha, hb]
      exact ih fun strs hstrs => hparsed strs (List.mem_cons_of_mem _ hstrs)

/-- The raw value of a constraint in layers laid over each other is that of the topmost layer with
a say, and of two constraints in conflict one has none. -/
theorem constraints_layered (cs : ConstraintSet V) (hcs : cs.Coherent)
    (strss : List (List String)) (lowest : Constraints V) (layers : List (Constraints V))
    (h : cs.Parsed strss (lowest :: layers)) :
    (∀ name, (lowest.combine layers).rawValue name = cs.effectiveValue strss name) ∧
      ∀ a b, b ∈ cs.conflictsOf a →
        (lowest.combine layers).rawValue a = none ∨ (lowest.combine layers).rawValue b = none := by
  have hvalue := combine_rawValue cs hcs strss lowest layers h
  refine ⟨hvalue, fun a b hb => ?_⟩
  rw [hvalue, hvalue]
  exact effectiveValue_exclusive cs hcs strss _ h a b hb

/-- What a provider registers, before the conflict of its two constraints. -/
def genericTypes : ConstraintSet String :=
  ((ConstraintSet.new id "ec2").register (.plain id "cpu" (some "1") true)).register
    (.plain id "instance-type" none true)

def instanceTypes : ConstraintSet String :=
  { genericTypes with
    conflicts := (genericTypes.conflicts.insert "cpu" ["instance-type"]).insert
      "instance-type" ["cpu"] }

theorem constraints_layered_instanceType :
    ∃ lowest top : Constraints String,
      genericTypes.registerConflicts ["cpu"] ["instance-type"] = .ok instanceTypes ∧
      instanceTypes.Parsed [["instance-type=a1.big"], ["cpu=20"]] [lowest, top] ∧
      (lowest.combine [top]).rawValue "cpu" = some "20" ∧
      (lowest.combine [top]).rawValue "instance-type" = none := by
  have hcs : instanceTypes.Coherent := coherent_of_keys instanceTypes (by decide)
  have hparsed : instanceTypes.Parsed [["instance-type=a1.big"], ["cpu=20"]] [_, _] :=
    .cons rfl (.cons rfl .nil)
  have hlayered := (constraints_layered instanceTypes hcs _ _ _ hparsed).1
  exact ⟨_, _, rfl, hparsed, hlayered "cpu", hlayered "instance-type"⟩

end ConstraintSet

end Juju.Machine

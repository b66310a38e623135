import Mathlib.Data.Nat.Cast.Order.Ring
import Juju.Base.Returns
import Juju.Machine.EC2Types
import Juju.Machine.SatisfactionOrder

namespace Juju.Machine
open Juju.Base

section accepted

variable {V : Type} (cs : ConstraintSet V)

/-- What a set makes of settings and of stored data, and of one of these updated with another. -/
inductive Accepted : Constraints V → Prop where
  | parse (strs : List String) (c : Constraints V) : cs.parse strs = .ok c → Accepted c
  | load (data : Dict String (Option String)) (c : Constraints V) : cs.load data = .ok c →
      Accepted c
  | update (c other : Constraints V) : Accepted c → Accepted other → Accepted (c.update other)

/-- What is set converts, where its name is registered. -/
def DataConverts (data : Dict String (Option String)) : Prop :=
  ∀ name value constraint, data.lookup name = some value →
    cs.registry.lookup name = some constraint → ∃ v, constraint.convert value = .ok v

theorem dataConverts_insert (data : Dict String (Option String)) (name : String)
    (value : Option String) (h : DataConverts cs data)
    (hvalue : ∀ constraint, cs.registry.lookup name = some constraint →
      ∃ v, constraint.convert value = .ok v) : DataConverts cs (data.insert name value) := by
  intro name' value' constraint hlookup hconstraint
  rw [Dict.lookup_insert] at hlookup
  split at hlookup
  · rename_i hname
    obtain rfl := Option.some.inj hlookup
    exact hvalue constraint (hname ▸ hconstraint)
  · exact h name' value' constraint hlookup hconstraint

theorem readSetting_converts (s name : String) (value : Option String)
    (h : cs.readSetting s = .ok (name, value)) (constraint : ConstraintType V)
    (hconstraint : cs.registry.lookup name = some constraint) :
    ∃ v, constraint.convert value = .ok v := by
  unfold ConstraintSet.readSetting at h
  split at h
  · cases h
  · split at h
    · cases h
    · rename_i found hfound
      obtain ⟨v, hv, h⟩ := except_bind_ok _ _ _ h
      split at h
      · cases h
        obtain rfl : found = constraint := Option.some.inj (hfound.symm.trans hconstraint)
        exact ⟨v, hv⟩
      · cases h

theorem readSettings_converts (strs : List String) (data result : Dict String (Option String))
    (h : cs.readSettings data strs = .ok result) (hdata : DataConverts cs data) :
    DataConverts cs result := by
  induction strs generalizing data with
  | nil =>
    cases h
    exact hdata
  | cons s strs ih =>
    obtain ⟨⟨name, value⟩, hread, h⟩ := except_bind_ok _ _ _ h
    exact ih (data.insert name value) h
      (dataConverts_insert cs data name value hdata (readSetting_converts cs s name value hread))

theorem masked_converts (conflicts : List String) (data : Dict String (Option String))
    (hdata : DataConverts cs data) : DataConverts cs
      (conflicts.foldl (fun data conflict => data.insert conflict none) data) := by
  induction conflicts generalizing data with
  | nil => exact hdata
  | cons conflict conflicts ih =>
    exact ih _ (dataConverts_insert cs data conflict none hdata fun _ _ => ⟨none, rfl⟩)

/-- Accepted constraints convert, where the defaults and the type of the provider do. -/
theorem accepted_convertible (c : Constraints V) (h : Accepted cs c)
    (hdefaults : ∀ name constraint, cs.registry.lookup name = some constraint →
      ∃ v, constraint.convert constraint.default = .ok v)
    (htype : ∀ constraint, cs.registry.lookup "provider-type" = some constraint →
      ∃ v, constraint.convert (some cs.providerType) = .ok v) :
    c.available = cs ∧ c.Convertible := by
  have hall : c.available = cs ∧ DataConverts cs c.data := by
    induction h with
    | parse strs c hparse =>
      obtain ⟨data, hread, hparse⟩ := except_bind_ok _ _ _ hparse
      obtain ⟨conflicts, -, hparse⟩ := except_bind_ok _ _ _ hparse
      cases hparse
      have hsingle : DataConverts cs (AList.singleton "provider-type" (some cs.providerType)) :=
        dataConverts_insert cs ∅ _ _ (fun _ _ _ hlookup => by cases hlookup) htype
      exact ⟨rfl,
        masked_converts cs conflicts data (readSettings_converts cs strs _ data hread hsingle)⟩
    | load data c hload =>
      obtain ⟨_, hdata, hload⟩ := except_bind_ok _ _ _ hload
      cases hload
      refine ⟨rfl, fun name value constraint hvalue hlookup => ?_⟩
      exact Constraints.checkData_converts cs data.entries hdata name value constraint
        ((Dict.mem_entries_iff data ⟨name, value⟩).mpr hvalue) hlookup
    | update c other _ _ hc hother =>
      refine ⟨hc.1, fun name value constraint hvalue hlookup => ?_⟩
      rw [Constraints.update, Dict.lookup_update] at hvalue
      rcases Option.or_eq_some_iff.mp hvalue with hnew | ⟨-, hold⟩
      · exact hother.2 name value constraint hnew hlookup
      · exact hc.2 name value constraint hold hlookup
  refine ⟨hall.1, fun name hname => ?_⟩
  obtain ⟨constraint, hlookup⟩ := (Dict.mem_iff_lookup _ _).mp hname
  simp only [Constraints.getItem, Constraints.rawValue, hlookup]
  rw [hall.1] at hlookup
  cases hvalue : c.data.lookup name with
  | none => exact hdefaults name constraint hlookup
  | some value => exact hall.2 name value constraint hvalue hlookup

end accepted

section ec2

variable {F : Type} [DecidableEq F] (float : PythonFloat F)

theorem addConflicts_registry {V : Type} (others names : List String) (cs cs' : ConstraintSet V)
    (h : ConstraintSet.addConflicts others names cs = .ok cs') : cs'.registry = cs.registry := by
  induction names generalizing cs with
  | nil =>
    cases h
    rfl
  | cons name names ih =>
    unfold ConstraintSet.addConflicts at h
    split at h
    · cases h
    · rw [ih _ h]

/-- What the constraint set of EC2 registers. -/
def ec2Registered (name : String) : Option (ConstraintType (ConstraintValue F)) :=
  if name = "ec2-zone" then some ⟨"ec2-zone", none, convertZone, compareEqual, true⟩
  else if name = "instance-type" then
    some ⟨"instance-type", none, convertInstanceType (instanceTypes.map InstanceType.name),
      compareEqual, true⟩
  else if name = "mem" then
    some ⟨"mem", some "512M", convertMem float.toFloatType, compareNumbers float.toFloatType, true⟩
  else if name = "cpu" then
    some ⟨"cpu", some "1", convertCpu float.toFloatType, compareNumbers float.toFloatType, true⟩
  else if name = "arch" then some ⟨"arch", some "amd64", convertArch, compareEqual, true⟩
  else if name = "provider-type" then some (.plain .text "provider-type" none false)
  else if name = "ubuntu-series" then some (.plain .text "ubuntu-series" none false)
  else none

theorem ec2_registered (cs : ConstraintSet (ConstraintValue F))
    (h : (Provider.ec2 (instanceTypes.map InstanceType.name)).constraintSet float.toFloatType =
      .ok cs) (name : String) : cs.registry.lookup name = ec2Registered float name := by
  obtain ⟨generics, hgenerics, hcs⟩ := except_bind_ok _ _ _ h
  cases hcs
  unfold ConstraintSet.registerGenerics at hgenerics
  rw [if_neg (by simp [instanceTypes])] at hgenerics
  obtain ⟨reds, hreds, hblues⟩ := except_bind_ok _ _ _ hgenerics
  have hregistry := addConflicts_registry _ _ _ _ hblues
  rw [addConflicts_registry _ _ _ _ hreds] at hregistry
  rw [ConstraintSet.register, hregistry]
  simp only [ConstraintSet.register, ConstraintSet.new, ConstraintType.plain, Dict.lookup_insert,
    AList.lookup_empty]
  rfl

theorem ec2_defaults (cs : ConstraintSet (ConstraintValue F))
    (h : ∀ name, cs.registry.lookup name = ec2Registered float name) (name : String)
    (constraint : ConstraintType (ConstraintValue F))
    (hlookup : cs.registry.lookup name = some constraint) :
    ∃ v, constraint.convert constraint.default = .ok v := by
  rw [h, ec2Registered] at hlookup
  obtain ⟨one, hone, hcpu⟩ := float.cpu_default
  obtain ⟨size, hsize, hmem⟩ := float.mem_default
  have hconvertCpu : convertCpu float.toFloatType "1" = .ok (some (.number one)) := by
    simp [convertCpu, hone, nonNegative, hcpu]
  have hconvertMem : convertMem float.toFloatType "512M" =
      .ok (some (.number (float.times size 1))) := by
    have hsuffix : "512M".toList.getLast? = some 'M' := rfl
    have htext : String.ofList "512M".toList.dropLast = "512" := rfl
    simp only [convertMem, hsuffix, htext, memSuffix, hsize, Except.map, nonNegative, hmem, if_true]
  split_ifs at hlookup <;> obtain rfl := Option.some.inj hlookup
  · exact ⟨none, rfl⟩
  · exact ⟨none, rfl⟩
  · exact ⟨_, by simp only [ConstraintType.convert, hconvertMem]; rfl⟩
  · exact ⟨_, by simp only [ConstraintType.convert, hconvertCpu]; rfl⟩
  · exact ⟨some (.text "amd64"), rfl⟩
  · exact ⟨none, rfl⟩
  · exact ⟨none, rfl⟩

/-- Constraints that the constraint set of EC2 accepts. -/
def AcceptedByEC2 (c : Constraints (ConstraintValue F)) : Prop :=
  ∃ cs, (Provider.ec2 (instanceTypes.map InstanceType.name)).constraintSet float.toFloatType =
    .ok cs ∧ Accepted cs c

theorem acceptedByEC2_reads (c : Constraints (ConstraintValue F)) (h : AcceptedByEC2 float c) :
    (∀ name, c.available.registry.lookup name = ec2Registered float name) ∧ c.Convertible := by
  obtain ⟨cs, hcs, haccepted⟩ := h
  have hregistered := ec2_registered float cs hcs
  obtain ⟨rfl, hconvertible⟩ := accepted_convertible cs c haccepted
    (ec2_defaults float cs hregistered) (fun constraint hlookup => by
      rw [hregistered, ec2Registered] at hlookup
      obtain rfl := Option.some.inj hlookup
      exact ⟨some (.text _), rfl⟩)
  exact ⟨hregistered, hconvertible⟩

/-- What a registered name has converts from a text, if it has anything. -/
theorem ec2_item (c : Constraints (ConstraintValue F)) (h : AcceptedByEC2 float c) (name : String)
    (constraint : ConstraintType (ConstraintValue F))
    (hname : ec2Registered float name = some constraint) :
    ∃ v, c.getItem name = .ok v ∧
      ∀ x, v = some x → ∃ s, constraint.converter s = .ok (some x) := by
  obtain ⟨hregistered, hconvertible⟩ := acceptedByEC2_reads float c h
  obtain ⟨v, hv⟩ := hconvertible name
    ((Dict.mem_iff_lookup _ _).mpr ⟨constraint, (hregistered name).trans hname⟩)
  refine ⟨v, hv, fun x hx => ?_⟩
  obtain ⟨found, s, hfound, hs⟩ := c.getItem_some name x (hx ▸ hv)
  rw [hregistered, hname] at hfound
  exact ⟨s, Option.some.inj hfound ▸ hs⟩

/-- An instance type can be started as an architecture. -/
def InstanceType.Supports (type_ : InstanceType) (arch : String) : Prop :=
  type_.arch = arch ∨ type_.arch = eitherArch ∧ arch ∈ ["i386", "amd64"]

instance (type_ : InstanceType) (arch : String) : Decidable (type_.Supports arch) :=
  inferInstanceAs (Decidable (_ ∨ _))

theorem archMatch_iff (type_ : InstanceType) (arch : String) :
    archMatch (.text type_.arch) (.text arch : ConstraintValue F) = true ↔
      type_.Supports arch := by
  unfold archMatch InstanceType.Supports
  by_cases hsame : type_.arch = arch
  · simp [hsame]
  · by_cases heither : type_.arch = eitherArch <;> simp [hsame, heither]

theorem filter_arch (c : Constraints (ConstraintValue F)) (v : Option String)
    (hv : c.getItem "arch" = .ok (v.map .text)) (hne : v ≠ some "") :
    ∃ f, filterFunc float c "arch" (fun type_ => .text type_.arch) archMatch = .ok f ∧
      ∀ type_, f type_ = true ↔ ∀ arch, v = some arch → type_.Supports arch := by
  cases v with
  | none => exact ⟨_, by rw [filterFunc, hv]; rfl, by simp⟩
  | some arch =>
    have harch : arch ≠ "" := fun h => hne (congrArg some h)
    refine ⟨fun type_ => archMatch (.text type_.arch) (.text arch : ConstraintValue F), ?_,
      fun type_ => ?_⟩
    · simp [filterFunc, hv, falsy, harch, bind, Except.bind, pure, Except.pure]
    · simp [archMatch_iff]

omit [DecidableEq F] in
theorem filter_number (c : Constraints (ConstraintValue F)) (name : String)
    (value : InstanceType → F) (v : Option F) (hv : c.getItem name = .ok (v.map .number))
    (hvalue : ∀ type_ ∈ instanceTypes, float.ge (value type_) float.zero = true) :
    ∃ f, filterFunc float c name (fun type_ => .number (value type_))
        (compareNumbers float.toFloatType) = .ok f ∧
      ∀ type_ ∈ instanceTypes, f type_ = true ↔ ∀ x, v = some x → float.ge (value type_) x = true := by
  cases v with
  | none => exact ⟨_, by rw [filterFunc, hv]; rfl, by simp⟩
  | some x =>
    by_cases hzero : falsy float (.number x) = true
    · refine ⟨fun _ => true, ?_, fun type_ htype => ?_⟩
      · simp [filterFunc, hv, hzero, bind, Except.bind, pure, Except.pure]
      · have hle : float.ge float.zero x = true := by
          simp only [falsy, Bool.and_eq_true] at hzero
          exact hzero.2
        simpa using float.ge_trans _ _ _ (hvalue type_ htype) hle
    · refine ⟨fun type_ => compareNumbers float.toFloatType (.number (value type_)) (.number x),
        ?_, fun type_ _ => ?_⟩
      · simp [filterFunc, hv, hzero, bind, Except.bind, pure, Except.pure]
      · simp [compareNumbers]

theorem cheapest_le (types rest : List InstanceType) (cheapest : InstanceType)
    (h : types.insertionSort (fun a b => a.cost ≤ b.cost) = cheapest :: rest) :
    cheapest ∈ types ∧ ∀ other ∈ types, cheapest.cost ≤ other.cost := by
  have hmem (type_ : InstanceType) : type_ ∈ cheapest :: rest ↔ type_ ∈ types := by
    rw [← h, List.mem_insertionSort]
  have : Std.Total fun a b : InstanceType => a.cost ≤ b.cost := ⟨fun a b => le_total a.cost b.cost⟩
  have : IsTrans InstanceType fun a b => a.cost ≤ b.cost := ⟨fun _ _ _ => le_trans⟩
  have hsorted := List.pairwise_insertionSort (fun a b : InstanceType => a.cost ≤ b.cost) types
  rw [h] at hsorted
  refine ⟨(hmem cheapest).mp List.mem_cons_self, fun other hother => ?_⟩
  rcases List.mem_cons.mp ((hmem other).mpr hother) with rfl | hrest
  · exact le_refl _
  · exact List.rel_of_pairwise_cons hsorted hrest

omit [DecidableEq F] in
theorem textItem_of (c : Constraints (ConstraintValue F)) (name : String) (v : Option String)
    (h : c.getItem name = .ok (v.map .text)) : textItem c name = .ok v := by
  rw [textItem, h]
  cases v <;> rfl

/-- What the values of accepted constraints are. -/
theorem ec2_items (c : Constraints (ConstraintValue F)) (h : AcceptedByEC2 float c) :
    (∃ v : Option String, c.getItem "arch" = .ok (v.map .text) ∧ v ≠ some "") ∧
      (∃ v : Option String, c.getItem "instance-type" = .ok (v.map .text) ∧
        ∀ name, v = some name → ∃ type_ ∈ instanceTypes, type_.name = name) ∧
      (∃ v : Option F, c.getItem "cpu" = .ok (v.map .number)) ∧
      ∃ v : Option F, c.getItem "mem" = .ok (v.map .number) := by
  have hnumber (name : String) (constraint : ConstraintType (ConstraintValue F))
      (hname : ec2Registered float name = some constraint)
      (hconverter : ∀ s x, constraint.converter s = .ok (some x) →
        ∃ value, nonNegative float.toFloatType value = .ok (some x)) :
      ∃ v : Option F, c.getItem name = .ok (v.map .number) := by
    obtain ⟨v, hv, hconverts⟩ := ec2_item float c h name constraint hname
    cases v with
    | none => exact ⟨none, hv⟩
    | some x =>
      obtain ⟨s, hs⟩ := hconverts x rfl
      obtain ⟨value, hvalue⟩ := hconverter s x hs
      cases value with
      | error text => cases hvalue
      | ok number =>
        rw [nonNegative] at hvalue
        split at hvalue
        · obtain rfl := Option.some.inj (Except.ok.inj hvalue)
          exact ⟨some number, hv⟩
        · cases hvalue
  refine ⟨?_, ?_, ?_, ?_⟩
  · obtain ⟨v, hv, hconverts⟩ := ec2_item float c h "arch" _ rfl
    cases v with
    | none => exact ⟨none, hv, by simp⟩
    | some x =>
      obtain ⟨s, hs⟩ := hconverts x rfl
      dsimp only [convertArch] at hs
      split at hs
      · rename_i hvalid
        obtain rfl := Option.some.inj (Except.ok.inj hs)
        refine ⟨some s, hv, fun hempty => ?_⟩
        obtain rfl := Option.some.inj hempty
        exact absurd hvalid (by decide)
      · cases hs
  · obtain ⟨v, hv, hconverts⟩ := ec2_item float c h "instance-type" _ rfl
    cases v with
    | none => exact ⟨none, hv, by simp⟩
    | some x =>
      obtain ⟨s, hs⟩ := hconverts x rfl
      dsimp only [convertInstanceType] at hs
      split at hs
      · rename_i hknown
        obtain rfl := Option.some.inj (Except.ok.inj hs)
        refine ⟨some s, hv, fun name hname => ?_⟩
        obtain rfl := Option.some.inj hname
        exact List.mem_map.mp hknown
      · cases hs
  · exact hnumber "cpu" _ rfl fun s _ hs => ⟨float.parse s, hs⟩
  · refine hnumber "mem" _ rfl fun s x hs => ?_
    dsimp only [convertMem] at hs
    split at hs
    · cases hs
    · split at hs <;> exact ⟨_, hs⟩

/-- An instance type is as the constraints want it: an explicit type leaves cpu and mem out. -/
structure Satisfies (c : Constraints (ConstraintValue F)) (type_ : InstanceType) : Prop where
  explicit : ∀ name, textItem c "instance-type" = .ok (some name) → type_.name = name
  arch : ∀ arch, textItem c "arch" = .ok (some arch) → type_.Supports arch
  cpu : textItem c "instance-type" = .ok none → ∀ x, c.getItem "cpu" = .ok (some (.number x)) →
    float.ge (float.literal type_.cpu) x = true
  mem : textItem c "instance-type" = .ok none → ∀ x, c.getItem "mem" = .ok (some (.number x)) →
    float.ge (float.literal type_.mem) x = true

/-- The explicit type, or else the cheapest one that satisfies the constraints. -/
structure Chosen (c : Constraints (ConstraintValue F)) (type_ : InstanceType) : Prop where
  explicit : ∀ name, textItem c "instance-type" = .ok (some name) → type_.name = name
  cheapest : textItem c "instance-type" = .ok none → Satisfies float c type_ ∧
    ∀ other ∈ instanceTypes, Satisfies float c other → type_.cost ≤ other.cost

theorem instanceTypes_positive : ∀ type_ ∈ instanceTypes, 0 ≤ type_.cpu := by
  decide +kernel

theorem lookupType_of : ∀ type_ ∈ instanceTypes, lookupType type_.name = some type_ := by
  decide +kernel

theorem instanceTypes_amd64 : ∀ type_ ∈ instanceTypes, type_.Supports "amd64" := by
  decide

/-- The filters leave the types that satisfy constraints without an explicit type. -/
theorem getFilters_spec (c : Constraints (ConstraintValue F)) (h : AcceptedByEC2 float c)
    (hexplicit : textItem c "instance-type" = .ok none) :
    ∃ filters, getFilters float c = .ok filters ∧ ∀ type_,
      type_ ∈ filters.foldl (fun types f => types.filter f) instanceTypes ↔
        type_ ∈ instanceTypes ∧ Satisfies float c type_ := by
  obtain ⟨⟨arch, harch, hne⟩, -, ⟨cpu, hcpu⟩, ⟨mem, hmem⟩⟩ := ec2_items float c h
  obtain ⟨f, hf, hfarch⟩ := filter_arch float c arch harch hne
  obtain ⟨g, hg, hgcpu⟩ := filter_number float c "cpu" (fun type_ => float.literal type_.cpu) cpu
    hcpu fun type_ htype => float.literal_ge _ (instanceTypes_positive type_ htype)
  obtain ⟨k, hk, hkmem⟩ := filter_number float c "mem" (fun type_ => float.literal type_.mem) mem
    hmem fun type_ _ => float.literal_ge _ (Nat.cast_nonneg _)
  refine ⟨[f, g, k], ?_, fun type_ => ?_⟩
  · simp [getFilters, hf, hg, hk, bind, Except.bind, pure, Except.pure]
  · have harchItem := textItem_of c "arch" arch harch
    simp only [List.foldl_cons, List.foldl_nil, List.mem_filter, and_assoc]
    refine and_congr_right fun htype => ?_
    rw [hfarch, hgcpu type_ htype, hkmem type_ htype]
    constructor
    · rintro ⟨hsupports, hcpuLe, hmemLe⟩
      refine ⟨fun name hname => ?_, fun a ha => ?_, fun _ x hx => ?_, fun _ x hx => ?_⟩
      · rw [hexplicit] at hname
        cases hname
      · exact hsupports a (Except.ok.inj (harchItem.symm.trans ha))
      · exact hcpuLe x (by simpa [hcpu] using hx)
      · exact hmemLe x (by simpa [hmem] using hx)
    · intro hsatisfies
      refine ⟨fun a ha => ?_, fun x hx => ?_, fun x hx => ?_⟩
      · exact hsatisfies.arch a (harchItem.trans (congrArg _ ha))
      · exact hsatisfies.cpu hexplicit x (by rw [hcpu, hx]; rfl)
      · exact hsatisfies.mem hexplicit x (by rw [hmem, hx]; rfl)

variable (config : EC2Config)

theorem getInstanceType_explicit (c : Constraints (ConstraintValue F)) (name : String)
    (hconfig : config.defaultInstanceType = none)
    (hexplicit : textItem c "instance-type" = .ok (some name)) :
    getInstanceType float c config = .ok name := by
  simp [getInstanceType, hconfig, hexplicit, except_mapError_ok, bind, Except.bind, pure, Except.pure]

/-- Without an explicit type, a cheapest one is taken, if there is one. -/
theorem getInstanceType_cheapest (c : Constraints (ConstraintValue F)) (h : AcceptedByEC2 float c)
    (hconfig : config.defaultInstanceType = none)
    (hexplicit : textItem c "instance-type" = .ok none) :
    (∃ type_ ∈ instanceTypes, getInstanceType float c config = .ok type_.name ∧
        Chosen float c type_) ∨
      (∀ type_ ∈ instanceTypes, ¬ Satisfies float c type_) ∧
        ∃ items, getInstanceType float c config = .error (.providerError items) := by
  obtain ⟨filters, hfilters, hmem⟩ := getFilters_spec float c h hexplicit
  cases hsorted : (filters.foldl (fun types f => types.filter f) instanceTypes).insertionSort
      fun a b => a.cost ≤ b.cost with
  | nil =>
    obtain ⟨hregistered, hconvertible⟩ := acceptedByEC2_reads float c h
    obtain ⟨items, hitems⟩ := c.items_returns c.available.registry.keys
      fun name hname => hconvertible name (AList.mem_keys.mpr hname)
    refine Or.inr ⟨fun type_ htype hsatisfies => ?_, items, ?_⟩
    · have hin := (List.mem_insertionSort fun a b => a.cost ≤ b.cost).mpr
        ((hmem type_).mpr ⟨htype, hsatisfies⟩)
      rw [hsorted] at hin
      cases hin
    · simp only [getInstanceType, hconfig, hexplicit, hfilters, hsorted, hitems, except_mapError_ok,
        bind, Except.bind]
      rfl
  | cons cheapest rest =>
    obtain ⟨hcheapest, hle⟩ := cheapest_le _ rest cheapest hsorted
    obtain ⟨htype, hsatisfies⟩ := (hmem cheapest).mp hcheapest
    refine Or.inl ⟨cheapest, htype, ?_, fun name hname => ?_, fun _ => ⟨hsatisfies, ?_⟩⟩
    · simp only [getInstanceType, hconfig, hexplicit, hfilters, hsorted, except_mapError_ok, bind,
        Except.bind]
      rfl
    · exact hsatisfies.explicit name hname
    · intro other hother hsatisfied
      exact hle other ((hmem other).mpr ⟨hother, hsatisfied⟩)

theorem extractAmi_listed (series arch region : String) (hvm : Bool) (rows : List (List String))
    (imageId : String) (h : extractAmi series arch region hvm rows = .ok imageId) :
    ∃ row ∈ rows, row[5]? = some arch ∧ row[7]? = some imageId := by
  have htoken (row : List String) (i : Nat) (t : String) (ht : token row i = .ok t) :
      row[i]? = some t := by
    rw [token] at ht
    cases hrow : row[i]? with
    | none =>
      rw [hrow] at ht
      cases ht
    | some found =>
      rw [hrow] at ht
      rw [Except.ok.inj ht]
  induction rows with
  | nil => cases h
  | cons row rows ih =>
    have hlater (hrest : extractAmi series arch region hvm rows = .ok imageId) :
        ∃ row' ∈ row :: rows, row'[5]? = some arch ∧ row'[7]? = some imageId := by
      obtain ⟨row', hin, hrow'⟩ := ih hrest
      exact ⟨row', List.mem_cons_of_mem _ hin, hrow'⟩
    rw [extractAmi] at h
    obtain ⟨kind, -, h⟩ := except_bind_ok _ _ _ h
    split at h
    · exact hlater h
    split at h
    · cases h
    split at h
    · exact hlater h
    obtain ⟨rowArch, harch, h⟩ := except_bind_ok _ _ _ h
    split at h
    · exact hlater h
    rename_i hother
    obtain rfl := not_ne_iff.mp hother
    obtain ⟨rowRegion, -, h⟩ := except_bind_ok _ _ _ h
    split at h
    · exact hlater h
    exact ⟨row, List.mem_cons_self, htoken row 5 rowArch harch, htoken row 7 imageId h⟩

variable (c : Constraints (ConstraintValue F))
  (getPage : String → Bool → Except String (List (List String)))

/-- A page lists an image under an architecture. -/
def ImageListed (arch imageId : String) : Prop :=
  ∃ series sslVerify rows, getPage series sslVerify = .ok rows ∧
    ∃ row ∈ rows, row[5]? = some arch ∧ row[7]? = some imageId

theorem getMachineSpec_ok (spec : MachineSpec) (hconfig : config.defaultImageId = none)
    (h : getMachineSpec float c getPage config = .ok spec) :
    getInstanceType float c config = .ok spec.instanceType ∧
      ∃ arch, imageArch c = .ok arch ∧ ImageListed getPage arch spec.imageId := by
  obtain ⟨instanceType, htype, h⟩ := except_bind_ok _ _ _ h
  simp only [hconfig] at h
  obtain ⟨series, -, h⟩ := except_bind_ok _ _ _ h
  obtain ⟨arch, harch, h⟩ := except_bind_ok _ _ _ h
  split at h
  · cases h
  · obtain ⟨imageId, himage, h⟩ := except_bind_ok _ _ _ h
    obtain rfl := Except.ok.inj h
    have hami := (mapError_eq_ok _ _ _).mp himage
    refine ⟨htype, arch, (mapError_eq_ok _ _ _).mp harch, ?_⟩
    unfold getCurrentAmi at hami
    split at hami
    · split_ifs at hami
    · rename_i rows hrows
      exact ⟨_, _, rows, hrows, extractAmi_listed _ _ _ _ rows imageId hami⟩

/-- Once there is a type, what is raised is about the image or the configuration. -/
theorem getMachineSpec_provider (instanceType : String)
    (items : List (String × Option (ConstraintValue F)))
    (htype : getInstanceType float c config = .ok instanceType) :
    getMachineSpec float c getPage config ≠ .error (.providerError items) := by
  intro h
  rcases except_bind_error _ _ _ h with herror | ⟨found, -, h⟩
  · rw [htype] at herror
    cases herror
  split at h
  · cases h
  rcases except_bind_error _ _ _ h with hseries | ⟨series, -, h⟩
  · rcases except_bind_error _ _ _ hseries with hitem | ⟨item, -, hseries⟩
    · obtain ⟨e, -, he⟩ := mapError_error _ _ _ hitem
      cases he
    · split at hseries <;> cases hseries
  rcases except_bind_error _ _ _ h with harch | ⟨arch, -, h⟩
  · obtain ⟨e, -, he⟩ := mapError_error _ _ _ harch
    cases he
  split at h
  · cases h
  rcases except_bind_error _ _ _ h with hami | ⟨imageId, -, h⟩
  · obtain ⟨e, -, he⟩ := mapError_error _ _ _ hami
    cases he
  · cases h

/-- The type is the one asked for or a cheapest one, the image is listed under an architecture of
it, and constraints that no type satisfies are refused. -/
structure CoherentSpecs : Prop where
  chosen : ∀ spec, getMachineSpec float c getPage config = .ok spec →
    ∃ type_ ∈ instanceTypes, type_.name = spec.instanceType ∧ Chosen float c type_ ∧
      ∃ arch, imageArch c = .ok arch ∧ type_.Supports arch ∧ ImageListed getPage arch spec.imageId
  unsatisfied : (∀ type_ ∈ instanceTypes, ¬ Satisfies float c type_) →
    ∃ items, getMachineSpec float c getPage config = .error (.providerError items)

/-- An explicit type can be started as an explicit architecture. -/
def ExplicitTypeStarts : Prop :=
  ∀ name arch, textItem c "instance-type" = .ok (some name) → textItem c "arch" = .ok (some arch) →
    ∃ type_, lookupType name = some type_ ∧
      archMatch (.text type_.arch) (.text arch : ConstraintValue F) = true

theorem imageArch_supported (h : AcceptedByEC2 float c) (type_ : InstanceType)
    (htype : type_ ∈ instanceTypes)
    (harch : ∀ arch, textItem c "arch" = .ok (some arch) → type_.Supports arch) (arch : String)
    (himage : imageArch c = .ok arch) : type_.Supports arch := by
  obtain ⟨⟨v, hv, hne⟩, -⟩ := ec2_items float c h
  have hitem := textItem_of c "arch" v hv
  rw [imageArch, hitem] at himage
  cases v with
  | none =>
    obtain rfl := Except.ok.inj himage
    exact instanceTypes_amd64 type_ htype
  | some found =>
    have hfound : found ≠ "" := fun hempty => hne (congrArg some hempty)
    obtain rfl : found = arch := by
      simpa [bind, Except.bind, pure, Except.pure, Option.filter, hfound] using himage
    exact harch found hitem

/-- Specifications are coherent just when an explicit type can be started as an explicit
architecture: that is not checked. -/
theorem coherentSpecs_iff (h : AcceptedByEC2 float c)
    (hconfig : config.defaultInstanceType = none ∧ config.defaultImageId = none) :
    CoherentSpecs float config c getPage ↔ ExplicitTypeStarts c := by
  obtain ⟨-, ⟨v, hv, hknown⟩, -⟩ := ec2_items float c h
  have hitem := textItem_of c "instance-type" v hv
  constructor
  · intro hcoherent name arch hname harch
    have htype := getInstanceType_explicit float config c name hconfig.1 hname
    by_contra hstarts
    have hunsatisfied : ∀ type_ ∈ instanceTypes, ¬ Satisfies float c type_ := by
      intro type_ hin hsatisfies
      refine hstarts ⟨type_, ?_, (archMatch_iff type_ arch).mpr (hsatisfies.arch arch harch)⟩
      rw [← hsatisfies.explicit name hname]
      exact lookupType_of type_ hin
    obtain ⟨items, hitems⟩ := hcoherent.unsatisfied hunsatisfied
    exact getMachineSpec_provider float config c getPage name items htype hitems
  · intro hstarts
    have hsupports (type_ : InstanceType) (hin : type_ ∈ instanceTypes)
        (harch : ∀ arch, textItem c "arch" = .ok (some arch) → type_.Supports arch)
        (spec : MachineSpec) (hspec : getMachineSpec float c getPage config = .ok spec) :
        ∃ arch, imageArch c = .ok arch ∧ type_.Supports arch ∧
          ImageListed getPage arch spec.imageId := by
      obtain ⟨-, arch, himage, hlisted⟩ := getMachineSpec_ok float config c getPage spec hconfig.2
        hspec
      exact ⟨arch, himage, imageArch_supported float c h type_ hin harch arch himage, hlisted⟩
    cases v with
    | some name =>
      obtain ⟨type_, hin, rfl⟩ := hknown name rfl
      have hsupported (arch : String) (harch : textItem c "arch" = .ok (some arch)) :
          type_.Supports arch := by
        obtain ⟨found, hfound, hmatch⟩ := hstarts type_.name arch hitem harch
        obtain rfl := Option.some.inj ((lookupType_of type_ hin).symm.trans hfound)
        exact (archMatch_iff type_ arch).mp hmatch
      have hname (other : String) (hother : textItem c "instance-type" = .ok (some other)) :
          type_.name = other := Option.some.inj (Except.ok.inj (hitem.symm.trans hother))
      have hnot : textItem c "instance-type" ≠ .ok none := by simp [hitem]
      have htype := getInstanceType_explicit float config c type_.name hconfig.1 hitem
      refine ⟨fun spec hspec => ?_, fun hunsatisfied => ?_⟩
      · obtain ⟨hspecType, -⟩ := getMachineSpec_ok float config c getPage spec hconfig.2 hspec
        refine ⟨type_, hin, Except.ok.inj (htype.symm.trans hspecType), ⟨hname, fun hnone => ?_⟩,
          hsupports type_ hin hsupported spec hspec⟩
        exact absurd hnone hnot
      · exact absurd ⟨hname, hsupported, fun hnone => absurd hnone hnot,
          fun hnone => absurd hnone hnot⟩ (hunsatisfied type_ hin)
    | none =>
      rcases getInstanceType_cheapest float config c h hconfig.1 hitem with
        ⟨type_, hin, htype, hchosen⟩ | ⟨hnone, items, herror⟩
      · obtain ⟨hsatisfies, -⟩ := hchosen.cheapest hitem
        refine ⟨fun spec hspec => ?_, fun hunsatisfied => absurd hsatisfies (hunsatisfied type_ hin)⟩
        obtain ⟨hspecType, -⟩ := getMachineSpec_ok float config c getPage spec hconfig.2 hspec
        exact ⟨type_, hin, Except.ok.inj (htype.symm.trans hspecType), hchosen,
          hsupports type_ hin hsatisfies.arch spec hspec⟩
      · refine ⟨fun spec hspec => ?_, fun _ => ⟨items, ?_⟩⟩
        · obtain ⟨hspecType, -⟩ := getMachineSpec_ok float config c getPage spec hconfig.2 hspec
          rw [herror] at hspecType
          cases hspecType
        · rw [getMachineSpec, herror]
          rfl

end ec2

section examples

/-- Fractions, as floats are on what is written below. -/
def rationalFloat : PythonFloat ℚ where
  parse s :=
    if s = "1" then .ok 1
    else if s = "512" then .ok 512
    else .error "could not convert string to float"
  times x n := x * n
  ge x y := decide (y ≤ x)
  zero := 0
  ge_self x _ := decide_eq_true (le_refl x)
  literal q := q
  ge_trans x y z hxy hyz :=
    decide_eq_true ((of_decide_eq_true hyz).trans (of_decide_eq_true hxy))
  literal_ge q hq := decide_eq_true hq
  cpu_default := ⟨1, by decide⟩
  mem_default := ⟨512, by decide +kernel⟩

/-- What `load` makes of an instance type and an architecture. -/
def typeAndArch (instanceType arch : String) :
    Except ConstraintError (Constraints (ConstraintValue ℚ)) := do
  let cs ← (Provider.ec2 (instanceTypes.map InstanceType.name)).constraintSet
    rationalFloat.toFloatType
  cs.load ((AList.singleton "instance-type" (some instanceType)).insert "arch" (some arch)
    |>.insert "cpu" none |>.insert "mem" none |>.insert "provider-type" (some "ec2")
    |>.insert "ubuntu-series" (some "precise"))

/-- One image for each architecture. -/
def imagePage (_series : String) (_sslVerify : Bool) : Except String (List (List String)) :=
  .ok [["precise", "server", "release", "20120424", "ebs", "amd64", "us-east-1", "ami-a29943cb"],
    ["precise", "server", "release", "20120424", "ebs", "i386", "us-east-1", "ami-ac9943c5"]]

def plainConfig : EC2Config := ⟨none, none, none, none, false⟩

theorem typeAndArch_accepted (instanceType arch : String) (c : Constraints (ConstraintValue ℚ))
    (h : typeAndArch instanceType arch = .ok c) : AcceptedByEC2 rationalFloat c := by
  obtain ⟨cs, hcs, hload⟩ := except_bind_ok _ _ _ h
  exact ⟨cs, hcs, .load _ c hload⟩

theorem coherentSpecs_small : ∃ c, typeAndArch "m1.small" "i386" = .ok c ∧
    CoherentSpecs rationalFloat plainConfig c imagePage := by
  have hitems : (typeAndArch "m1.small" "i386").map
      (fun c => (textItem c "instance-type", textItem c "arch")) =
        .ok (.ok (some "m1.small"), .ok (some "i386")) := by decide
  cases hc : typeAndArch "m1.small" "i386" with
  | error e =>
    rw [hc] at hitems
    cases hitems
  | ok c =>
    rw [hc] at hitems
    obtain ⟨hsmall, hi386⟩ := Prod.mk.inj (Except.ok.inj hitems)
    refine ⟨c, rfl, (coherentSpecs_iff rationalFloat plainConfig c imagePage
      (typeAndArch_accepted _ _ c hc) ⟨rfl, rfl⟩).mpr fun name arch hname harch => ?_⟩
    obtain rfl : "m1.small" = name := Option.some.inj (Except.ok.inj (hsmall.symm.trans hname))
    obtain rfl : "i386" = arch := Option.some.inj (Except.ok.inj (hi386.symm.trans harch))
    exact ⟨⟨"m1.small", eitherArch, 1, 1740, 0.08, false⟩, rfl, by decide⟩

/-- An m1.large, which is an amd64 type, is given an i386 image. -/
theorem large_i386 :
    ¬ ∀ (c : Constraints (ConstraintValue ℚ)) (config : EC2Config)
        (getPage : String → Bool → Except String (List (List String))),
      AcceptedByEC2 rationalFloat c →
      config.defaultInstanceType = none ∧ config.defaultImageId = none →
      CoherentSpecs rationalFloat config c getPage := by
  intro h
  have hspec : (typeAndArch "m1.large" "i386").map
      (fun c => (getMachineSpec rationalFloat c imagePage plainConfig, imageArch c)) =
        .ok (.ok ⟨"m1.large", "ami-ac9943c5"⟩, .ok "i386") := by decide
  cases hc : typeAndArch "m1.large" "i386" with
  | error e =>
    rw [hc] at hspec
    cases hspec
  | ok c =>
    rw [hc] at hspec
    obtain ⟨hlarge, hi386⟩ := Prod.mk.inj (Except.ok.inj hspec)
    obtain ⟨type_, hin, hname, -, arch, harch, hsupports, -⟩ :=
      (h c plainConfig imagePage (typeAndArch_accepted _ _ c hc) ⟨rfl, rfl⟩).chosen _ hlarge
    obtain rfl : "i386" = arch := Except.ok.inj (hi386.symm.trans harch)
    have hamd64 : ∀ type_ ∈ instanceTypes, type_.name = "m1.large" → ¬ type_.Supports "i386" := by
      decide
    exact hamd64 type_ hin hname hsupports

end examples

end Juju.Machine

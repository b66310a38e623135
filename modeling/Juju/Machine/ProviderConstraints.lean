import Juju.Machine.Constraints

namespace Juju.Machine
open Juju.Base

/-- What the converters and comparers use of `float`: a value that is at least zero is at least
itself. -/
structure FloatType (F : Type) where
  parse : String → Except String F
  times : F → Nat → F
  ge : F → F → Bool
  zero : F
  ge_self : ∀ x, ge x zero = true → ge x x = true

/-- The values that constraints convert to. -/
inductive ConstraintValue (F : Type) where
  | text (s : String)
  | number (x : F)
  | classes (names : List String)
  deriving DecidableEq

section converters

variable {F : Type} (float : FloatType F)

def convertArch (s : String) : Except ConverterError (Option (ConstraintValue F)) :=
  if s ∈ ["i386", "amd64", "arm"] then .ok (some (.text s))
  else .error (.valueError "unknown architecture")

def nonNegative (value : Except String F) : Except ConverterError (Option (ConstraintValue F)) :=
  match value with
  | .error text => .error (.valueError text)
  | .ok x =>
    if float.ge x float.zero then .ok (some (.number x))
    else .error (.valueError "must be non-negative")

def convertCpu (s : String) : Except ConverterError (Option (ConstraintValue F)) :=
  nonNegative float (float.parse s)

def memSuffix : Char → Option Nat
  | 'M' => some 1
  | 'G' => some 1024
  | 'T' => some (1024 * 1024)
  | _ => none

def convertMem (s : String) : Except ConverterError (Option (ConstraintValue F)) :=
  match s.toList.getLast? with
  | none => .error (.otherError "string index out of range")
  | some c =>
    match memSuffix c with
    | some factor =>
      nonNegative float ((float.parse (String.ofList s.toList.dropLast)).map fun x =>
        float.times x factor)
    | none => nonNegative float (float.parse s)

/-- `operator.ge` of numbers. -/
def compareNumbers : ConstraintValue F → ConstraintValue F → Bool
  | .number candidate, .number benchmark => float.ge candidate benchmark
  | _, _ => false

def convertInstanceType (instanceTypeNames : List String) (s : String) :
    Except ConverterError (Option (ConstraintValue F)) :=
  if s ∈ instanceTypeNames then .ok (some (.text s))
  else .error (.valueError "unknown instance type")

def convertZone (s : String) : Except ConverterError (Option (ConstraintValue F)) :=
  match s.toLower.toList with
  | [c] =>
    if c.isLower then .ok (some (.text s.toLower))
    else .error (.valueError "expected single ascii letter")
  | _ => .error (.valueError "expected single ascii letter")

def requirePrecise (s : String) : Except ConverterError (Option (ConstraintValue F)) :=
  if s = "precise" then .ok (some (.text s))
  else .error (.valueError "MAAS currently only provisions machines running precise")

/-- `_convert_classes`, where `split` gives the names between commas, stripped and not empty. -/
def convertClasses (split : String → List String) (reserved : List String) (s : String) :
    Except ConverterError (Option (ConstraintValue F)) :=
  match (split s).find? fun mgmtClass => mgmtClass ∈ reserved with
  | some mgmtClass => .error (.valueError mgmtClass)
  | none => if split s = [] then .ok none else .ok (some (.classes (split s)))

def compareClasses : ConstraintValue F → ConstraintValue F → Bool
  | .classes candidate, .classes benchmark => benchmark.all fun name => decide (name ∈ candidate)
  | _, _ => false

end converters

section sets

variable {F : Type} [DecidableEq F] (float : FloatType F)

/-- `operator.eq`. -/
def compareEqual (candidate benchmark : ConstraintValue F) : Bool := decide (candidate = benchmark)

namespace ConstraintSet

def registerGenerics (cs : ConstraintSet (ConstraintValue F)) (instanceTypeNames : List String) :
    Except ConstraintError (ConstraintSet (ConstraintValue F)) :=
  let generics := cs.register ⟨"arch", some "amd64", convertArch, compareEqual, true⟩
    |>.register ⟨"cpu", some "1", convertCpu float, compareNumbers float, true⟩
    |>.register ⟨"mem", some "512M", convertMem float, compareNumbers float, true⟩
  if instanceTypeNames = [] then pure generics
  else (generics.register ⟨"instance-type", none, convertInstanceType instanceTypeNames,
    compareEqual, true⟩).registerConflicts ["cpu", "mem"] ["instance-type"]

end ConstraintSet

/-- The providers, with what their constraints depend on. -/
inductive Provider where
  | dummy
  | ec2 (instanceTypeNames : List String)
  | localProvider
  | maas
  | orchestra (split : String → List String) (reserved : List String)

/-- `get_constraint_set`. -/
def Provider.constraintSet : Provider → Except ConstraintError (ConstraintSet (ConstraintValue F))
  | .dummy => (ConstraintSet.new .text "dummy").registerGenerics float []
  | .ec2 instanceTypeNames => do
    let cs ← (ConstraintSet.new .text "ec2").registerGenerics float instanceTypeNames
    pure (cs.register ⟨"ec2-zone", none, convertZone, compareEqual, true⟩)
  | .localProvider => pure (ConstraintSet.new .text "local")
  | .maas => pure ((ConstraintSet.new .text "maas").register
      ⟨"ubuntu-series", none, requirePrecise, compareEqual, false⟩
    |>.register (.plain .text "maas-name" none true))
  | .orchestra split reserved => pure ((ConstraintSet.new .text "orchestra").register
      ⟨"orchestra-classes", none, convertClasses split reserved, compareClasses, true⟩)

end sets

/-- A value that a constraint converts to satisfies itself. -/
def ConstraintType.AcceptsOwn {V : Type} (constraint : ConstraintType V) : Prop :=
  ∀ s v, constraint.converter s = .ok (some v) → constraint.comparer v v = true

namespace ConstraintSet

variable {V : Type}

def AcceptsOwn (cs : ConstraintSet V) : Prop :=
  ∀ name constraint, cs.registry.lookup name = some constraint → constraint.AcceptsOwn

theorem acceptsOwn_register (cs : ConstraintSet V) (constraint : ConstraintType V)
    (h : cs.AcceptsOwn) (hconstraint : constraint.AcceptsOwn) :
    (cs.register constraint).AcceptsOwn := by
  intro name other hlookup
  rw [register, Dict.lookup_insert] at hlookup
  split at hlookup
  · obtain rfl := Option.some.inj hlookup
    exact hconstraint
  · exact h name other hlookup

theorem acceptsOwn_addConflicts (others names : List String) (cs cs' : ConstraintSet V)
    (h : cs.AcceptsOwn) (hadd : addConflicts others names cs = .ok cs') : cs'.AcceptsOwn := by
  induction names generalizing cs with
  | nil =>
    injection hadd with hadd
    exact hadd ▸ h
  | cons name names ih =>
    unfold addConflicts at hadd
    split at hadd
    · cases hadd
    · rename_i conflicts _
      have hrest : ConstraintSet.AcceptsOwn { cs with
          conflicts := cs.conflicts.insert name (conflicts ∪ others) } := h
      exact ih _ hrest hadd

theorem acceptsOwn_registerConflicts (cs cs' : ConstraintSet V) (reds blues : List String)
    (h : cs.AcceptsOwn) (hregister : cs.registerConflicts reds blues = .ok cs') :
    cs'.AcceptsOwn := by
  obtain ⟨cs₁, hreds, hblues⟩ := except_bind_ok _ _ _ hregister
  exact acceptsOwn_addConflicts _ _ _ _ (acceptsOwn_addConflicts _ _ _ _ h hreds) hblues

theorem acceptsOwn_new [DecidableEq V] (text : String → V) (providerType : String) :
    (new text providerType).AcceptsOwn := by
  have hplain (name : String) : (ConstraintType.plain text name none false).AcceptsOwn :=
    fun _ _ _ => decide_eq_true rfl
  have hempty : (ConstraintSet.mk (V := V) providerType ∅ ∅).AcceptsOwn := nofun
  exact acceptsOwn_register _ _ (acceptsOwn_register _ _ hempty (hplain _)) (hplain _)

end ConstraintSet

section accepts

variable {F : Type} (float : FloatType F)

theorem acceptsOwn_numbers (name : String) (default : Option String) (visible : Bool)
    (converter : String → Except ConverterError (Option (ConstraintValue F)))
    (hconverter : ∀ s v, converter s = .ok (some v) →
      ∃ value, nonNegative float value = .ok (some v)) :
    ConstraintType.AcceptsOwn
      ⟨name, default, converter, compareNumbers float, visible⟩ := by
  intro s v hv
  obtain ⟨value, hvalue⟩ := hconverter s v hv
  cases value with
  | error text => cases hvalue
  | ok x =>
    rw [nonNegative] at hvalue
    split at hvalue
    · rename_i hx
      injection hvalue with hvalue
      obtain rfl := Option.some.inj hvalue
      exact float.ge_self x hx
    · cases hvalue

theorem acceptsOwn_mem : ConstraintType.AcceptsOwn
    ⟨"mem", some "512M", convertMem float, compareNumbers float, true⟩ := by
  refine acceptsOwn_numbers float _ _ _ _ fun s v hv => ?_
  unfold convertMem at hv
  split at hv
  · cases hv
  · split at hv <;> exact ⟨_, hv⟩

variable [DecidableEq F]

theorem acceptsOwn_generics (cs cs' : ConstraintSet (ConstraintValue F))
    (instanceTypeNames : List String) (h : cs.AcceptsOwn)
    (hregister : cs.registerGenerics float instanceTypeNames = .ok cs') : cs'.AcceptsOwn := by
  have harch := ConstraintSet.acceptsOwn_register cs
    ⟨"arch", some "amd64", convertArch, compareEqual, true⟩ h fun _ _ _ => decide_eq_true rfl
  have hcpu := ConstraintSet.acceptsOwn_register _
    ⟨"cpu", some "1", convertCpu float, compareNumbers float, true⟩ harch
    (acceptsOwn_numbers float _ _ _ _ fun s _ hv => ⟨float.parse s, hv⟩)
  have hmem := ConstraintSet.acceptsOwn_register _ _ hcpu (acceptsOwn_mem float)
  unfold ConstraintSet.registerGenerics at hregister
  split at hregister
  · injection hregister with hregister
    exact hregister ▸ hmem
  · refine ConstraintSet.acceptsOwn_registerConflicts _ _ _ _ ?_ hregister
    exact ConstraintSet.acceptsOwn_register _ _ hmem fun _ _ _ => decide_eq_true rfl

/-- Every provider registers constraints of which a converted value satisfies itself. -/
theorem provider_acceptsOwn (provider : Provider) (cs : ConstraintSet (ConstraintValue F))
    (h : provider.constraintSet float = .ok cs) : cs.AcceptsOwn := by
  have hnew := ConstraintSet.acceptsOwn_new (ConstraintValue.text (F := F))
  cases provider with
  | dummy => exact acceptsOwn_generics float _ _ [] (hnew "dummy") h
  | ec2 instanceTypeNames =>
    obtain ⟨generics, hgenerics, hcs⟩ := except_bind_ok _ _ _ h
    injection hcs with hcs
    subst hcs
    exact ConstraintSet.acceptsOwn_register _ _
      (acceptsOwn_generics float _ _ _ (hnew _) hgenerics) fun _ _ _ => decide_eq_true rfl
  | localProvider =>
    injection h with h
    exact h ▸ hnew _
  | maas =>
    injection h with h
    subst h
    exact ConstraintSet.acceptsOwn_register _ _ (ConstraintSet.acceptsOwn_register _ _ (hnew _)
      fun _ _ _ => decide_eq_true rfl) fun _ _ _ => decide_eq_true rfl
  | orchestra split reserved =>
    injection h with h
    subst h
    refine ConstraintSet.acceptsOwn_register _ _ (hnew _) fun s v hv => ?_
    have hconverts : convertClasses split reserved s = .ok (some v) := hv
    unfold convertClasses at hconverts
    split at hconverts
    · cases hconverts
    · split at hconverts
      · cases hconverts
      · injection hconverts with hconverts
        obtain rfl := Option.some.inj hconverts
        have hown :
            compareClasses (.classes (split s) : ConstraintValue F) (.classes (split s)) = true := by
          simp [compareClasses]
        exact hown

end accepts

namespace Constraints

variable {V : Type}

theorem items_ok (c : Constraints V) (names : List String) (items : List (String × Option V))
    (h : c.items names = .ok items) (name : String) (value : Option V)
    (hin : (name, value) ∈ items) : c.getItem name = .ok value := by
  induction names generalizing items with
  | nil =>
    injection h with h
    subst h
    cases hin
  | cons name₁ names ih =>
    obtain ⟨value₁, hvalue, h⟩ := except_bind_ok _ _ _ h
    obtain ⟨rest, hrest, h⟩ := except_bind_ok _ _ _ h
    injection h with h
    subst h
    rcases List.mem_cons.mp hin with hfirst | hlater
    · injection hfirst with hname hval
      rw [hname, hval, hvalue]
    · exact ih rest hrest hlater

theorem getItem_some (c : Constraints V) (name : String) (v : V)
    (h : c.getItem name = .ok (some v)) :
    ∃ constraint s, c.available.registry.lookup name = some constraint ∧
      constraint.converter s = .ok (some v) := by
  unfold getItem at h
  split at h
  · cases h
  · rename_i constraint hlookup
    unfold ConstraintType.convert at h
    split at h
    · cases h
    · rename_i s _
      split at h
      · rename_i value hvalue
        injection h with h
        exact ⟨constraint, s, hlookup, h ▸ hvalue⟩
      · cases h
      · cases h

theorem satisfiesItems_own (c : Constraints V) (haccepts : c.available.AcceptsOwn)
    (items : List (String × Option V))
    (h : ∀ name value, (name, value) ∈ items → c.getItem name = .ok value) :
    c.satisfiesItems items = .ok true := by
  induction items with
  | nil => rfl
  | cons item items ih =>
    have hrest := ih fun name value hin => h name value (List.mem_cons_of_mem _ hin)
    obtain ⟨name, value⟩ := item
    cases value with
    | none => exact hrest
    | some v =>
      have hitem := h name (some v) List.mem_cons_self
      obtain ⟨constraint, s, hlookup, hconverts⟩ := getItem_some c name v hitem
      have haccept := haccepts name constraint hlookup s v hconverts
      simp only [satisfiesItems, hitem, hlookup, bind, Except.bind, haccept, if_true, hrest]

/-- Complete constraints satisfy themselves. -/
theorem canSatisfy_own (c : Constraints V) (haccepts : c.available.AcceptsOwn)
    (hcomplete : c.complete = .ok true) (b : Bool) (h : c.canSatisfy c = .ok b) : b = true := by
  unfold canSatisfy at h
  obtain ⟨machineComplete, hmachine, h⟩ := except_bind_ok _ _ _ h
  rw [hcomplete] at hmachine
  injection hmachine with hmachine
  subst hmachine
  obtain ⟨unitComplete, hunit, h⟩ := except_bind_ok _ _ _ h
  rw [hcomplete] at hunit
  injection hunit with hunit
  subst hunit
  obtain ⟨items, hitems, h⟩ := except_bind_ok _ _ _ h
  rw [satisfiesItems_own c haccepts items (items_ok c _ items hitems)] at h
  injection h with h
  exact h.symm

end Constraints

end Juju.Machine

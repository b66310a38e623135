import Mathlib.Data.List.Sort
import Mathlib.Data.Rat.Init
import Mathlib.Algebra.Order.Ring.Rat
import Juju.Machine.ProviderConstraints

namespace Juju.Machine
open Juju.Base

variable {F : Type}

/-- What the table of instance types and the defaults of constraints use of `float`: literals of
numbers that are not negative are at least zero, and what the defaults are converted from is
accepted. -/
structure PythonFloat (F : Type) extends FloatType F where
  literal : ℚ → F
  ge_trans : ∀ x y z, ge x y = true → ge y z = true → ge x z = true
  literal_ge : ∀ q, 0 ≤ q → ge (literal q) zero = true
  cpu_default : ∃ x, parse "1" = .ok x ∧ ge x zero = true
  mem_default : ∃ x, parse "512" = .ok x ∧ ge (times x 1) zero = true

structure InstanceType where
  name : String
  arch : String
  cpu : ℚ
  mem : ℕ
  cost : ℚ
  hvm : Bool
deriving DecidableEq

/-- Some instance types can be started as i386 or amd64. -/
def eitherArch : String := "?"

def instanceTypes : List InstanceType := [
  ⟨"t1.micro", eitherArch, 0.1, 613, 0.02, false⟩,
  ⟨"m1.small", eitherArch, 1, 1740, 0.08, false⟩,
  ⟨"m1.medium", eitherArch, 2, 3840, 0.16, false⟩,
  ⟨"m1.large", "amd64", 4, 7680, 0.32, false⟩,
  ⟨"m1.xlarge", "amd64", 8, 15360, 0.64, false⟩,
  ⟨"m2.xlarge", "amd64", 6.5, 17510, 0.45, false⟩,
  ⟨"m2.2xlarge", "amd64", 13, 35020, 0.9, false⟩,
  ⟨"m2.4xlarge", "amd64", 26, 70040, 1.8, false⟩,
  ⟨"c1.medium", eitherArch, 5, 1740, 0.165, false⟩,
  ⟨"c1.xlarge", "amd64", 20, 7168, 0.66, false⟩,
  ⟨"cc1.4xlarge", "amd64", 33.5, 23552, 1.3, true⟩,
  ⟨"cc2.8xlarge", "amd64", 88, 61952, 2.4, true⟩,
  ⟨"cg1.4xlarge", "amd64", 33.5, 22528, 2.1, true⟩]

def defaultRegion : String := "us-east-1"

def lookupType (name : String) : Option InstanceType :=
  instanceTypes.find? fun type_ => type_.name = name

/-- What the keys of the provider's configuration have. -/
structure EC2Config where
  defaultInstanceType : Option String
  defaultImageId : Option String
  defaultSeries : Option String
  region : Option String
  sslHostnameVerification : Bool

structure MachineSpec where
  instanceType : String
  imageId : String
deriving DecidableEq

/-- What `get_current_ami` raises. -/
inductive ImageError where
  | lookupError (series arch region : String)
  | noHvmImages (series : String)
  | indexError
  | pageError (status : String)
deriving DecidableEq

inductive SpecError (F : Type) where
  | constraintError (e : ConstraintError)
  /-- No instance type satisfies the constraints, which are the items. -/
  | providerError (items : List (String × Option (ConstraintValue F)))
  | keyError (name : String)
  | imageError (e : ImageError)
deriving DecidableEq

section images

/-- `tokens[i]` -/
def token (tokens : List String) (i : Nat) : Except ImageError String :=
  match tokens[i]? with
  | some t => pure t
  | none => throw .indexError

def requiredKind (hvm : Bool) : String := if hvm then "hvm" else "paravirtual"

/-- The loop of `extract_ami` over the rows of the page. -/
def extractAmi (series arch region : String) (hvm : Bool) :
    List (List String) → Except ImageError String
  | [] => throw (.lookupError series arch region)
  | tokens :: rows => do
    if (← token tokens 4) ≠ "ebs" then extractAmi series arch region hvm rows
    else if tokens.length ≤ 10 && hvm then throw (.noHvmImages series)
    else if 10 < tokens.length && tokens[10]? ≠ some (requiredKind hvm) then
      extractAmi series arch region hvm rows
    else if (← token tokens 5) ≠ arch then extractAmi series arch region hvm rows
    else if (← token tokens 6) ≠ region then extractAmi series arch region hvm rows
    else token tokens 7

variable (getPage : String → Bool → Except String (List (List String)))

/-- `getPage` gives the rows that `csv.reader` reads from the page of a series, or the status of the
error. -/
def getCurrentAmi (series arch region : String) (hvm sslVerify : Bool) :
    Except ImageError String :=
  match getPage series sslVerify with
  | .error status =>
    if status = "404" then throw (.lookupError series arch region) else throw (.pageError status)
  | .ok rows => extractAmi series arch region hvm rows

end images

section types

variable [DecidableEq F] (float : PythonFloat F)

def archMatch (actual desired : ConstraintValue F) : Bool :=
  if actual = desired then true
  else if actual = .text eitherArch then
    decide (desired ∈ [ConstraintValue.text "i386", .text "amd64"])
  else false

/-- `not value` -/
def falsy : ConstraintValue F → Bool
  | .text s => decide (s = "")
  | .number x => float.ge x float.zero && float.ge float.zero x
  | .classes names => decide (names = [])

variable (constraints : Constraints (ConstraintValue F))

def filterFunc (name : String) (value : InstanceType → ConstraintValue F)
    (op : ConstraintValue F → ConstraintValue F → Bool) :
    Except ConstraintError (InstanceType → Bool) := do
  match ← constraints.getItem name with
  | none => pure fun _ => true
  | some desired =>
    if falsy float desired then pure fun _ => true
    else pure fun type_ => op (value type_) desired

def getFilters : Except ConstraintError (List (InstanceType → Bool)) := do
  let arch ← filterFunc float constraints "arch" (fun type_ => .text type_.arch) archMatch
  let cpu ← filterFunc float constraints "cpu" (fun type_ => .number (float.literal type_.cpu))
    (compareNumbers float.toFloatType)
  let mem ← filterFunc float constraints "mem" (fun type_ => .number (float.literal type_.mem))
    (compareNumbers float.toFloatType)
  pure [arch, cpu, mem]

/-- The constraints that convert to texts. -/
def textItem (name : String) : Except ConstraintError (Option String) := do
  match ← constraints.getItem name with
  | some (.text s) => pure (some s)
  | _ => pure none

def getInstanceType (config : EC2Config) : Except (SpecError F) String :=
  match config.defaultInstanceType with
  | some instanceType => pure instanceType
  | none => do
    match ← (textItem constraints "instance-type").mapError .constraintError with
    | some instanceType => pure instanceType
    | none =>
      let filters ← (getFilters float constraints).mapError .constraintError
      let possibleTypes := filters.foldl (fun types f => types.filter f) instanceTypes
      match possibleTypes.insertionSort fun a b => a.cost ≤ b.cost with
      | [] =>
        let items ← (constraints.items constraints.available.registry.keys).mapError
          .constraintError
        throw (.providerError items)
      | cheapest :: _ => pure cheapest.name

/-- `constraints["arch"] or "amd64"` -/
def imageArch : Except ConstraintError String := do
  let arch ← textItem constraints "arch"
  pure ((arch.filter fun arch => arch ≠ "").getD "amd64")

/-- `constraints["ubuntu-series"] or config["default-series"]` -/
def imageSeries (config : EC2Config) : Except (SpecError F) String := do
  let series ← (textItem constraints "ubuntu-series").mapError .constraintError
  match series.filter (fun series => series ≠ ""), config.defaultSeries with
  | some series, _ => pure series
  | none, some series => pure series
  | none, none => throw (.keyError "default-series")

variable (getPage : String → Bool → Except String (List (List String)))

def getMachineSpec (config : EC2Config) : Except (SpecError F) MachineSpec := do
  let instanceType ← getInstanceType float constraints config
  match config.defaultImageId with
  | some imageId => pure ⟨instanceType, imageId⟩
  | none =>
    let series ← imageSeries constraints config
    let arch ← (imageArch constraints).mapError .constraintError
    match lookupType instanceType with
    | none => throw (.keyError instanceType)
    | some type_ =>
      let imageId ← (getCurrentAmi getPage series arch (config.region.getD defaultRegion) type_.hvm
        config.sslHostnameVerification).mapError .imageError
      pure ⟨instanceType, imageId⟩

end types

end Juju.Machine

import Juju.Base.Dict
import Juju.Base.StateExcept
import Mathlib.Data.List.Sort
import Mathlib.Data.String.Basic

namespace Juju.Machine
open Juju.Base

/-- What a converter raises. -/
inductive ConverterError where
  | valueError (text : String)
  | otherError (text : String)
  deriving DecidableEq

inductive ConstraintError where
  | unknownConstraint (name : String)
  | couldNotInterpret (setting : String)
  | badConstraint (name value text : String)
  | computedConstraint (name : String)
  | ambiguousConstraints (name conflict : String)
  | incompleteConstraints
  | keyError (name : String)
  | converterRaised (text : String)
  deriving DecidableEq

/-- A constraint with values in `V`; a default, or a converted value, of None is `none`. -/
structure ConstraintType (V : Type) where
  name : String
  default : Option String
  converter : String → Except ConverterError (Option V)
  comparer : V → V → Bool
  visible : Bool

structure ConstraintSet (V : Type) where
  providerType : String
  registry : Dict String (ConstraintType V)
  conflicts : Dict String (List String)

/-- A layer of raw values, in which a masked constraint has the value None. -/
structure Constraints (V : Type) where
  available : ConstraintSet V
  data : Dict String (Option String)

namespace ConstraintType

variable {V : Type}

/-- A constraint registered with a name, a default and a visibility alone: `text` is
`_dont_convert`. -/
def plain [DecidableEq V] (text : String → V) (name : String) (default : Option String)
    (visible : Bool) : ConstraintType V :=
  ⟨name, default, fun s => .ok (some (text s)),
    fun candidate benchmark => decide (candidate = benchmark), visible⟩

def convert (constraint : ConstraintType V) : Option String → Except ConstraintError (Option V)
  | none => pure none
  | some s =>
    match constraint.converter s with
    | .ok value => pure value
    | .error (.valueError text) => throw (.badConstraint constraint.name s text)
    | .error (.otherError text) => throw (.converterRaised text)

/-- The raw value that a setting's text stands for. -/
def settingValue (constraint : ConstraintType V) (value : String) : Option String :=
  if value = "any" then none
  else if value = "" then constraint.default
  else some value

end ConstraintType

variable {V : Type}

/-- `s.split("=", 1)`, where that gives a name and a value. -/
def splitSetting (s : String) : Option (String × String) :=
  match s.toList.span (· ≠ '=') with
  | (_, []) => none
  | (name, _ :: value) => some (String.ofList name, String.ofList value)

namespace ConstraintSet

def register (cs : ConstraintSet V) (constraint : ConstraintType V) : ConstraintSet V :=
  { cs with
    registry := cs.registry.insert constraint.name constraint
    conflicts := cs.conflicts.insert constraint.name [] }

/-- The constraints that every set has. -/
def new [DecidableEq V] (text : String → V) (providerType : String) : ConstraintSet V :=
  (ConstraintSet.mk providerType ∅ ∅).register (.plain text "ubuntu-series" none false)
    |>.register (.plain text "provider-type" none false)

def conflictsOf (cs : ConstraintSet V) (name : String) : List String :=
  (cs.conflicts.lookup name).getD []

/-- `self._conflicts[name].update(others)` for each of the names. -/
def addConflicts (others : List String) :
    List String → ConstraintSet V → Except ConstraintError (ConstraintSet V)
  | [], cs => pure cs
  | name :: names, cs =>
    match cs.conflicts.lookup name with
    | none => throw (.keyError name)
    | some conflicts =>
      addConflicts others names
        { cs with conflicts := cs.conflicts.insert name (conflicts ∪ others) }

def registerConflicts (cs : ConstraintSet V) (reds blues : List String) :
    Except ConstraintError (ConstraintSet V) := do
  let cs ← addConflicts blues reds cs
  addConflicts reds blues cs

/-- A setting as written on the command line, with the name and raw value it is stored under. -/
def readSetting (cs : ConstraintSet V) (s : String) :
    Except ConstraintError (String × Option String) :=
  match splitSetting s with
  | none => throw (.couldNotInterpret s)
  | some (name, value) =>
    match cs.registry.lookup name with
    | none => throw (.unknownConstraint name)
    | some constraint => do
      let _ ← constraint.convert (constraint.settingValue value)
      if constraint.visible then pure (name, constraint.settingValue value)
      else throw (.computedConstraint name)

def readSettings (cs : ConstraintSet V) :
    Dict String (Option String) → List String →
      Except ConstraintError (Dict String (Option String))
  | data, [] => pure data
  | data, s :: strs => do
    let (name, value) ← cs.readSetting s
    cs.readSettings (data.insert name value) strs

/-- The conflicts of a name, none of which may be set. -/
def checkConflicts (data : Dict String (Option String)) (name : String) :
    List String → Except ConstraintError Unit
  | [] => pure ()
  | conflict :: rest =>
    if conflict ∈ data then throw (.ambiguousConstraints name conflict)
    else checkConflicts data name rest

/-- The constraints in conflict with those of the names that have a value. -/
def findConflicts (cs : ConstraintSet V) (data : Dict String (Option String)) :
    List String → Except ConstraintError (List String)
  | [] => pure []
  | name :: names =>
    if data.lookup name = some none then cs.findConflicts data names
    else match cs.conflicts.lookup name with
      | none => throw (.keyError name)
      | some conflicts => do
        checkConflicts data name (conflicts.insertionSort (· ≤ ·))
        let others ← cs.findConflicts data names
        pure (conflicts ++ others)

def parse (cs : ConstraintSet V) (strs : List String) : Except ConstraintError (Constraints V) := do
  let data ← cs.readSettings (AList.singleton "provider-type" (some cs.providerType)) strs
  let conflicts ← cs.findConflicts data (data.keys.insertionSort (· ≤ ·))
  pure ⟨cs, conflicts.foldl (fun data conflict => data.insert conflict none) data⟩

/-- `load`: all of the data is kept, and what has a registered name must convert. -/
def checkData (cs : ConstraintSet V) :
    List (Sigma fun _ : String => Option String) → Except ConstraintError Unit
  | [] => pure ()
  | ⟨name, value⟩ :: data =>
    match cs.registry.lookup name with
    | none => cs.checkData data
    | some constraint => do
      let _ ← constraint.convert value
      cs.checkData data

def load (cs : ConstraintSet V) (data : Dict String (Option String)) :
    Except ConstraintError (Constraints V) := do
  cs.checkData data.entries
  pure ⟨cs, data⟩

end ConstraintSet

namespace Constraints

def update (self other : Constraints V) : Constraints V :=
  { self with data := Dict.update self.data other.data }

/-- What `__getitem__` converts. -/
def rawValue (self : Constraints V) (name : String) : Option String :=
  match self.data.lookup name with
  | some value => value
  | none => (self.available.registry.lookup name).bind ConstraintType.default

def getItem (self : Constraints V) (name : String) : Except ConstraintError (Option V) :=
  match self.available.registry.lookup name with
  | none => throw (.keyError name)
  | some constraint => constraint.convert (self.rawValue name)

/-- `get` of `DictMixin`, for which a name that is not registered has no value. -/
def get (self : Constraints V) (name : String) : Except ConstraintError (Option V) :=
  if name ∈ self.available.registry then self.getItem name else pure none

def complete (self : Constraints V) : Except ConstraintError Bool := do
  let providerType ← self.get "provider-type"
  let series ← self.get "ubuntu-series"
  pure (providerType.isSome && series.isSome)

def items (self : Constraints V) : List String → Except ConstraintError (List (String × Option V))
  | [] => pure []
  | name :: names => do
    let value ← self.getItem name
    let rest ← self.items names
    pure ((name, value) :: rest)

/-- The loop of `can_satisfy` over the unit's constraints. -/
def satisfiesItems (self : Constraints V) : List (String × Option V) → Except ConstraintError Bool
  | [] => pure true
  | (_, none) :: items => self.satisfiesItems items
  | (name, some unitValue) :: items => do
    let machineValue ← self.getItem name
    match machineValue, self.available.registry.lookup name with
    | some value, some constraint =>
      if constraint.comparer value unitValue then self.satisfiesItems items else pure false
    | _, _ => pure false

def canSatisfy (self other : Constraints V) : Except ConstraintError Bool := do
  let machineComplete ← self.complete
  let unitComplete ← if machineComplete then other.complete else pure false
  if machineComplete && unitComplete then do
    let items ← other.items other.available.registry.keys
    self.satisfiesItems items
  else pure false

end Constraints

end Juju.Machine

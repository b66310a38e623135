import Juju.Lib.PythonText
import Mathlib.Data.Rat.Defs

namespace Juju.Schemas
open Juju.Lib

/-- A `float` that is no number. -/
inductive SpecialFloat where
  | infinity
  | negativeInfinity
  | nan
  deriving DecidableEq

/-- A value without parts. -/
inductive Atom where
  | none
  | bool (b : Bool)
  /-- An `int` or a `long`. -/
  | int (i : Int)
  | float (q : ℚ)
  | special (f : SpecialFloat)
  | text (t : PythonText)
  /-- A compiled regular expression, by its pattern. -/
  | regex (pattern : PythonText)
  /-- Any other value that is hashable and is no container, such as a date. -/
  | object (repr : String)
  deriving DecidableEq

/-- A value that can be a key of a dictionary. -/
inductive Key where
  | atom (a : Atom)
  | tuple (items : List Key)

inductive Value where
  | atom (a : Atom)
  | tuple (items : List Value)
  | list (items : List Value)
  | set (items : List Key)
  | dict (entries : List (Key × Value))

/-- The number that a `bool`, an `int` or a `float` is. -/
def Atom.number? : Atom → Option ℚ
  | bool b => some (if b then 1 else 0)
  | int i => some i
  | float q => some q
  | _ => Option.none

/-- `a == b`. No `nan` is equal to another one. -/
def Atom.equals : Atom → Atom → Bool
  | text t, text t' => t.equals t'
  | special .nan, special .nan => false
  | a, b =>
    match a.number?, b.number? with
    | some p, some q => p = q
    | _, _ => a = b

mutual

/-- `k == k'` -/
def Key.equals : Key → Key → Bool
  | .atom a, .atom b => a.equals b
  | .tuple items, .tuple items' => Key.equalsAll items items'
  | _, _ => false

def Key.equalsAll : List Key → List Key → Bool
  | [], [] => true
  | k :: ks, k' :: ks' => k.equals k' && Key.equalsAll ks ks'
  | _, _ => false

end

/-- `d[k]` where `k in d`. -/
def lookup (d : List (Key × Value)) (k : Key) : Option Value :=
  (d.find? fun e => e.1.equals k).map Prod.snd

mutual

/-- `v == v'` -/
def Value.equals : Value → Value → Bool
  | .atom a, .atom b => a.equals b
  | .tuple items, .tuple items' => Value.equalsAll items items'
  | .list items, .list items' => Value.equalsAll items items'
  | .set items, .set items' =>
    items.length = items'.length && items.all fun k => items'.any k.equals
  | .dict entries, .dict entries' =>
    entries.length = entries'.length && Value.equalsEntries entries entries'
  | _, _ => false

def Value.equalsAll : List Value → List Value → Bool
  | [], [] => true
  | v :: vs, v' :: vs' => v.equals v' && Value.equalsAll vs vs'
  | _, _ => false

def Value.equalsEntries : List (Key × Value) → List (Key × Value) → Bool
  | [], _ => true
  | (k, v) :: entries, entries' =>
    (match lookup entries' k with
      | some v' => v.equals v'
      | none => false) && Value.equalsEntries entries entries'

end

mutual

/-- A key as a value. -/
def Key.toValue : Key → Value
  | .atom a => .atom a
  | .tuple items => .tuple (Key.toValues items)

def Key.toValues : List Key → List Value
  | [] => []
  | k :: ks => k.toValue :: Key.toValues ks

end

mutual

/-- A value as a key; `none` where it is not hashable. -/
def Value.toKey? : Value → Option Key
  | .atom a => some (.atom a)
  | .tuple items => (Value.toKeys? items).map .tuple
  | _ => none

def Value.toKeys? : List Value → Option (List Key)
  | [] => some []
  | v :: vs => do return (← v.toKey?) :: (← Value.toKeys? vs)

end

def Value.text (t : PythonText) : Value := .atom (.text t)

def Key.text (t : PythonText) : Key := .atom (.text t)

end Juju.Schemas

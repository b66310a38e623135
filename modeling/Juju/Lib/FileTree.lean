import Juju.Base.AbsolutePath

namespace Juju.Lib
open Juju.Base

/-- The names that lead to a place from the root. -/
abbrev Location := List String

/-- A name that stands for itself in a path. -/
def IsFileName (name : String) : Prop := IsNodeName name ∧ name ≠ "." ∧ name ≠ ".."

instance (name : String) : Decidable (IsFileName name) :=
  inferInstanceAs (Decidable (IsNodeName name ∧ name ≠ "." ∧ name ≠ ".."))

/-- The permission bits of a mode. -/
abbrev Perm := Fin 4096

instance neZero_perm : NeZero 4096 := ⟨by decide⟩

/-- What stands at a place and is no directory. -/
inductive Leaf where
  | file (perm : Perm) (content : String)
  | link (target : String)
  /-- A pipe, a socket or a device. -/
  | special
  deriving DecidableEq

inductive Node where
  | directory (perm : Perm)
  | leaf (leaf : Leaf)
  deriving DecidableEq

/-- What a directory holds, in the order in which it is listed. -/
inductive Listing where
  | nil
  | leaf (name : String) (leaf : Leaf) (rest : Listing)
  | directory (name : String) (perm : Perm) (inside rest : Listing)

abbrev FileSystem := Location → Option Node

namespace Listing

def find : Listing → FileSystem
  | nil, _ => none
  | leaf name l rest, loc => if loc = [name] then some (.leaf l) else rest.find loc
  | directory name perm inside rest, loc =>
    if loc.head? = some name then
      if loc.tail = [] then some (.directory perm) else inside.find loc.tail
    else rest.find loc

theorem find_directory (name : String) (perm : Perm) (inside rest : Listing) :
    (directory name perm inside rest).find [name] = some (.directory perm) := by
  simp [find]

theorem find_inside (name : String) (perm : Perm) (inside rest : Listing) (tail : Location)
    (h : tail ≠ []) : (directory name perm inside rest).find (name :: tail) = inside.find tail := by
  simp [find, h]

theorem find_beside (name : String) (perm : Perm) (inside rest : Listing) (loc : Location)
    (h : loc.head? ≠ some name) : (directory name perm inside rest).find loc = rest.find loc := by
  simp [find, h]

/-- What the directory of that name holds. -/
def child (name : String) : Listing → Option Listing
  | nil => none
  | leaf other _ rest => if other = name then none else rest.child name
  | directory other _ inside rest => if other = name then some inside else rest.child name

/-- What the directory at that place holds. -/
def listdir (l : Listing) : Location → Option Listing
  | [] => some l
  | name :: rest => (l.child name).bind fun inside => inside.listdir rest

def names : Listing → List String
  | nil => []
  | leaf name _ rest => name :: rest.names
  | directory name _ _ rest => name :: rest.names

/-- Each directory has names for what it holds, and no name twice. -/
def WellFormed : Listing → Prop
  | nil => True
  | leaf name _ rest => IsFileName name ∧ name ∉ rest.names ∧ rest.WellFormed
  | directory name _ inside rest =>
    IsFileName name ∧ name ∉ rest.names ∧ inside.WellFormed ∧ rest.WellFormed

instance decidableWellFormed : (l : Listing) → Decidable l.WellFormed
  | nil => inferInstanceAs (Decidable True)
  | leaf name _ rest =>
    have := rest.decidableWellFormed
    inferInstanceAs (Decidable (IsFileName name ∧ name ∉ rest.names ∧ rest.WellFormed))
  | directory name _ inside rest =>
    have := inside.decidableWellFormed
    have := rest.decidableWellFormed
    inferInstanceAs (Decidable
      (IsFileName name ∧ name ∉ rest.names ∧ inside.WellFormed ∧ rest.WellFormed))

theorem child_wellFormed (l inside : Listing) (name : String) (hl : l.WellFormed)
    (h : l.child name = some inside) : inside.WellFormed := by
  induction l with
  | nil => simp [child] at h
  | leaf other leaf rest ih =>
    simp only [child] at h
    split at h
    · simp at h
    · exact ih hl.2.2 h
  | directory other perm inner rest _ ih =>
    simp only [child] at h
    split at h
    · exact Option.some.inj h ▸ hl.2.2.1
    · exact ih hl.2.2.2 h

theorem listdir_wellFormed (l inside : Listing) (loc : Location) (hl : l.WellFormed)
    (h : l.listdir loc = some inside) : inside.WellFormed := by
  induction loc generalizing l with
  | nil => exact Option.some.inj h ▸ hl
  | cons name rest ih =>
    obtain ⟨inner, hinner, hrest⟩ := Option.bind_eq_some_iff.mp h
    exact ih inner (child_wellFormed l inner name hl hinner) hrest

end Listing

namespace FileSystem

variable (fs : FileSystem)

def isDirectory (loc : Location) : Bool :=
  match fs loc with
  | some (.directory _) => true
  | _ => false

/-- The components of a path, looked up one after the other. At a link, `again` takes the components
of its target and what is left of the path. -/
def follow (create : Bool) (again : Location → List String → Option Location) :
    Location → List String → Option Location
  | loc, [] => some loc
  | loc, name :: rest =>
    if fs.isDirectory loc = false then none
    else if name = "" ∨ name = "." then follow create again loc rest
    else if name = ".." then follow create again loc.dropLast rest
    else
      match fs (loc ++ [name]) with
      | none => if create = true ∧ rest = [] then some (loc ++ [name]) else none
      | some (.leaf (.link target)) =>
        if target = "" then none
        else again (if isabs target then [] else loc) (splitPath target ++ rest)
      | some _ => follow create again (loc ++ [name]) rest

/-- Where a path leads, over `links` links at most. With `create`, its last component may be
missing. -/
def resolve (create : Bool) : Nat → Location → List String → Option Location
  | 0 => fs.follow create fun _ _ => none
  | links + 1 => fs.follow create (resolve create links)

/-- Where a path leads for a process that stands in `cwd`. -/
def leads (create : Bool) (links : Nat) (cwd : Location) (path : String) : Option Location :=
  if path = "" then none
  else fs.resolve create links (if isabs path then [] else cwd) (splitPath path)

end FileSystem

/-- The links that the kernel follows in one path. -/
def maxLinks : Nat := 40

end Juju.Lib

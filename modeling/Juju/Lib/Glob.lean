import Juju.Lib.Pattern
import Juju.Lib.Text

namespace Juju.Lib

/-- What `re` raises for the pattern that a glob is translated to. -/
inductive GlobError where
  | badCharacterRange
  deriving DecidableEq

namespace Glob

/-- The members of a class, from the first to the last of each range. -/
def classRanges : List Char → Except GlobError (List (Char × Char))
  | lo :: '-' :: hi :: rest =>
    if hi < lo then .error .badCharacterRange
    else (classRanges rest).map fun ranges => (lo, hi) :: ranges
  | c :: rest => (classRanges rest).map fun ranges => (c, c) :: ranges
  | [] => .ok []

/-- A class that is closed: whether it is negated, its members, and what follows it. A bracket
that comes first is a member. -/
def cutClass (glob : List Char) : Option (Bool × List Char × List Char) :=
  let negated := glob.head? = some '!'
  let inner := if negated then glob.tail else glob
  let first := if inner.head? = some ']' then [']'] else []
  (cutFirst ']' (inner.drop first.length)).map fun parts =>
    (negated, first ++ parts.1, parts.2)

/-- `translate`; the characters of a class already read are skipped. -/
def translateFrom : Nat → List Char → Except GlobError (Pattern Char)
  | _, [] => .ok .empty
  | skip + 1, _ :: glob => translateFrom skip glob
  | 0, c :: glob =>
    if c = '*' then (translateFrom 0 glob).map (.seq (.many (.one fun _ => true)))
    else if c = '?' then (translateFrom 0 glob).map (.seq (.one fun _ => true))
    else
      match if c = '[' then cutClass glob else none with
      | none => (translateFrom 0 glob).map (.seq (.one fun x => x = c))
      | some (negated, members, rest) => do
        let ranges ← classRanges members
        let rest ← translateFrom (glob.length - rest.length) glob
        .ok (.seq (.one fun x => (ranges.any fun r => r.1 ≤ x ∧ x ≤ r.2) != negated) rest)

end Glob

/-- `fnmatch`, where names keep their case. -/
def fnmatch (name glob : String) : Except GlobError Bool :=
  (Glob.translateFrom 0 glob.toList).map fun pattern => pattern.spells name.toList

example : fnmatch "mysql/0" "my*/[!1-9]" = .ok true ∧ fnmatch "mysql/0" "[]-a]*" = .ok false ∧
    fnmatch "mysql" "[z-a]" = .error .badCharacterRange := by decide

end Juju.Lib

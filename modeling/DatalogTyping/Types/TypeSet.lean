import DatalogTyping.Fault
import DatalogTyping.Types.Names

/-!
# Sets of types

A type is known by its name, so a set of types is a set of names, or else the
set of all types, which stands for a complete lack of constraint.
-/

namespace DatalogTyping

/-- A set of types. -/
inductive TypeSet where
  /-- All types there are. -/
  | all
  /-- The types of the given names. -/
  | only (names : Names)
  deriving DecidableEq

namespace TypeSet

/-- The set of the named types. -/
def ofList (names : List String) : TypeSet := only (.ofList names)

/-- The set of no types. -/
def empty : TypeSet := only .empty

/-- The set of one type. -/
def single (name : String) : TypeSet := only (.single name)

/-- Is this the set of all types? -/
def isAll : TypeSet → Bool
  | all => true
  | only _ => false

/-- Is this the set of no types? -/
def isEmpty : TypeSet → Bool
  | all => false
  | only names => names.toList.isEmpty

/-- Is the type in the set? -/
def contains : TypeSet → String → Bool
  | all, _ => true
  | only names, name => names.contains name

/-- The names of the members, where they can be listed. -/
def names? : TypeSet → Option (List String)
  | all => none
  | only names => some names.toList

/-- The names of the members in order. -/
def members : TypeSet → Except Fault (List String)
  | all => .error .enumerateAll
  | only names => .ok names.toList

/-- The number of members. -/
def size : TypeSet → Except Fault Nat
  | all => .error .countAll
  | only names => .ok names.toList.length

/-- The types in either set. -/
def union : TypeSet → TypeSet → TypeSet
  | only names, only others => only (names.union others)
  | _, _ => all

/-- The types in both sets. -/
def inter : TypeSet → TypeSet → TypeSet
  | all, others => others
  | names, all => names
  | only names, only others => only (names.inter others)

/-- The members that satisfy a condition; `whenAll` if nothing is known about
the members. -/
def filter (types : TypeSet) (keep : String → Bool) (whenAll : TypeSet) : TypeSet :=
  match types with
  | all => whenAll
  | only names => only (names.filter keep)

/-- A set of types as text. -/
def text : TypeSet → String
  | all => "\x7b - all types - \x7d"
  | only names => "\x7b" ++ ",".intercalate names.toList ++ "\x7d"

end TypeSet

end DatalogTyping

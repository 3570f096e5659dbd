import DatalogTyping.Fault

/-!
# Positions counted from either end

A position in a list is an integer: from zero on it counts from the front, below
zero it counts from the end, `-1` being the last element.
-/

namespace DatalogTyping

/-- The element at a position, if the list reaches that far. -/
def elementAt? {α : Type} (xs : List α) : Int → Option α
  | .ofNat i => xs[i]?
  | .negSucc i => xs.reverse[i]?

/-- The element at a position that has to exist. -/
def elementAt {α : Type} (xs : List α) (position : Int) : Except Fault α :=
  match elementAt? xs position with
  | some x => .ok x
  | none => .error .outOfRange

end DatalogTyping

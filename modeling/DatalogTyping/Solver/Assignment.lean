import DatalogTyping.Node.Basic
import DatalogTyping.Types.TypeSet

/-!
# Assignments

What is known about each type variable: a set of types that it has to be in.
Nothing is known at first, so every variable starts with the set of all types.
-/

namespace DatalogTyping

/-- A type variable. All occurrences of a named variable share one; any other
argument has its own, labelled with the argument's text. -/
inductive TypeVar where
  | named (name : String)
  | argument (id : NodeId) (text : String)
  deriving DecidableEq, Repr

/-- The text of a type variable. -/
def TypeVar.text : TypeVar → String
  | named name => "t_" ++ name
  | argument _ text => s!"t_<{text}>"

/-- A set of types for each type variable. -/
def Assignment := TypeVar → TypeSet

namespace Assignment

/-- The assignment of one who knows nothing. -/
def start : Assignment := fun _ => .all

/-- The assignment with another set for one variable. -/
def set (assignment : Assignment) (var : TypeVar) (types : TypeSet) : Assignment :=
  fun other => if other = var then types else assignment other

/-- Install a set for a variable; say whether it differs from the one before. -/
def narrow (assignment : Assignment) (var : TypeVar) (types : TypeSet) : Assignment × Bool :=
  if assignment var = types then (assignment, false) else (assignment.set var types, true)

/-- The sets of the given variables as text, each on a line. -/
def text (assignment : Assignment) (vars : List TypeVar) : String :=
  let lines := vars.map fun var => s!"   {var.text} = {(assignment var).text}"
  "\x7b\n" ++ ",\n".intercalate lines ++ "\n\x7d"

end Assignment

end DatalogTyping

import DatalogTyping.Solver.Constraint

/-!
# Problems

A list of constraints among type variables. Solving lets each constraint narrow
its variables, round after round, until a whole round goes by in which nothing
changes. A round is a function of the constraints, with what they remember, and
the assignment. There are finitely many such states, and their number bounds the
rounds: a run of more rounds passes a state twice and goes on forever.
-/

namespace DatalogTyping

/-- What a round leads to. -/
structure Round where
  /-- The constraints to go on with. -/
  constraints : List Constraint
  /-- The assignment, narrowed. -/
  assignment : Assignment
  /-- Did any update change the assignment? -/
  changed : Bool

/-- Update every constraint in turn. -/
def round (env : TypeEnv) : List Constraint → Assignment → Except Fault Round
  | [], assignment => .ok ⟨[], assignment, false⟩
  | constraint :: rest, assignment =>
    match constraint.fault? env assignment with
    | some fault => .error fault
    | none =>
      let update := constraint.update env assignment
      match round env rest update.assignment with
      | .ok result =>
        .ok ⟨update.constraint :: result.constraints, result.assignment,
          update.changed || result.changed⟩
      | .error fault => .error fault

/-- Go on for at most the given number of rounds, until one changes nothing. -/
def settle (env : TypeEnv) : Nat → List Constraint → Assignment → Except Fault Round
  | 0, _, _ => .error .endless
  | bound + 1, constraints, assignment =>
    match round env constraints assignment with
    | .ok result =>
      if result.changed then settle env bound result.constraints result.assignment
      else .ok result
    | .error fault => .error fault

/-- Constraints among type variables. -/
structure Problem where
  /-- The variables, in the order they are mentioned first. -/
  vars : List TypeVar := []
  constraints : List Constraint := []

namespace Problem

/-- The problem with a variable mentioned. -/
def mention (problem : Problem) (var : TypeVar) : Problem :=
  if problem.vars.contains var then problem
  else { problem with vars := problem.vars ++ [var] }

/-- The problem with one more constraint. -/
def add (problem : Problem) (constraint : Constraint) : Problem :=
  let problem := constraint.vars.foldl mention problem
  { problem with constraints := problem.constraints ++ [constraint] }

/-- The problem as text, each constraint on a line. -/
def text (problem : Problem) : String :=
  let lines := problem.constraints.map fun constraint => "   " ++ constraint.text
  "\x7b\n" ++ ",\n".intercalate lines ++ "\n\x7d"

/-- Update the constraint at a position only; say whether that changed the
assignment. -/
def updateAt (env : TypeEnv) (problem : Problem) (position : Int) (assignment : Assignment) :
    Except Fault (Problem × Assignment × Bool) := do
  let (constraint, index) ← elementAt problem.constraints.zipIdx position
  match constraint.fault? env assignment with
  | some fault => .error fault
  | none =>
    let update := constraint.update env assignment
    let constraints := problem.constraints.set index update.constraint
    .ok ({ problem with constraints }, update.assignment, update.changed)

/-- The number of overload memories a constraint can have. -/
def memories : Constraint → Nat
  | .overload _ _ _ _ remaining => Nat.pow 2 remaining.length
  | _ => 1

/-- A number that the states of a problem do not exceed: each variable has one of
the sets of types, or the set of all, and each overload constraint remembers
some of its overloads. -/
def stateBound (env : TypeEnv) (problem : Problem) : Nat :=
  Nat.pow (Nat.pow 2 env.size + 1) problem.vars.length *
    (problem.constraints.map memories).foldr (· * ·) 1

/-- The state a problem settles in, starting from no knowledge. -/
def solve (env : TypeEnv) (problem : Problem) : Except Fault Round :=
  settle env (problem.stateBound env + 1) problem.constraints .start

/-- The account of a solution: the problem as it ended up, and the sets of its
variables. -/
def trace (problem : Problem) (solution : Round) : List String :=
  ["Problem:\n" ++ { problem with constraints := solution.constraints }.text,
    "Solution:\n" ++ solution.assignment.text problem.vars]

end Problem

end DatalogTyping

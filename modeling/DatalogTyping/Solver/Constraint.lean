import DatalogTyping.Operator.Functor
import DatalogTyping.Solver.Assignment
import DatalogTyping.Types.Lattice

/-!
# Constraints

What can be required of type variables, and how a requirement narrows an
assignment. A constraint that cannot be met does not fail: it leaves a variable
with the empty set, and somebody else complains later.

An overload constraint remembers which overloads are still possible. So updating
a constraint yields the constraint to go on with, besides the assignment.
-/

namespace DatalogTyping

/-- A requirement on type variables. -/
inductive Constraint where
  /-- The variable is below a type. -/
  | subtypeOf (var : TypeVar) (bound : String)
  /-- The variable is below another. -/
  | below (var bound : TypeVar)
  /-- The variable is below one of the given types. -/
  | supertypeIn (var : TypeVar) (values : TypeSet)
  /-- The variable is of a kind; as long as nothing is known about it, the
  candidates are all it can be. -/
  | ofKind (var : TypeVar) (kind : Kind) (candidates : TypeSet)
  /-- Both variables are carved from a common constant type, without necessarily
  being the same type. -/
  | sameBase (left right : TypeVar)
  /-- The variables are the result and the arguments of one of the remaining
  overloads of a functor. -/
  | overload (symbol : String) (result : TypeVar) (args : List TypeVar)
      (subtypeResult : Bool) (remaining : List Overload)
  /-- The variable is a record with that many fields, one of the candidates as
  long as nothing is known about it. -/
  | recordOf (var : TypeVar) (arity : Int) (candidates : TypeSet)
  /-- The element is below the field of the record at a position. -/
  | component (element record : TypeVar) (position : Int)
  deriving DecidableEq

/-- What an update leads to. -/
structure Update where
  /-- The constraint to go on with. -/
  constraint : Constraint
  /-- The assignment, narrowed. -/
  assignment : Assignment
  /-- Does the assignment differ from the one before? -/
  changed : Bool

namespace Constraint

/-- The type variables of a constraint, in the order it names them. -/
def vars : Constraint → List TypeVar
  | subtypeOf var _ | supertypeIn var _ | ofKind var _ _ | recordOf var _ _ => [var]
  | below var bound => [var, bound]
  | sameBase left right => [left, right]
  | overload _ result args _ _ => result :: args
  | component element record _ => [element, record]

/-- The constraint that a functor application satisfies one of the overloads of
its symbol. -/
def anyOverload (symbol : String) (result : TypeVar) (args : List TypeVar)
    (subtypeResult : Bool) : Constraint :=
  overload symbol result args subtypeResult (Overload.ofSymbol symbol)

/-- A constraint as text. -/
def text : Constraint → String
  | subtypeOf var bound => s!"{var.text} <: {bound}"
  | below var bound => s!"{var.text} <: {bound.text}"
  | supertypeIn var values => s!"∃ t ∈ {values.text}: {var.text} <: t"
  | ofKind var kind _ => s!"{var.text} is a {kind.name}"
  | sameBase left right =>
    s!"∃ t : ({left.text} <: t) ∧ ({right.text} <: t) ∧ t is a base type"
  | overload symbol result args _ remaining =>
    let args := ",".intercalate (args.map TypeVar.text)
    let ops := ", ".intercalate (remaining.map fun o => Text.quoted o.op.name)
    s!"{result.text} = {symbol}({args}) overloads [{ops}]"
  | recordOf var arity _ => s!"{var.text} is a record of arity {arity}"
  | component element record position => s!"{element.text} <: {record.text}::{position}"

end Constraint

/-! ## What updates are made of -/

namespace TypeEnv

/-- The constant type that a type is carved from, if it is carved from one. -/
def constantBase? (env : TypeEnv) (name : String) : Option String :=
  match env.baseType name with
  | .ok root => match env.find? root with
    | some (.constant _) => some root
    | _ => none
  | .error _ => none

/-- The constant types that the named types are carved from. -/
def constantBases (env : TypeEnv) (names : Names) : Names :=
  .ofList (names.toList.filterMap env.constantBase?)

/-- Is the type below one of the named ones? -/
def isBelowOne (env : TypeEnv) (names : Names) (name : String) : Bool :=
  names.toList.any fun bound => env.isSubtype name bound

/-- The members of a set that are of a primitive kind, judged by its constant
type. -/
def below (env : TypeEnv) (types : TypeSet) (kind : Kind) : TypeSet :=
  match constantName? kind with
  | some constant => types.filter (env.isSubtype · constant) .all
  | none => types

/-- Is the type a record with that many fields? -/
def isRecordOf (env : TypeEnv) (arity : Int) (name : String) : Bool :=
  match env.recordFields? name with
  | some fields => (fields.length : Int) = arity
  | none => false

/-- The field of a record at a position, if the record reaches that far. -/
def field? (env : TypeEnv) (position : Int) (name : String) : Option String :=
  (env.recordFields? name).bind fun fields => elementAt? fields position

end TypeEnv

namespace Overload

/-- Is the overload possible, by what is known about the result and the
arguments? -/
def isPossible (overload : Overload) (env : TypeEnv) (assignment : Assignment)
    (result : TypeVar) (args : List TypeVar) : Bool :=
  overload.acceptsArity args.length &&
  (args.zipIdx.all fun (arg, index) =>
    match overload.param? index with
    | some kind => env.hasKind (assignment arg) kind
    | none => false) &&
  env.hasKind (assignment result) overload.result

/-- Narrow the arguments to the kinds of the parameters, from the parameter at
`index` on. -/
def narrowArgs (overload : Overload) (env : TypeEnv) :
    List TypeVar → Nat → Assignment → Assignment × Bool
  | [], _, assignment => (assignment, false)
  | arg :: rest, index, assignment =>
    let types := match overload.param? index with
      | some kind => env.below (assignment arg) kind
      | none => assignment arg
    let (assignment, here) := assignment.narrow arg types
    let (assignment, there) := overload.narrowArgs env rest (index + 1) assignment
    (assignment, here || there)

/-- Narrow arguments and result to the only overload left. The arguments of
`ord` can be anything. The result is the constant type of its kind if nothing is
known about it, unless it may be any subtype of that. -/
def apply (overload : Overload) (env : TypeEnv) (result : TypeVar) (args : List TypeVar)
    (subtypeResult : Bool) (assignment : Assignment) : Assignment × Bool :=
  let (assignment, here) :=
    if overload.op = .ord then (assignment, false)
    else overload.narrowArgs env args 0 assignment
  let types :=
    if (assignment result).isAll && !subtypeResult then TypeEnv.constantTypes [overload.result]
    else env.below (assignment result) overload.result
  let (assignment, there) := assignment.narrow result types
  (assignment, here || there)

end Overload

/-! ## Updates -/

namespace Constraint

/-- Narrow an assignment so that it satisfies the constraint a little better. -/
def update (env : TypeEnv) (constraint : Constraint) (assignment : Assignment) : Update :=
  let narrowed (result : Assignment × Bool) : Update := ⟨constraint, result.1, result.2⟩
  match constraint with
  | subtypeOf var bound =>
    narrowed (assignment.narrow var (env.meet (assignment var) (.single bound)))
  | below var bound =>
    narrowed (assignment.narrow var (env.meet (assignment var) (assignment bound)))
  | supertypeIn var values =>
    narrowed (assignment.narrow var (match assignment var, values with
      | .all, values => values
      | types, .all => types
      | .only types, .only values => .only (types.filter (env.isBelowOne values))))
  | ofKind var kind candidates =>
    narrowed (assignment.narrow var
      ((assignment var).filter (env.isOfKind · kind) candidates))
  | sameBase left right =>
    match assignment left, assignment right with
    | .all, .all => narrowed (assignment, false)
    | .all, .only others => narrowed (assignment.narrow left (.only (env.constantBases others)))
    | .only types, .all => narrowed (assignment.narrow right (.only (env.constantBases types)))
    | .only types, .only others =>
      let common := (env.constantBases types).inter (env.constantBases others)
      let (assignment, here) :=
        assignment.narrow left (.only (types.filter (env.isBelowOne common)))
      let (assignment, there) :=
        assignment.narrow right (.only (others.filter (env.isBelowOne common)))
      narrowed (assignment, here || there)
  | overload symbol result args subtypeResult remaining =>
    let remaining := remaining.filter (·.isPossible env assignment result args)
    let constraint := overload symbol result args subtypeResult remaining
    let (assignment, changed) := match remaining with
      | [] => assignment.narrow result .empty
      | [choice] => choice.apply env result args subtypeResult assignment
      | _ => (assignment, false)
    ⟨constraint, assignment, changed⟩
  | recordOf var arity candidates =>
    let fits := env.isRecordOf arity
    narrowed (assignment.narrow var ((assignment var).filter fits (candidates.filter fits .all)))
  | component element record position =>
    match assignment record with
    | .all => narrowed (assignment, false)
    | .only records =>
      let fields := records.toList.filterMap (env.field? position)
      let elements := env.meet (assignment element) (.ofList fields)
      let (assignment, here) := assignment.narrow record
        (.only (records.filter fun name => (env.field? position name).isSome))
      let (assignment, there) := assignment.narrow element elements
      narrowed (assignment, here || there)

/-- What keeps a constraint from being updated: it tests members against the set
of all types, or counts back beyond the first field of a record. -/
def fault? (env : TypeEnv) (constraint : Constraint) (assignment : Assignment) :
    Option Fault :=
  match constraint with
  | supertypeIn var .all =>
    if (assignment var).isAll || (assignment var).isEmpty then none else some .enumerateAll
  | component _ record (.negSucc position) =>
    match assignment record with
    | .all => none
    | .only records =>
      if records.toList.any fun name => (env.recordFields? name).any (·.length ≤ position)
      then some .outOfRange else none
  | _ => none

end Constraint

end DatalogTyping

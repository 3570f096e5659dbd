import DatalogTyping.Inference.Resolutions
import DatalogTyping.Numeral
import DatalogTyping.Solver.Problem
import DatalogTyping.Types.Declared

/-!
# Typing a clause

For one clause at a time: the constraints among the types of its arguments, and
the set of types that each argument ends up with.

All occurrences of a named variable share one type variable; every other
argument has its own. What has been settled so far tightens the constraints: a
functor or numeral that is resolved is bound to its kind, one that is not may
still be any of those that fit.
-/

namespace DatalogTyping

namespace Node

/-- The type variable of an argument. -/
def typeVar (node : Node) : TypeVar :=
  match node.label with
  | .var name => .named name
  | _ => .argument node.id node.text

/-- The identities of the atoms that stand directly under the node, if it is a
negation. -/
def negates (node : Node) : List NodeId :=
  match node.label with
  | .negation => node.children.map id
  | _ => []

end Node

/-- A node when the traversal comes to it, and the atoms that are known to be
negated by then. -/
structure NodeVisit where
  node : Node
  negated : List NodeId

/-- Visits of nodes one after another. An atom is known to be negated once its
negation has been visited, so one that occurs before that as well is not negated
there. -/
def NodeVisit.along (negated : List NodeId) : List Node → List NodeVisit
  | [] => []
  | node :: rest => ⟨node, negated⟩ :: along (negated ++ node.negates) rest

/-- The visits of all nodes of a clause. -/
def Node.visits (clause : Node) : List NodeVisit := NodeVisit.along [] clause.nodes

/-! ## Constraints of a node -/

/-- The argument is below a type. -/
def bound (argument : Node) (typeName : String) : Constraint :=
  .subtypeOf argument.typeVar typeName

/-- The argument is below the constant type of a kind. -/
def boundKind (argument : Node) (kind : Kind) : List Constraint :=
  match TypeEnv.constantName? kind with
  | some name => [bound argument name]
  | none => []

/-- Arguments are below types, pair by pair. -/
def boundAll (arguments : List Node) (typeNames : List String) : List Constraint :=
  (arguments.zip typeNames).map fun (argument, typeName) => bound argument typeName

/-- Two variables have the same types. -/
def bothWays (left right : Node) : List Constraint :=
  [.below left.typeVar right.typeVar, .below right.typeVar left.typeVar]

/-- The arguments of an atom are below the types of the attributes of its
relation, if that is declared with as many. An attribute whose type is not
declared says nothing, and a variable in a negated atom is not bound by it. -/
def atomConstraints (context : Context) (program : Program) (negated : Bool) (name : String)
    (arguments : List Node) : List Constraint :=
  match program.relation? name with
  | none => []
  | some relation =>
    if relation.children.length = arguments.length then
      ((arguments.zip relation.fieldTypes).filter fun (argument, typeName) =>
        context.env.isType typeName && !(negated && argument.label matches .var _)).map
          fun (argument, typeName) => bound argument typeName
    else []

/-- A numeral is below the constant type of one of the representations it can
have. A fixed representation has to fit the text; a resolved one has been
checked. -/
def numeralConstraint (resolutions : Resolutions) (node : Node) (text : String)
    (fixed : Option NumericKind) : Constraint :=
  let kinds := match fixed with
    | some kind => if Numeral.parsesAs text kind then [kind] else []
    | none =>
      match resolutions.numerals.get? node.id with
      | some kind => [kind]
      | none => Numeral.kinds text
  .supertypeIn node.typeVar (TypeEnv.constantTypes (kinds.map NumericKind.kind))

/-- A functor that is not resolved satisfies one of its overloads. One that is
written between its arguments shares a base type with each of them; any other
that is resolved is bound by its overload, the argument of `ord` apart. -/
def functorConstraints (resolutions : Resolutions) (node : Node) (symbol : String)
    (arguments : List Node) : List Constraint :=
  let between := isWrittenBetween symbol arguments.length
  let resolved := resolutions.functors.get? node.id
  let pending := match resolved with
    | some _ => []
    | none => [.anyOverload symbol node.typeVar (arguments.map Node.typeVar) between]
  if between then
    pending ++ arguments.map fun argument => .sameBase argument.typeVar node.typeVar
  else
    match resolved with
    | none => pending
    | some overload =>
      boundKind node overload.result ++
        if overload.op = .ord then []
        else arguments.zipIdx.flatMap fun (argument, index) =>
          match overload.param? index with
          | some kind => boundKind argument kind
          | none => []

/-- A use of a functor and its arguments are below the declared types, if the
functor is declared with so many parameters and the types exist. -/
def signatureConstraints (context : Context) (node : Node) (name : String) (arity : Nat)
    (arguments : List Node) : List Constraint :=
  match context.signature? name with
  | none => []
  | some signature =>
    if signature.params.length = arity && context.isUsable signature then
      bound node signature.result :: boundAll arguments signature.params
    else []

/-- A call has as many arguments as the functor has parameters. -/
def callConstraints (context : Context) (node : Node) (name : String) (arguments : List Node) :
    List Constraint :=
  signatureConstraints context node name arguments.length arguments

/-- The arguments of a user-defined aggregate are its initial value and its
target. -/
def foldConstraints (context : Context) (node : Node) (name : String) (children : List Node) :
    List Constraint :=
  signatureConstraints context node name 2 (children.take 2)

/-- A count is a signed number, a mean is a float, any other aggregate is some
number; an aggregate has the types of its target. -/
def aggregateConstraints (node : Node) (op : AggregateOp) : List Constraint :=
  (match op with
    | .count => boundKind node .signed
    | .mean => boundKind node .float
    | _ => [.supertypeIn node.typeVar (TypeEnv.constantTypes Kind.numerics)]) ++
  match node.target? with
  | some target => bothWays target node
  | none => []

/-- A record constructor is a record with as many fields as arguments, and each
argument is below its field. -/
def recordConstraints (context : Context) (node : Node) (arguments : List Node) :
    List Constraint :=
  .recordOf node.typeVar arguments.length context.env.recordTypes ::
    arguments.zipIdx.map fun (argument, index) =>
      .component argument.typeVar node.typeVar index

/-- A branch constructor is below the owner of the branch, and its arguments are
below the field types if there are as many. -/
def branchConstraints (context : Context) (node : Node) (branch : String)
    (arguments : List Node) : Except Fault (List Constraint) :=
  match context.owner? branch with
  | none => .ok []
  | some owner =>
    match context.env.branch? owner branch with
    | .ok (some entry) =>
      .ok (bound node owner ::
        if entry.types.length = arguments.length then boundAll arguments entry.types else [])
    | .ok none => .error .lacksProperty
    | .error fault => .error fault

/-- The constraints that a node of a clause gives rise to. -/
def nodeConstraints (context : Context) (program : Program) (resolutions : Resolutions)
    (negated : List NodeId) (node : Node) : Except Fault (List Constraint) :=
  match node.label with
  | .clause | .negation | .var _ | .wildcard => .ok []
  | .atom name =>
    .ok (atomConstraints context program (negated.contains node.id) name node.children)
  | .comparison op =>
    match node.children with
    | [left, right] =>
      .ok (if op.isSymbolic then boundKind left .symbol ++ boundKind right .symbol
        else bothWays left right)
    | _ => .ok []
  | .numeral text fixed => .ok [numeralConstraint resolutions node text fixed]
  | .string _ => .ok (boundKind node .symbol)
  | .nil => .ok [.ofKind node.typeVar .record context.env.recordTypes]
  | .counter => .ok (boundKind node .signed)
  | .iteration => .ok (boundKind node .unsigned)
  | .cast typeName =>
    .ok [if context.env.isType typeName then bound node typeName
      else .supertypeIn node.typeVar .empty]
  | .functor symbol => .ok (functorConstraints resolutions node symbol node.children)
  | .call name => .ok (callConstraints context node name node.children)
  | .fold name => .ok (foldConstraints context node name node.children)
  | .aggregate op _ => .ok (aggregateConstraints node op)
  | .record => .ok (recordConstraints context node node.children)
  | .branch name => branchConstraints context node name node.children
  | .field _ _ | .relationDecl _ | .functorDecl _ _ | .subsetDecl _ _ | .aliasDecl _ _
  | .unionDecl _ _ | .recordDecl _ | .branchDecl _ | .adtDecl _ => .error .lacksProperty

/-! ## The typing of a clause -/

/-- The sets of types of the arguments of a clause, by their position in the
traversal. A clause of the same shape has its arguments at the same positions,
so the sets apply to it as well. -/
structure ClauseTyping where
  clause : Node
  typeSets : List TypeSet

namespace ClauseTyping

/-- The arguments of the clause with their sets of types. -/
def entries (typing : ClauseTyping) : List (Node × TypeSet) :=
  typing.clause.arguments.zip typing.typeSets

/-- The set of types of the argument of the given identity. -/
def get? (typing : ClauseTyping) (id : NodeId) : Option TypeSet :=
  (typing.entries.find? fun entry => entry.1.id == id).map Prod.snd

/-- The first pair of arguments at the same position that are of different
classes. -/
def mismatch? (mine theirs : List Node) : Option (Node × Node) :=
  (mine.zip theirs).find? fun (a, b) => a.label.className ≠ b.label.className

/-- The same sets of types for another clause of the same shape. -/
def transplant (typing : ClauseTyping) (twin : Node) : Except Fault ClauseTyping :=
  let mine := typing.clause.arguments
  let theirs := twin.arguments
  if mine.length = theirs.length then
    match mismatch? mine theirs with
    | some (a, b) => .error (.twinClass a.shown b.shown)
    | none => .ok { typing with clause := twin }
  else .error .twinSize

end ClauseTyping

/-- A clause with its constraints and their solution. -/
structure SolvedClause where
  clause : Node
  problem : Problem
  solution : Round

namespace SolvedClause

/-- The typing that the solution amounts to. -/
def typing (solved : SolvedClause) : ClauseTyping where
  clause := solved.clause
  typeSets := solved.clause.arguments.map fun argument =>
    solved.solution.assignment argument.typeVar

/-- The account of the solution. -/
def trace (solved : SolvedClause) : List String :=
  ("Clause: " ++ solved.clause.text) :: solved.problem.trace solved.solution

end SolvedClause

/-- Add a node to a problem: its own type variable, if it is an argument, and its
constraints. -/
def Problem.addNode (problem : Problem) (node : Node) (constraints : List Constraint) : Problem :=
  let problem := if node.isArgument then problem.mention node.typeVar else problem
  constraints.foldl Problem.add problem

/-- The problem that the visited nodes pose. -/
def visitsProblem (context : Context) (program : Program) (resolutions : Resolutions) :
    List NodeVisit → Problem → Except Fault Problem
  | [], problem => .ok problem
  | visit :: rest, problem =>
    match nodeConstraints context program resolutions visit.negated visit.node with
    | .ok constraints =>
      visitsProblem context program resolutions rest (problem.addNode visit.node constraints)
    | .error fault => .error fault

/-- The problem that a clause poses. -/
def clauseProblem (context : Context) (program : Program) (resolutions : Resolutions)
    (clause : Node) : Except Fault Problem :=
  visitsProblem context program resolutions clause.visits {}

/-- Solve the problem that a clause poses. -/
def solveClause (context : Context) (program : Program) (resolutions : Resolutions)
    (clause : Node) : Except Fault SolvedClause :=
  match clauseProblem context program resolutions clause with
  | .ok problem =>
    match problem.solve context.env with
    | .ok solution => .ok { clause, problem, solution }
    | .error fault => .error fault
  | .error fault => .error fault

end DatalogTyping

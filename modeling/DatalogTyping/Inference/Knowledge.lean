import DatalogTyping.Inference.Clause

/-!
# What is known about a program

The questions that can be asked about the nodes of a program, given what its
declarations say, what has been settled on so far, and the sets of types that the
last round of solving found.
-/

namespace DatalogTyping

/-- What is known at some moment. -/
structure Knowledge where
  context : Context
  resolutions : Resolutions
  /-- The set of types of each argument. -/
  types : Table TypeSet

namespace Knowledge

/-- The set of types of an argument. -/
def typesOf (known : Knowledge) (node : Node) : Except Fault TypeSet :=
  match known.types.get? node.id with
  | some types => .ok types
  | none => .error (.neverAnalysed node.text)

/-! ## Validity -/

/-- Is everything settled that the node needs? -/
def isSettled (known : Knowledge) (node : Node) : Bool :=
  match node.label with
  | .functor _ => known.resolutions.functors.contains node.id
  | .call name | .fold name =>
    match known.context.signature? name with
    | some signature => known.context.isUsable signature
    | none => false
  | .numeral _ _ => known.resolutions.numerals.contains node.id
  | .aggregate _ _ => known.resolutions.aggregates.contains node.id
  | _ => true

/-! ## Functors -/

/-- The overload that a functor is resolved to. -/
def overloadOf (known : Knowledge) (node : Node) : Except Fault Overload :=
  if known.isSettled node then
    match known.resolutions.functors.get? node.id with
    | some overload => .ok overload
    | none => .error .noEntry
  else .error (.functorUnresolved node.text)

/-- What the declaration says of the functor that a node calls. -/
def signatureOf (known : Knowledge) (node : Node) : Except Fault Signature :=
  if known.isSettled node then
    match node.label.name?.bind known.context.signature? with
    | some signature => .ok signature
    | none => .error .lacksProperty
  else .error (.noUsableDeclaration node.text)

/-- The declared return type of a call. -/
def returnType (known : Knowledge) (node : Node) : Except Fault String := do
  known.context.env.require (← known.signatureOf node).result

/-- The declared type of a parameter of a call. -/
def paramType (known : Knowledge) (node : Node) (position : Int) : Except Fault String := do
  known.context.env.require (← elementAt (← known.signatureOf node).params position)

/-- The declared types of the parameters of a call. -/
def paramTypes (known : Knowledge) (node : Node) : Except Fault (List String) := do
  (← known.signatureOf node).params.mapM known.context.env.require

/-- The kind of the result of a functor or a call. -/
def returnKind (known : Knowledge) (node : Node) : Except Fault Kind :=
  match node.label with
  | .functor _ => do return (← known.overloadOf node).result
  | _ => do known.context.env.kindOf (← known.returnType node)

/-- The kind of a parameter of a functor or a call. -/
def paramKind (known : Knowledge) (node : Node) (position : Int) : Except Fault Kind :=
  match node.label with
  | .functor _ => do (← known.overloadOf node).paramAt position
  | _ => do known.context.env.kindOf (← known.paramType node position)

/-- The kinds of the parameters for all arguments of a functor or a call. -/
def paramKinds (known : Knowledge) (node : Node) : Except Fault (List Kind) :=
  match node.operands? with
  | some operands =>
    (List.range operands.length).mapM fun (index : Nat) => known.paramKind node index
  | none => .error .lacksProperty

/-- The kinds of the declared parameters of a user-defined aggregate. -/
def foldParamKinds (known : Knowledge) (node : Node) : Except Fault (List Kind) := do
  (← known.paramTypes node).mapM known.context.env.kindOf

/-- Is the functor that a node calls declared as stateful? -/
def isStateful (known : Knowledge) (node : Node) : Except Fault Bool :=
  match node.label.name? with
  | some name => .ok (known.context.isStateful name)
  | none => .error .lacksProperty

/-! ## Kinds -/

/-- The kinds of the members of a set of types. -/
def kindsIn (known : Knowledge) : TypeSet → Except Fault (List Kind)
  | .all => .ok Kind.unconstrained
  | .only names => names.toList.mapM known.context.env.kindOf

/-- The kinds an argument can have. A functor or a call has the kind of its
result, once that is settled. -/
def kindsOf (known : Knowledge) (node : Node) : Except Fault (List Kind) :=
  let isApplied := match node.label with
    | .functor _ | .call _ => true
    | _ => false
  if isApplied && known.isSettled node then
    (known.returnKind node).map ([·])
  else
    match known.typesOf node with
    | .ok types => known.kindsIn types
    | .error fault => .error fault

/-- The kinds an argument is known to have; none if it could be anything, so that
the default wins. -/
def kindsPresent (known : Knowledge) (node : Node) : Except Fault (List Kind) :=
  match known.typesOf node with
  | .ok .all => .ok []
  | .ok _ => known.kindsOf node
  | .error fault => .error fault

/-- Is it certain that an argument is of a kind? -/
def isOnly (known : Knowledge) (node : Node) (kind : Kind) : Except Fault Bool :=
  match known.typesOf node with
  | .ok .all => .ok false
  | .ok (.only names) =>
    if names.toList.isEmpty then .ok false
    else names.toList.allM fun name => do
      return (← known.context.env.kindOf name) == kind
  | .error fault => .error fault

/-! ## Overloads -/

/-- Does an overload fit the kinds of the arguments and of the result? -/
def fits (argKinds : List (List Kind)) (ownKinds : List Kind) (overload : Overload) : Bool :=
  overload.acceptsArity argKinds.length &&
  (argKinds.zipIdx.all fun (kinds, index) =>
    match overload.param? index with
    | some kind => kinds.contains kind
    | none => false) &&
  ownKinds.contains overload.result

/-- The overloads of a functor that fit what is known, best first. Once resolved,
a functor only ever reconsiders the operation it was resolved to. -/
def validOverloads (known : Knowledge) (node : Node) : Except Fault (List Overload) :=
  match node.label with
  | .functor symbol => do
    let overloads := match known.resolutions.functors.get? node.id with
      | some overload => Overload.ofOp overload.op
      | none => Overload.ofSymbol symbol
    let argKinds ← node.children.mapM known.kindsOf
    let ownKinds ← known.kindsOf node
    return Overload.ranked (overloads.filter (fits argKinds ownKinds))
  | _ => .error .lacksProperty

/-! ## Numerals and operators -/

/-- The representation that a numeral is resolved to, if it is. -/
def numeralKind? (known : Knowledge) (node : Node) : Option NumericKind :=
  known.resolutions.numerals.get? node.id

/-- The representation that a numeral is resolved to. -/
def numeralKind (known : Knowledge) (node : Node) : Except Fault NumericKind :=
  match known.numeralKind? node with
  | some kind => .ok kind
  | none => .error (.constantUnresolved node.text)

/-- The operator, as written, that an aggregate or a comparison is resolved
to. -/
def operatorOf (known : Knowledge) (node : Node) : Except Fault String :=
  let operator := match node.label with
    | .aggregate _ _ => (known.resolutions.aggregates.get? node.id).map AggregateOp.keyword
    | _ => (known.resolutions.comparisons.get? node.id).map ComparisonOp.sign
  match operator with
  | some text => .ok text
  | none => .error (.operatorUnresolved node.text)

end Knowledge

end DatalogTyping

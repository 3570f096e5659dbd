import DatalogTyping.Operator.Functor
import DatalogTyping.Operator.Aggregate
import DatalogTyping.Operator.Comparison
import DatalogTyping.Text.Path

/-!
# Syntax trees

A Datalog program as trees of nodes. A node has a label, which says what it is
and holds its plain data, and children in a fixed order. It also has an
identity: two nodes with the same content are still two nodes, and the tables of
the analysis are about particular ones. Where a node came from a file, it knows
the span.

The children of a label with several parts stand in one list:

* a cast has its value, a negation its atom, a comparison its two sides;
* a clause has its head, then its body;
* an aggregate has its target, if there is one, then its body;
* a user-defined aggregate has the initial value, the target, then its body;
* a functor declaration has its parameters, then its return type.
-/

namespace DatalogTyping

/-- The identity of a node. -/
abbrev NodeId := Nat

/-- The characters of a file that a node came from. -/
structure Span where
  path : String
  start : Int
  stop : Int
  deriving DecidableEq, Repr

/-- The span of a file, its path in shown form. -/
def Span.of (path : String) (start stop : Int) : Span :=
  { path := Text.normalPath path, start, stop }

/-- What a node is, with its plain data. -/
inductive Label where
  /-- A named variable. -/
  | var (name : String)
  /-- A variable nobody refers to. -/
  | wildcard
  /-- A numeric constant, possibly with its representation fixed. -/
  | numeral (text : String) (fixed : Option NumericKind)
  /-- A string constant. -/
  | string (text : String)
  /-- The record that is none. -/
  | nil
  /-- The counter that is new at each use. -/
  | counter
  /-- The number of the current iteration. -/
  | iteration
  /-- A built-in functor. -/
  | functor (symbol : String)
  /-- A call of a user-defined functor. -/
  | call (name : String)
  /-- A record constructor. -/
  | record
  /-- A constructor of a branch of a sum type. -/
  | branch (name : String)
  /-- A type cast. -/
  | cast (typeName : String)
  /-- A built-in aggregate, with or without a target. -/
  | aggregate (op : AggregateOp) (targeted : Bool)
  /-- A user-defined aggregate. -/
  | fold (name : String)
  /-- An atom. -/
  | atom (name : String)
  /-- A negated atom. -/
  | negation
  /-- A binary constraint. -/
  | comparison (op : ComparisonOp)
  /-- A clause. -/
  | clause
  /-- A name with its type, inside a declaration. -/
  | field (name typeName : String)
  /-- The declaration of a relation. -/
  | relationDecl (name : String)
  /-- The declaration of a user-defined functor or aggregate. -/
  | functorDecl (name : String) (stateful : Bool)
  /-- The declaration of a subset type. -/
  | subsetDecl (name base : String)
  /-- The declaration of an alias. -/
  | aliasDecl (name target : String)
  /-- The declaration of a union. -/
  | unionDecl (name : String) (types : List String)
  /-- The declaration of a record type. -/
  | recordDecl (name : String)
  /-- A branch inside the declaration of a sum type. -/
  | branchDecl (name : String)
  /-- The declaration of a sum type. -/
  | adtDecl (name : String)
  deriving DecidableEq, Repr

namespace Label

/-- The name of the class of nodes with this label. -/
def className : Label → String
  | var _ => "Variable"
  | wildcard => "UnnamedVariable"
  | numeral _ _ => "NumericConstant"
  | string _ => "StringConstant"
  | nil => "NilConstant"
  | counter => "Counter"
  | iteration => "IterationCounter"
  | functor _ => "IntrinsicFunctor"
  | call _ => "UserDefinedFunctor"
  | record => "RecordInit"
  | branch _ => "BranchInit"
  | cast _ => "TypeCast"
  | aggregate _ _ => "IntrinsicAggregator"
  | fold _ => "UserDefinedAggregator"
  | atom _ => "Atom"
  | negation => "Negation"
  | comparison _ => "BinaryConstraint"
  | clause => "Clause"
  | field _ _ => "Attribute"
  | relationDecl _ => "Relation"
  | functorDecl _ _ => "FunctorDeclaration"
  | subsetDecl _ _ => "SubsetType"
  | aliasDecl _ _ => "AliasType"
  | unionDecl _ _ => "UnionType"
  | recordDecl _ => "RecordType"
  | branchDecl _ => "BranchType"
  | adtDecl _ => "AlgebraicDataType"

/-- Can a node with this label stand in an argument position? -/
def isArgument : Label → Bool
  | var _ | wildcard | numeral _ _ | string _ | nil | counter | iteration | functor _
  | call _ | record | branch _ | cast _ | aggregate _ _ | fold _ => true
  | _ => false

/-- The name a node goes by, where it has one. -/
def name? : Label → Option String
  | var name | call name | fold name | atom name | field name _ | relationDecl name
  | functorDecl name _ | subsetDecl name _ | aliasDecl name _ | unionDecl name _
  | recordDecl name | branchDecl name | adtDecl name => some name
  | _ => none

/-- The name of the type a node mentions, where it mentions one. -/
def typeName? : Label → Option String
  | cast typeName | field _ typeName => some typeName
  | _ => none

/-- The symbol of a built-in functor. -/
def symbol? : Label → Option String
  | functor symbol => some symbol
  | _ => none

/-- The text of a constant as written. -/
def constantText? : Label → Option String
  | numeral text _ => some text
  | string text => some text
  | nil => some "nil"
  | _ => none

/-- Among the children of a node with this label, is the one with the given
numbers of siblings before and after it the last of its part? -/
def endsPart : Label → (before after : Nat) → Bool
  | _, _, 0 => true
  | clause, before, _ | comparison _, before, _ | aggregate _ true, before, _ => before == 0
  | fold _, before, _ => before < 2
  | functorDecl _ _, _, after => after == 1
  | _, _, _ => false

/-- Are two labels of one class, with the same plain data? Whether an aggregate
has a target shows in its children, not in its data. -/
def agrees : Label → Label → Bool
  | aggregate op _, aggregate op' _ => op = op'
  | label, label' => label = label'

end Label

/-- A node of a syntax tree. -/
inductive Node where
  | mk (id : NodeId) (span : Option Span) (label : Label) (children : List Node)

namespace Node

/-- The identity of a node. -/
def id : Node → NodeId
  | mk id _ _ _ => id

/-- Where a node came from; nodes made by other means came from nowhere. -/
def span : Node → Option Span
  | mk _ span _ _ => span

/-- What a node is. -/
def label : Node → Label
  | mk _ _ label _ => label

/-- The children of a node, in order. -/
def children : Node → List Node
  | mk _ _ _ children => children

/-- Can the node stand in an argument position? -/
def isArgument (node : Node) : Bool :=
  node.label.isArgument

/-- The node, said to come from a place in a file. -/
def placed (node : Node) (span : Span) : Node :=
  mk node.id (some span) node.label node.children

/-- The node with other children. -/
def withChildren (node : Node) (children : List Node) : Node :=
  mk node.id node.span node.label children

/-! ## Traversal -/

mutual

/-- Every node of a tree: the root first, then the trees of its children in
order. -/
def nodes : Node → List Node
  | mk id span label children => mk id span label children :: nodesOf children

/-- Every node of a list of trees. -/
def nodesOf : List Node → List Node
  | [] => []
  | node :: rest => nodes node ++ nodesOf rest

end

/-- Every argument of a tree, in the order of the traversal. -/
def arguments (node : Node) : List Node :=
  node.nodes.filter isArgument

/-- The first identity above those of all nodes of some trees. -/
def unused (trees : List Node) : NodeId :=
  (nodesOf trees).foldl (fun next node => max next (node.id + 1)) 0

/-! ## Parts of particular nodes -/

/-- The arguments a node is applied to, for those nodes that have a list of
them. -/
def operands? (node : Node) : Option (List Node) :=
  match node.label with
  | .functor _ | .call _ | .record | .branch _ | .atom _ => some node.children
  | _ => none

/-- The target of a built-in aggregate, where it has one. -/
def target? (node : Node) : Option Node :=
  match node.label with
  | .aggregate _ true => node.children.head?
  | _ => none

/-- The parameters of a functor declaration. -/
def parameters (node : Node) : List Node :=
  node.children.dropLast

/-- The number of arguments, parameters or attributes, for those nodes that have
such a number. -/
def arity? (node : Node) : Option Nat :=
  match node.label with
  | .functor _ | .call _ | .atom _ | .relationDecl _ => some node.children.length
  | .functorDecl _ _ => some node.parameters.length
  | _ => none

/-- The operator an aggregate is known by. -/
def aggregateName? (node : Node) : Option String :=
  match node.label with
  | .aggregate op _ => some op.keyword
  | .fold name => some ("@@" ++ name)
  | _ => none

/-! ## Structural equality -/

mutual

/-- Do two trees have the same content? Identities and spans do not matter. -/
def equals : Node → Node → Bool
  | mk _ _ label children, mk _ _ label' children' =>
    label.agrees label' && equalsAll children children'

/-- Do two lists of trees have the same content, tree by tree? -/
def equalsAll : List Node → List Node → Bool
  | [], [] => true
  | node :: rest, node' :: rest' => equals node node' && equalsAll rest rest'
  | _, _ => false

end

/-! ## Copies -/

mutual

/-- A copy of a tree in which every node is new, numbered from `next` on, along
with the first number not used. -/
def copyFrom (next : NodeId) : Node → Node × NodeId
  | mk _ span label children =>
    let (copies, rest) := copyAllFrom (next + 1) children
    (mk next span label copies, rest)

/-- Copies of a list of trees, likewise. -/
def copyAllFrom (next : NodeId) : List Node → List Node × NodeId
  | [] => ([], next)
  | node :: rest =>
    let (copy, next) := copyFrom next node
    let (copies, next) := copyAllFrom next rest
    (copy :: copies, next)

end

/-! ## Changes in place -/

mutual

/-- The tree with `change` made to the node of the given identity. -/
def modify (id : NodeId) (change : Node → Node) : Node → Node
  | mk own span label children =>
    if own == id then change (mk own span label children)
    else mk own span label (modifyAll id change children)

/-- The trees with `change` made to the node of the given identity. -/
def modifyAll (id : NodeId) (change : Node → Node) : List Node → List Node
  | [] => []
  | node :: rest => modify id change node :: modifyAll id change rest

end

end Node

end DatalogTyping

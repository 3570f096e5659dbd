import DatalogTyping.Node.Basic

/-!
# Building trees

Nodes are built bottom-up, each with an identity of its own. The constructors
refuse what no program can mean: an empty name, a negation of something other
than an atom, and so on.
-/

namespace DatalogTyping

/-- Something that builds nodes: it draws new identities and may fail. -/
abbrev Build := StateT NodeId (Except Fault)

namespace Build

/-- A new node. -/
def node (label : Label) (children : List Node) : Build Node := fun next =>
  .ok (.mk next none label children, next + 1)

/-- A new node without children. -/
def leaf (label : Label) : Build Node := node label []

/-- Refuse an empty text. -/
def nonempty (text : String) (fault : Fault) : Build Unit :=
  if text.isEmpty then throw fault else pure ()

/-- Refuse everything but an atom. -/
def anAtom (node : Node) : Build Unit :=
  match node.label with
  | .atom _ => pure ()
  | _ => throw .notAnAtom

/-- A named variable. -/
def var (name : String) : Build Node := do
  nonempty name .emptyText
  leaf (.var name)

/-- A numeric constant. -/
def numeral (text : String) (fixed : Option NumericKind) : Build Node := do
  nonempty text .emptyText
  leaf (.numeral text fixed)

/-- A built-in aggregate. -/
def aggregate (op : AggregateOp) (target : Option Node) (body : List Node) : Build Node :=
  node (.aggregate op target.isSome) (target.toList ++ body)

/-- A user-defined aggregate. -/
def fold (name : String) (start target : Node) (body : List Node) : Build Node :=
  node (.fold name) (start :: target :: body)

/-- A negated atom. -/
def negation (atom : Node) : Build Node := do
  anAtom atom
  node .negation [atom]

/-- A clause. -/
def clause (head : Node) (body : List Node) : Build Node := do
  anAtom head
  node .clause (head :: body)

/-- A name with its type. -/
def field (entry : String × String) : Build Node :=
  leaf (.field entry.1 entry.2)

/-- The declaration of a relation. -/
def relationDecl (name : String) (attributes : List (String × String)) : Build Node := do
  node (.relationDecl name) (← attributes.mapM field)

/-- The declaration of a user-defined functor or aggregate. -/
def functorDecl (name : String) (params : List (String × String))
    (result : Option (String × String)) (stateful : Bool) : Build Node := do
  let params ← params.mapM field
  let result ← result.mapM field
  nonempty name .emptyFunctorName
  match result with
  | some result => node (.functorDecl name stateful) (params ++ [result])
  | none => throw .missingReturnType

/-- The declaration of a record type. -/
def recordDecl (name : String) (fields : List (String × String)) : Build Node := do
  node (.recordDecl name) (← fields.mapM field)

/-- A branch of a sum type. -/
def branchDecl (name : String) (fields : List (String × String)) : Build Node := do
  node (.branchDecl name) (← fields.mapM field)

/-- The declaration of a sum type. -/
def adtDecl (name : String) (branches : List (String × List (String × String))) :
    Build Node := do
  let branches ← branches.mapM fun branch => branchDecl branch.1 branch.2
  if branches.isEmpty then throw .noBranches
  node (.adtDecl name) branches

end Build

end DatalogTyping

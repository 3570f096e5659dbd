import DatalogTyping.Node.Text

/-!
# Programs

A program is its declarations and its clauses. The later stages do not look at
the trees of declarations but at what they say: a `TypeDecl` for each declared
type and a `Signature` for each declared functor.
-/

namespace DatalogTyping

/-- What the declaration of a type says. -/
inductive TypeDecl where
  | subset (name base : String)
  | synonym (name target : String)
  | union (name : String) (elements : List String)
  | record (name : String) (fields : List String)
  | adt (name : String) (branches : List (String × List String))
  deriving DecidableEq, Repr

/-- The name a declaration gives to its type. -/
def TypeDecl.name : TypeDecl → String
  | subset name _ | synonym name _ | union name _ | record name _ | adt name _ => name

/-- What the declaration of a functor says. -/
structure Signature where
  name : String
  /-- The names of the parameter types. -/
  params : List String
  /-- The name of the return type. -/
  result : String
  stateful : Bool
  /-- The declaration itself. -/
  node : Node

namespace Node

/-- The type names that the children of a declaration mention. -/
def fieldTypes (node : Node) : List String :=
  node.children.filterMap fun child => child.label.typeName?

/-- What a node says as the declaration of a type. -/
def typeDecl? (node : Node) : Option TypeDecl :=
  match node.label with
  | .subsetDecl name base => some (.subset name base)
  | .aliasDecl name target => some (.synonym name target)
  | .unionDecl name types => some (.union name types)
  | .recordDecl name => some (.record name node.fieldTypes)
  | .adtDecl name =>
    some (.adt name (node.children.map fun branch =>
      (branch.label.name?.getD "", branch.fieldTypes)))
  | _ => none

/-- What a node says as the declaration of a functor. -/
def signature? (node : Node) : Option Signature :=
  match node.label with
  | .functorDecl name stateful =>
    some {
      name
      params := node.fieldTypes.dropLast
      result := node.fieldTypes.getLast?.getD ""
      stateful
      node }
  | _ => none

end Node

/-- A program, as handed over by whoever read it. -/
structure Program where
  types : List Node := []
  relations : List Node := []
  functors : List Node := []
  clauses : List Node := []

namespace Program

/-- The declarations of types, in order. -/
def typeDecls (program : Program) : List TypeDecl :=
  program.types.filterMap Node.typeDecl?

/-- The declarations of functors, in order. -/
def signatures (program : Program) : List Signature :=
  program.functors.filterMap Node.signature?

/-- The declaration of a relation. Of several by one name, the last counts. -/
def relation? (program : Program) (name : String) : Option Node :=
  program.relations.reverse.find? fun relation => relation.label.name? == some name

/-- The program with one more relation. -/
def addRelation (program : Program) (relation : Node) : Program :=
  { program with relations := program.relations ++ [relation] }

/-- The program with one more clause. -/
def addClause (program : Program) (clause : Node) : Program :=
  { program with clauses := program.clauses ++ [clause] }

/-- The text of a program: types, functors, relations and clauses, each on a
line. -/
def text (program : Program) : String :=
  "\n".intercalate (Node.texts
    (program.types ++ program.functors ++ program.relations ++ program.clauses))

end Program

end DatalogTyping

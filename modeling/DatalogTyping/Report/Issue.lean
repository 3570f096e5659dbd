import DatalogTyping.Node.Text
import DatalogTyping.Report.Source
import DatalogTyping.Types.TypeSet

/-!
# Issues

A complaint about a program: what is wrong, the nodes it is about, and further
remarks. A node from a file is shown by an illustration of its line, any other
node by its text.
-/

namespace DatalogTyping

/-- A node pointed at, with a caption. -/
structure Mark where
  node : Node
  caption : String := ""

namespace Mark

/-- The path of the file the node came from. -/
def path? (mark : Mark) : Option String :=
  mark.node.span.map Span.path

/-- The picture of the node. -/
def illustrate (mark : Mark) (files : Files) : Except Fault String :=
  match mark.node.span with
  | none =>
    .ok ("       | " ++ mark.node.text ++
      if mark.caption.isEmpty then "" else "  <-- " ++ mark.caption)
  | some span => do
    let source ← files.read span.path
    let (row, column) := source.locate span.start
    return illustration (rowField row) (source.line row) column
      (max 1 (span.stop - span.start)) mark.caption

end Mark

/-- A complaint about a program. -/
structure Issue where
  intro : String
  marks : List Mark
  footer : List String := []

namespace Issue

/-- The pictures of marks, each file introduced by its path. -/
def pictures (files : Files) : Option String → List Mark → Except Fault (List String)
  | _, [] => .ok []
  | path, mark :: rest => do
    let heading := if mark.path? = path then [] else [mark.path?.getD "None"]
    let picture ← mark.illustrate files
    let others ← pictures files mark.path? rest
    return heading ++ [picture] ++ others

/-- The issue in full. -/
def text (issue : Issue) (files : Files) : Except Fault String := do
  let pictures ← pictures files none issue.marks
  return "\n".intercalate ([issue.intro, ""] ++ pictures ++ issue.footer)

/-! ## What can be wrong -/

/-- An argument can have no type. -/
def noType (clause argument : Node) : Issue where
  intro := s!"This expression can have no type in clause {clause.text}"
  marks := [{ node := argument, caption := "no type fits here" }]

/-- No overload of a functor fits its arguments. -/
def noOverload (clause node : Node) (symbol : String) (types : List TypeSet) : Issue where
  intro := s!"No overload of '{symbol}' fits these arguments in clause {clause.text}"
  marks := [{ node }]
  footer := ["Argument types were: " ++ commaList (types.map TypeSet.text)]

/-- A numeral can have no representation. -/
def unresolvedNumeral (clause node : Node) (text : String) : Issue where
  intro := s!"Cannot settle on a numeric kind for this constant in clause {clause.text}"
  marks := [{ node, caption := text }]

/-- The remark that names the clause. -/
def inClause (clause : Node) : String := s!"in clause {clause.text}"

/-- A call of a functor or aggregate that is not declared. -/
def undeclaredFunctor (clause call : Node) (name : String) : Issue where
  intro :=
    let what := match call.label with
      | .fold _ => "aggregate"
      | _ => "functor"
    s!"Nobody declared the user-defined {what} '{name}'"
  marks := [{ node := call }]
  footer := [inClause clause]

/-- A call of a functor or aggregate whose declaration mentions unknown types. -/
def illDeclaredFunctor (clause call declaration : Node) (name : String) : Issue where
  intro := s!"The declaration of '{name}' mentions types nobody declared"
  marks := [{ node := call }, { node := declaration, caption := "declared here" }]
  footer := [inClause clause]

/-- A cast to a type that is not declared. -/
def undeclaredCastType (clause cast : Node) (typeName : String) : Issue where
  intro := s!"Cannot cast to undeclared type '{typeName}'"
  marks := [{ node := cast }]
  footer := [inClause clause]

end Issue

end DatalogTyping

import DatalogTyping.Inference.Analysis

/-!
# The annotated program

The clauses of a program with each expression followed by what the analysis
decided about it: sets of types for variables, representations for numerals,
kinds of results for functors, and so on.
-/

namespace DatalogTyping

/-- Something in braces after the sign for membership. -/
def inBraces (text : String) : String := "∈\x7b" ++ text ++ "\x7d"

namespace Knowledge

/-- The operator that an aggregate or a comparison is shown with. -/
def shownOperator (known : Knowledge) (node : Node) : Except Fault String :=
  match node.label with
  | .aggregate _ _ | .comparison _ => known.operatorOf node
  | _ => .ok ""

/-- The types of an argument, after the sign for membership. -/
def shownTypes (known : Knowledge) (node : Node) : Except Fault String :=
  (known.typesOf node).map fun types => "∈" ++ types.text

/-- The declared return type of a call, if its declaration can be used. -/
def shownReturn (known : Knowledge) (node : Node) : Except Fault String :=
  if known.isSettled node then (known.returnType node).map inBraces else .ok ""

/-- An argument of an atom: those that show no types of their own are followed by
the declared type of the attribute. -/
def shownArgument (declared : List String) (index : Nat) (argument : Node) (text : String) :
    String :=
  match argument.label, declared[index]? with
  | .record, some typeName | .wildcard, some typeName | .cast _, some typeName =>
    s!"{text}∈{typeName}"
  | _, _ => text

/-- The text of a node from the texts of its children and its operator. -/
def compose (known : Knowledge) (program : Program) (node : Node) (operator : String)
    (texts : List String) : Except Fault String :=
  match node.label with
  | .clause =>
    match texts with
    | head :: literal :: body =>
      .ok (s!"{head} :- \n   " ++ ",\n   ".intercalate (literal :: body) ++ ".")
    | _ => .ok (commaList texts ++ ".")
  | .atom name =>
    let declared := match program.relation? name with
      | some relation => relation.fieldTypes
      | none => []
    let arguments := (node.children.zip texts).zipIdx.map fun ((argument, text), index) =>
      shownArgument declared index argument text
    .ok s!"{name}({commaList arguments})"
  | .negation => .ok ("!" ++ commas texts)
  | .comparison _ =>
    match texts with
    | [left, right] =>
      .ok (if operator.toList.all Char.isAlpha || operator.contains '_'
        then s!"{operator}({left}, {right})" else s!"{left} {operator} {right}")
    | _ => .ok (commaList texts)
  | .var name => (known.shownTypes node).map (name ++ ·)
  | .wildcard => .ok "_"
  | .numeral text _ =>
    .ok (text ++ inBraces (match known.numeralKind? node with
      | some kind => kind.name
      | none => "???"))
  | .string text => .ok ("\"" ++ text ++ "\"" ++ inBraces "string")
  | .nil => .ok ("nil" ++ inBraces "any_record")
  | .counter => .ok ("$" ++ inBraces "number")
  | .iteration => .ok ("@iteration()" ++ inBraces "unsigned")
  | .cast typeName => (known.shownTypes node).map (s!"as({commas texts}, {typeName})" ++ ·)
  | .record => (known.shownTypes node).map (s!"[{commaList texts}]" ++ ·)
  | .branch name => (known.shownTypes node).map (s!"${name}({commaList texts})" ++ ·)
  | .functor symbol =>
    let text := if isWrittenBetween symbol texts.length
      then "(" ++ s!" {symbol} ".intercalate texts ++ ")"
      else s!"{symbol}({commaList texts})"
    if known.isSettled node then
      (known.returnKind node).map fun kind => text ++ inBraces kind.name
    else .ok (text ++ inBraces "???")
  | .call name => (known.shownReturn node).map (s!"@{name}({commaList texts})" ++ ·)
  | .aggregate _ targeted =>
    let text := match targeted, texts with
      | true, target :: body => aggregateText operator (some target) body
      | _, body => aggregateText operator none body
    (known.shownTypes node).map (text ++ ·)
  | .fold name =>
    let text := match texts with
      | start :: target :: body => aggregateText s!"@@{name} {start}," (some target) body
      | _ => commaList texts
    (known.shownReturn node).map (text ++ ·)
  | .field _ _ | .relationDecl _ | .functorDecl _ _ | .subsetDecl _ _ | .aliasDecl _ _
  | .unionDecl _ _ | .recordDecl _ | .branchDecl _ | .adtDecl _ => .error .lacksProperty

mutual

/-- The annotated text of a tree. An operator is looked up before the children
are shown, everything else after. -/
def annotatedText (known : Knowledge) (program : Program) : Node → Except Fault String
  | .mk id span label children => do
    let node := Node.mk id span label children
    let operator ← known.shownOperator node
    let texts ← annotatedTexts known program children
    known.compose program node operator texts

/-- The annotated texts of a list of trees. -/
def annotatedTexts (known : Knowledge) (program : Program) :
    List Node → Except Fault (List String)
  | [] => .ok []
  | node :: rest => do
    let text ← annotatedText known program node
    let texts ← annotatedTexts known program rest
    .ok (text :: texts)

end

/-- The annotated text of a program: its clauses, one after another. -/
def annotatedProgram (known : Knowledge) (program : Program) : Except Fault String :=
  (known.annotatedTexts program program.clauses).map ("\n".intercalate ·)

end Knowledge

/-- The account of the last round: traces, annotated clauses and the annotated
program. -/
def Analysis.account (analysis : Analysis) (context : Context) (program : Program) :
    Except Fault String := do
  let annotated ← analysis.annotated.mapM Node.legibleText
  let printed ← (analysis.known context).annotatedProgram program
  return "\n".intercalate (["-- Analysis logs --"] ++ analysis.logs ++ ["-- Result --"] ++
    annotated ++ ["-- Result (2) --", printed])

end DatalogTyping

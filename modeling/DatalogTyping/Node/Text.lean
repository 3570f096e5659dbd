import DatalogTyping.Node.Basic

/-!
# The text of a tree

Every node is shown as the Datalog text it stands for. The text depends on the
label and the texts of the children; only a functor declaration looks at the
labels of its children, since it shows parameters in a form of its own.
-/

namespace DatalogTyping

/-- Texts with a comma between them. -/
def commas (texts : List String) : String := ",".intercalate texts

/-- Texts with a comma and a blank between them. -/
def commaList (texts : List String) : String := ", ".intercalate texts

/-- Texts with a bar between them. -/
def bars (texts : List String) : String := " | ".intercalate texts

/-- A symbol as written between its arguments: words are set off by blanks. -/
def spacedSymbol (symbol : String) : String :=
  if symbol.toList.all Char.isAlpha then s!" {symbol} " else symbol

/-- An aggregate from its operator, its target and its body. -/
def aggregateText (head : String) (target : Option String) (body : List String) : String :=
  let target := match target with
    | some text => " " ++ text
    | none => ""
  head ++ target ++ " : \x7b " ++ commaList body ++ " \x7d"

/-- A comparison: pattern tests stand in front of their operands, the others
between them. -/
def comparisonText (op : ComparisonOp) (left right : String) : String :=
  if op.isSymbolic then s!"{op.sign}({left}, {right})" else s!"{left} {op.sign} {right}"

namespace Label

/-- A parameter in a functor declaration. -/
def parameterText (label : Label) : String :=
  label.name?.getD "" ++ ": " ++ label.typeName?.getD ""

/-- The text of a node from its label and the labels and texts of its
children. -/
def layout : Label → List Label → List String → String
  | var name, _, _ => name
  | wildcard, _, _ => "_"
  | numeral text _, _, _ => text
  | string text, _, _ => "\"" ++ text ++ "\""
  | nil, _, _ => "nil"
  | counter, _, _ => "$"
  | iteration, _, _ => "@iteration()"
  | functor symbol, _, texts =>
    match isWrittenBetween symbol texts.length, texts with
    | true, [left, right] => s!"({left}{spacedSymbol symbol}{right})"
    | _, _ => s!"{symbol}({commas texts})"
  | call name, _, texts => s!"@{name}({commas texts})"
  | record, _, texts => s!"[{commas texts}]"
  | branch name, _, texts => s!"${name}({commaList texts})"
  | cast typeName, _, texts => s!"as({commas texts}, {typeName})"
  | aggregate op true, _, target :: body => aggregateText op.keyword (some target) body
  | aggregate op _, _, body => aggregateText op.keyword none body
  | fold name, _, start :: target :: body =>
    aggregateText s!"@@{name} {start}," (some target) body
  | fold name, _, texts => aggregateText s!"@@{name}" none texts
  | atom name, _, texts => s!"{name}({commas texts})"
  | negation, _, texts => s!"!{commas texts}"
  | comparison op, _, [left, right] => comparisonText op left right
  | comparison op, _, texts => s!"{op.sign}({commaList texts})"
  | clause, _, head :: literal :: body => s!"{head} :- {commaList (literal :: body)}."
  | clause, _, texts => s!"{commaList texts}."
  | field name typeName, _, _ => s!"{name}:{typeName}"
  | relationDecl name, _, texts => s!".decl {name}({commaList texts})"
  | functorDecl name stateful, labels, _ =>
    let result := (labels.getLast?.bind typeName?).getD ""
    let mark := if stateful then " stateful" else ""
    s!".functor {name}({commas (labels.dropLast.map parameterText)}): {result}{mark}"
  | subsetDecl name base, _, _ => s!".type {name} <: {base}"
  | aliasDecl name target, _, _ => s!".type {name} = {target}"
  | unionDecl name types, _, _ => s!".type {name} = {bars types}"
  | recordDecl name, _, texts => s!".type {name} = [{commaList texts}]"
  | branchDecl name, _, texts => s!"{name} \x7b{commaList texts}\x7d"
  | adtDecl name, _, texts => s!".type {name} = {bars texts}"

end Label

namespace Node

mutual

/-- The text of a tree. -/
def text : Node → String
  | mk _ _ label children => label.layout (children.map Node.label) (texts children)

/-- The texts of a list of trees. -/
def texts : List Node → List String
  | [] => []
  | node :: rest => text node :: texts rest

end

/-- A node shown with its class. -/
def shown (node : Node) : String :=
  s!"<{node.label.className} {node.text}>"

mutual

/-- Can the tree be shown? Every functor declaration in it needs a name and a
type for each parameter, and a type for its return type. -/
def isLegible : Node → Bool
  | mk _ _ (.functorDecl _ _) children =>
    (children.dropLast.all fun child =>
      child.label.name?.isSome && child.label.typeName?.isSome) &&
    (match children.getLast? with
      | some child => child.label.typeName?.isSome
      | none => false)
  | mk _ _ _ children => allLegible children

/-- Can all the trees be shown? -/
def allLegible : List Node → Bool
  | [] => true
  | node :: rest => isLegible node && allLegible rest

end

/-- The text of a tree that may not be legible. -/
def legibleText (node : Node) : Except Fault String :=
  if node.isLegible then .ok node.text else .error .lacksProperty

/-- A node shown with its class, if it is legible. -/
def legibleShown (node : Node) : Except Fault String :=
  node.legibleText.map fun _ => node.shown

end Node

end DatalogTyping

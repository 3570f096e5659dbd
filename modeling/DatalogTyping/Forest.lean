import DatalogTyping.Node.Text
import DatalogTyping.Node.Build

/-!
# Forests

Trees that are looked at and changed in place. A node is addressed by its
identity wherever it stands; a node that a change cuts off stays in the forest
as a tree of its own, because somebody may still address it. Slots hold the
addresses, in the order they were handed out.
-/

namespace DatalogTyping

/-- A forest with its slots. -/
structure Forest where
  /-- The trees. No node stands in two places. -/
  trees : List Node
  /-- The addresses handed out, oldest first. -/
  slots : List NodeId
  /-- The first identity that no node has. -/
  next : NodeId

namespace Forest

/-- The forest of the given trees, each in a slot of its own. -/
def ofTrees (trees : List Node) (next : NodeId) : Forest :=
  { trees, slots := trees.map Node.id, next }

/-- The node of the given identity. -/
def find? (forest : Forest) (id : NodeId) : Option Node :=
  (Node.nodesOf forest.trees).find? fun node => node.id == id

/-- The node in a slot; slots are counted from either end. -/
def slot (forest : Forest) (position : Int) : Except Fault Node := do
  let id ← elementAt forest.slots position
  match forest.find? id with
  | some node => .ok node
  | none => .error .noEntry

/-- Hand out the address of a node. -/
def handOut (forest : Forest) (node : Node) : Forest :=
  { forest with slots := forest.slots ++ [node.id] }

/-- Copy the tree under a node; the copy gets a slot. -/
def clone (forest : Forest) (node : Node) : Forest :=
  let (copy, next) := node.copyFrom forest.next
  { trees := forest.trees ++ [copy], slots := forest.slots ++ [copy.id], next }

/-- Say that a node comes from a place in a file. -/
def place (forest : Forest) (node : Node) (span : Span) : Forest :=
  { forest with trees := Node.modifyAll node.id (·.placed span) forest.trees }

/-- Give a node other children; what is cut off stays in the forest. -/
def regrow (forest : Forest) (node : Node) (children cut : List Node) (next : NodeId) : Forest :=
  { forest with
    trees := Node.modifyAll node.id (·.withChildren children) forest.trees ++ cut
    next }

/-- Replace every child of a node by something newly built. -/
def replaceChildren (forest : Forest) (node : Node) (build : Build Node) :
    Except Fault Forest := do
  let (children, next) ← (node.children.mapM fun _ => build).run forest.next
  return forest.regrow node children node.children next

/-! ## Replacing nodes

Replacements are built one after another, and building one may fail. What is
replaced by then stays replaced, part by part: the children of a node that belong
to one part, such as the body of a clause, are exchanged together, once there is
a replacement for each.
-/

/-- What is to be built in place of a node of the given identity and label, if
something else is to stand there. -/
abbrev Replacement := NodeId → Label → Option (Build Node)

/-- How far replacing got at one node. -/
structure Visit where
  /-- The node, with the changes made below it. -/
  node : Node
  /-- The nodes cut off below it. -/
  cut : List Node
  /-- The first identity that no node has. -/
  next : NodeId
  /-- What is to stand in place of the node, if something else is. -/
  instead : Except Fault (Option Node)

/-- How far replacing got among siblings. -/
structure Tour where
  /-- The siblings as they stand now. -/
  nodes : List Node
  /-- The nodes cut off. -/
  cut : List Node
  /-- The first identity that no node has. -/
  next : NodeId
  /-- What it failed for, if it failed. -/
  fault : Option Fault
  /-- Did it fail within the part of the first sibling? -/
  broken : Bool

mutual

/-- Replace nodes below a node, and build what stands in place of the node
itself. -/
def visit (replace : Replacement) (next : NodeId) : Node → Visit
  | .mk id span label children =>
    let below := tour replace label 0 next children
    let stay (instead : Except Fault (Option Node)) (next : NodeId) : Visit :=
      { node := .mk id span label below.nodes, cut := below.cut, next, instead }
    match below.fault, replace id label with
    | some fault, _ => stay (.error fault) below.next
    | none, none => stay (.ok none) below.next
    | none, some build =>
      match build.run below.next with
      | .error fault => stay (.error fault) below.next
      | .ok (fresh, next) => stay (.ok (some fresh)) next

/-- Replace nodes among children of a node with the given label, `before` of
which have been dealt with. -/
def tour (replace : Replacement) (label : Label) (before : Nat) (next : NodeId) :
    List Node → Tour
  | [] => { nodes := [], cut := [], next, fault := none, broken := false }
  | node :: rest =>
    let here := visit replace next node
    match here.instead with
    | .error fault =>
      { nodes := here.node :: rest, cut := here.cut, next := here.next, fault := some fault,
        broken := true }
    | .ok instead =>
      let there := tour replace label (before + 1) here.next rest
      let broken := there.broken && !label.endsPart before rest.length
      match instead, broken with
      | some fresh, false =>
        { there with nodes := fresh :: there.nodes, cut := here.node :: here.cut ++ there.cut, broken }
      | _, _ =>
        { there with nodes := here.node :: there.nodes, cut := here.cut ++ there.cut, broken }

end

/-- Replace nodes below a node; the node itself stays what it is. The forest as it
is afterwards, and why not everything was replaced, if so. -/
def rewrite (forest : Forest) (node : Node) (replace : Replacement) : Forest × Option Fault :=
  let done := tour replace node.label 0 forest.next node.children
  (forest.regrow node done.nodes done.cut done.next, done.fault)

/-- Replace the variables below a node that `pick` knows by their names. -/
def rename (forest : Forest) (node : Node) (pick : String → Option (Build Node)) :
    Forest × Option Fault :=
  forest.rewrite node fun _ label =>
    match label with
    | .var name => pick name
    | _ => none

end Forest

end DatalogTyping

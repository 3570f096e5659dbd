import DatalogTyping.Proofs.Annotations
import DatalogTyping.Proofs.Likeness

/-!
# What annotated clauses show

An annotated clause has a node for every node of the clause, in the order of the
traversal. A variable has its set of types in its name, and any other node is what it was
(`ClauseTyping.Shows`). The set is the one that the typing has for the variable, and the
typing has its sets in the order of the arguments, wherever they stand.

Two orders have to agree for this. The sets are looked up by the identities of the copy
while its nodes are replaced one after another. The copy is numbered in the order of the
traversal, so a node is found under its own number and no other (`get?_of_nodup`), and
arguments keep their order when all other nodes are left out (`getElem?_filter_countP`).
-/

namespace DatalogTyping

/-! ### Positions -/

/-- How many arguments come before a position of the traversal. -/
def Node.argumentsBefore (root : Node) (i : Nat) : Nat :=
  (root.nodes.take i).countP isArgument

theorem Node.argumentsBefore_copyFrom (next : NodeId) (root : Node) (i : Nat) :
    (root.copyFrom next).1.argumentsBefore i = root.argumentsBefore i := by
  have onLabels (node : Node) : node.argumentsBefore i =
      ((node.nodes.map label).take i).countP Label.isArgument := by
    rw [argumentsBefore, ← List.map_take, List.countP_map]
    rfl
  rw [onLabels, onLabels, map_label_copyFrom]

/-- A copy has, at each position, the label and the span that stood there. -/
theorem Node.getElem?_copyFrom (next : NodeId) {root node : Node} {i : Nat}
    (h : root.nodes[i]? = some node) : ∃ copy, (root.copyFrom next).1.nodes[i]? = some copy ∧
      copy.label = node.label ∧ copy.span = node.span := by
  have contents := congrArg (·[i]?) (map_copyFrom (fun label span => (label, span)) next root)
  simp only [List.getElem?_map, h, Option.map_some, Option.map_eq_some_iff, Prod.mk.injEq]
    at contents
  exact contents

namespace ClauseTyping

variable {typing : ClauseTyping} {node now : Node}

/-- What a node of a clause becomes, depending on the set of types at its position. -/
inductive Shows (types? : Option TypeSet) (node now : Node) : Prop
  | named {name : String} {types : TypeSet} (label : node.label = .var name)
      (known : types? = some types) (shown : now.label = .var (name ++ "∈" ++ types.text))
  | unnamed {types : TypeSet} (label : node.label = .wildcard) (known : types? = some types)
      (shown : now.label = .var ("_" ++ "∈" ++ types.text))
  | other (named : ∀ name, node.label ≠ .var name) (unnamed : node.label ≠ .wildcard)
      (label : now.label = node.label) (span : now.span = node.span)

/-- Position by position, the tree shows the clause and its sets of types. -/
structure ShownBy (typing : ClauseTyping) (tree : Node) : Prop where
  length : tree.nodes.length = typing.clause.nodes.length
  shows {i : Nat} {node now : Node} (before : typing.clause.nodes[i]? = some node)
    (after : tree.nodes[i]? = some now) :
      Shows typing.typeSets[typing.clause.argumentsBefore i]? node now

theorem get?_of_nodup (distinct : (typing.clause.nodes.map Node.id).Nodup) {i : Nat}
    (h : typing.clause.nodes[i]? = some node) (argument : node.isArgument) :
    typing.get? node.id = typing.typeSets[typing.clause.argumentsBefore i]? := by
  have arguments : (typing.clause.arguments.map Node.id).Nodup :=
    distinct.sublist (List.Sublist.map _ List.filter_sublist)
  exact find?_zip_of_nodup arguments (getElem?_filter_countP h argument)

/-! ### Copies of clauses -/

theorem forms_of_annotations_eq_some {id : NodeId} {label : Label} {build : Build Node}
    (h : typing.annotations id label = some build) : label.forms = [] := by
  cases label with
  | var | wildcard => rfl
  | _ => cases h

theorem annotations_leafwise (constructed : typing.clause.Constructed)
    (hnode : node ∈ typing.clause.nodes) :
    Forest.Replacement.Leafwise typing.annotations node := by
  intro build hbuild
  refine ⟨constructed.children_eq_nil hnode (forms_of_annotations_eq_some hbuild), ?_⟩
  intro next fresh later run
  obtain ⟨-, name, rfl⟩ := annotations_eq_some hbuild
  obtain ⟨types, -, rfl, -⟩ := typedVar_run_eq_ok run
  rfl

/-- In the annotated copy there stands one node for each node of the copy. -/
theorem twin_stands (sized : typing.Sized) (clause : typing.clause.label = .clause)
    (constructed : typing.clause.Constructed) (next : NodeId) :
    List.Forall₂ (Forest.Stands (typing.onCopy next).annotations)
      (typing.onCopy next).clause.nodes (typing.twin next).nodes := by
  have same := Node.same_copyFrom next typing.clause
  have root : (typing.onCopy next).clause.label = .clause := same.label.symm.trans clause
  have below {node : Node} (h : node ∈ Node.nodesOf (typing.onCopy next).clause.children) :
      node ∈ (typing.onCopy next).clause.nodes := by
    rw [Node.nodes_eq]
    exact List.mem_cons_of_mem _ h
  rw [Node.nodes_eq, Node.nodes_eq (typing.twin next)]
  refine .cons (.stays ?_ rfl rfl) (Forest.tour_stands ?_ ?_ _ 0 _)
  · rw [root]
    rfl
  · exact fun node hnode => (sized.onCopy next).annotations_build (below hnode)
  · exact fun node hnode => annotations_leafwise (same.constructed constructed) (below hnode)

theorem shows_of_stands {next : NodeId} {copy : Node} {i : Nat}
    (hcopy : (typing.onCopy next).clause.nodes[i]? = some copy) (label : copy.label = node.label)
    (span : copy.span = node.span)
    (stands : Forest.Stands (typing.onCopy next).annotations copy now) :
    Shows typing.typeSets[typing.clause.argumentsBefore i]? node now := by
  have distinct : ((typing.onCopy next).clause.nodes.map Node.id).Nodup :=
    Node.nodup_copyFrom next typing.clause
  have known {types : TypeSet} (argument : copy.isArgument)
      (h : (typing.onCopy next).lookup copy.id = .ok types) :
      typing.typeSets[typing.clause.argumentsBefore i]? = some types := by
    rw [← Node.argumentsBefore_copyFrom next, ← get?_of_lookup_eq_ok h]
    exact (get?_of_nodup distinct hcopy argument).symm
  cases stands with
  | stays keep label' span' =>
      refine .other ?_ ?_ (label'.trans label) (span'.trans span)
      · intro name hname
        rw [label, hname] at keep
        cases keep
      · intro hwildcard
        rw [label, hwildcard] at keep
        cases keep
  | built change run =>
      cases hlabel : node.label with
      | var name =>
          rw [label, hlabel] at change
          obtain rfl := Option.some.inj change
          obtain ⟨types, hlookup, rfl, -⟩ := typedVar_run_eq_ok run
          exact .named hlabel (known (by rw [Node.isArgument, label, hlabel]; rfl) hlookup) rfl
      | wildcard =>
          rw [label, hlabel] at change
          obtain rfl := Option.some.inj change
          obtain ⟨types, hlookup, rfl, -⟩ := typedVar_run_eq_ok run
          exact .unnamed hlabel (known (by rw [Node.isArgument, label, hlabel]; rfl) hlookup) rfl
      | _ =>
          rw [label, hlabel] at change
          cases change

theorem twin_shownBy (sized : typing.Sized) (clause : typing.clause.label = .clause)
    (constructed : typing.clause.Constructed) (next : NodeId) :
    typing.ShownBy (typing.twin next) := by
  obtain ⟨lengths, stands⟩ := List.forall₂_iff_get.mp (twin_stands sized clause constructed next)
  have copied := congrArg List.length (Node.map_label_copyFrom next typing.clause)
  rw [List.length_map, List.length_map] at copied
  refine ⟨lengths.symm.trans copied, ?_⟩
  intro i node now before after
  obtain ⟨copy, hcopy, label, span⟩ := Node.getElem?_copyFrom next before
  obtain ⟨hi, rfl⟩ := List.getElem?_eq_some_iff.mp hcopy
  obtain ⟨hi', rfl⟩ := List.getElem?_eq_some_iff.mp after
  exact shows_of_stands hcopy label span (stands i hi hi')

theorem annotated_eq (sized : typing.Sized) :
    typing.annotated = typing.twin (clauses [typing]).next := by
  obtain ⟨after, hannotate, -⟩ := Forest.annotate_eq_ok (P := fun _ _ => True)
    (fun _ _ _ => trivial) (clauses_fresh [typing]) sized fun _ _ _ _ => trivial
  simp only [annotated, annotateAll, Forest.annotateAll, if_true, hannotate]
  rfl

/-- A clause can be annotated in any forest. What is made is new and shows, position by
position, the clause and its sets of types. Every node that was there before is as it was,
with all the nodes under it. -/
theorem annotate_positional {forest : Forest} (fresh : forest.Fresh) (sized : typing.Sized)
    (clause : typing.clause.label = .clause) (constructed : typing.clause.Constructed) :
    (∃ after twin, forest.annotate typing = .ok (after, twin) ∧ typing.ShownBy twin ∧
      (∀ node ∈ twin.nodes, forest.next ≤ node.id) ∧
      ∀ id node, forest.find? id = some node → after.find? id = some node) ∧
    typing.ShownBy typing.annotated := by
  have shown := twin_shownBy sized clause constructed
  obtain ⟨after, hannotate, -, kept, within⟩ := Forest.annotate_eq_ok
    (P := fun id _ => forest.next ≤ id) (fun _ _ h => h) fresh sized fun _ _ _ h => h
  refine ⟨⟨after, _, hannotate, shown forest.next, ?_, ?_⟩, annotated_eq sized ▸ shown _⟩
  · exact fun node hnode => (within node ((Node.nodesOf_singleton _).symm ▸ hnode)).2
  · exact fun id node => Forest.find?_of_kept kept

/-- `p(x, _) :- !q(x), r([x, _]), x = sum y : { q(y) }.`, with a set of types for each of its
ten arguments. -/
def mixedTyping : ClauseTyping where
  clause :=
    let var (id : NodeId) (name : String) := Node.mk id none (.var name) []
    let wildcard (id : NodeId) := Node.mk id none .wildcard []
    let head := .mk 1 none (.atom "p") [var 2 "x", wildcard 3]
    let negation := .mk 4 none .negation [.mk 5 none (.atom "q") [var 6 "x"]]
    let record := .mk 8 none .record [var 9 "x", wildcard 10]
    let atom := .mk 7 none (.atom "r") [record]
    let sum := .mk 13 none (.aggregate .sum true)
      [var 14 "y", .mk 15 none (.atom "q") [var 16 "y"]]
    let equation := .mk 11 none (.comparison .eq) [var 12 "x", sum]
    .mk 0 none .clause [head, negation, atom, equation]
  typeSets :=
    let number := .only (.single "number")
    [number, .all, number, .only (.single "pair"), number, .all, number, number, number, number]

theorem annotate_positional_mixedTyping :
    ∃ after twin, (clauses [mixedTyping]).annotate mixedTyping = .ok (after, twin) ∧
      mixedTyping.ShownBy twin ∧ (clauses [mixedTyping]).find? 0 = some mixedTyping.clause ∧
      after.find? 0 = some mixedTyping.clause := by
  have sized : mixedTyping.Sized := rfl
  have constructed : mixedTyping.clause.Constructed := by decide
  obtain ⟨⟨after, twin, hannotate, shown, -, kept⟩, -⟩ :=
    annotate_positional (clauses_fresh [mixedTyping]) sized rfl constructed
  exact ⟨after, twin, hannotate, shown, rfl, kept 0 _ rfl⟩

end ClauseTyping

end DatalogTyping

import Mathlib.Data.List.Range
import DatalogTyping.Node.Text
import DatalogTyping.Proofs.Sequences

/-!
# Nodes of trees

The traversal of a tree yields the root and then the nodes of the trees below it, so
a statement about all nodes of a tree is one about the root and about the trees of its
children.

A copy of a tree has the same labels and spans in the same order, and its nodes are
numbered in that order, one by one (`map_copyFrom`, `map_id_copyFrom`). So no two of its nodes
share an identity, and none has one from before. A change to a node leaves trees alone
in which the node does not occur (`modifyAll_of_absent`).

A tree without declarations can be shown (`isLegible_of_labels`).
-/

namespace DatalogTyping

namespace Node

variable {root node child : Node} {trees : List Node}

theorem nodes_eq (root : Node) : root.nodes = root :: nodesOf root.children := by
  obtain ⟨id, span, label, children⟩ := root
  rw [nodes]
  rfl

theorem mem_nodes_self (root : Node) : root ∈ root.nodes := by
  rw [nodes_eq]
  exact List.mem_cons_self

theorem mem_nodesOf : node ∈ nodesOf trees ↔ ∃ root ∈ trees, node ∈ root.nodes := by
  induction trees with
  | nil => simp [nodesOf]
  | cons first rest ih => simp [nodesOf, ih]

theorem mem_nodes_of_child (hchild : child ∈ root.children) (hnode : node ∈ child.nodes) :
    node ∈ root.nodes := by
  rw [nodes_eq, List.mem_cons]
  exact .inr (mem_nodesOf.mpr ⟨child, hchild, hnode⟩)

theorem nodesOf_singleton (root : Node) : nodesOf [root] = root.nodes := by
  rw [nodesOf, nodesOf, List.append_nil]

theorem nodesOf_append (trees others : List Node) :
    nodesOf (trees ++ others) = nodesOf trees ++ nodesOf others := by
  induction trees with
  | nil => simp [nodesOf]
  | cons first rest ih => simp [nodesOf, ih]

/-- What every node has if its children have it, all nodes have. -/
@[elab_as_elim]
theorem childInduction {motive : Node → Prop}
    (step : ∀ node, (∀ child ∈ node.children, motive child) → motive node) : ∀ node, motive node
  | .mk _ _ _ children => step _ fun child (_ : child ∈ children) => childInduction step child

/-- A child of a node of a tree is a node of it, too. -/
theorem child_mem_nodes (hnode : node ∈ root.nodes) (hchild : child ∈ node.children) :
    child ∈ root.nodes := by
  induction root using childInduction with
  | step root ih =>
      rw [nodes_eq, List.mem_cons] at hnode
      rcases hnode with rfl | hnode
      · exact mem_nodes_of_child hchild child.mem_nodes_self
      · obtain ⟨top, htop, hnode⟩ := mem_nodesOf.mp hnode
        exact mem_nodes_of_child htop (ih top htop hnode)

/-- A child of a node of some trees is a node of them, too. -/
theorem child_mem_nodesOf (trees : List Node) (hnode : node ∈ nodesOf trees)
    (hchild : child ∈ node.children) : child ∈ nodesOf trees := by
  obtain ⟨root, hroot, hnode⟩ := mem_nodesOf.mp hnode
  exact mem_nodesOf.mpr ⟨root, hroot, child_mem_nodes hnode hchild⟩

/-- The nodes under a node of some trees are nodes of them. -/
theorem mem_nodesOf_trans (hnode : node ∈ nodesOf trees) (hchild : child ∈ node.nodes) :
    child ∈ nodesOf trees := by
  induction node using childInduction with
  | step node ih =>
      rw [nodes_eq, List.mem_cons] at hchild
      rcases hchild with rfl | hchild
      · exact hnode
      · obtain ⟨top, htop, hchild⟩ := mem_nodesOf.mp hchild
        exact ih top htop (child_mem_nodesOf trees hnode htop) hchild

/-! ### Identities that are free -/

theorem lt_foldl_max_of_mem {nodes : List Node} {start : NodeId} (h : node ∈ nodes) :
    node.id < nodes.foldl (fun next node => max next (node.id + 1)) start := by
  induction nodes using List.reverseRecOn with
  | nil => cases h
  | append_singleton nodes last ih =>
      rw [List.foldl_append, List.foldl_cons, List.foldl_nil]
      rcases List.mem_append.mp h with h | h
      · exact Nat.lt_of_lt_of_le (ih h) (Nat.le_max_left _ _)
      · rw [List.mem_singleton.mp h]
        exact Nat.lt_of_lt_of_le (Nat.lt_succ_self _) (Nat.le_max_right _ _)

theorem id_lt_unused (h : node ∈ nodesOf trees) : node.id < unused trees := lt_foldl_max_of_mem h

/-! ### Copies -/

mutual

/-- A copy is numbered in the order of the traversal. -/
theorem map_id_copyFrom (next : NodeId) : ∀ root : Node,
    (root.copyFrom next).1.nodes.map id = List.range' next root.nodes.length ∧
      (root.copyFrom next).2 = next + root.nodes.length
  | mk _ _ _ children => by
      obtain ⟨ids, rest⟩ := map_id_copyAllFrom (next + 1) children
      simp only [copyFrom, nodes, List.map_cons, List.length_cons, List.range'_succ, ids, rest]
      exact ⟨rfl, Nat.add_right_comm next 1 _⟩

theorem map_id_copyAllFrom (next : NodeId) : ∀ trees : List Node,
    (nodesOf (copyAllFrom next trees).1).map id = List.range' next (nodesOf trees).length ∧
      (copyAllFrom next trees).2 = next + (nodesOf trees).length
  | [] => by simp [copyAllFrom, nodesOf]
  | root :: others => by
      obtain ⟨ids, rest⟩ := map_id_copyFrom next root
      obtain ⟨ids', rest'⟩ := map_id_copyAllFrom (root.copyFrom next).2 others
      simp only [copyAllFrom, nodesOf, List.map_append, List.length_append, ids, ids', rest']
      rw [rest, List.range'_append_1]
      exact ⟨rfl, Nat.add_assoc _ _ _⟩

end

mutual

/-- A copy has the same labels and spans in the same order. -/
theorem map_copyFrom {α : Type} (f : Label → Option Span → α) (next : NodeId) : ∀ root : Node,
    (root.copyFrom next).1.nodes.map (fun node => f node.label node.span) =
      root.nodes.map (fun node => f node.label node.span)
  | mk _ _ _ children => by
      have contents := map_copyAllFrom f (next + 1) children
      simp only [copyFrom, nodes, List.map_cons, contents]
      rfl

theorem map_copyAllFrom {α : Type} (f : Label → Option Span → α) (next : NodeId) :
    ∀ trees : List Node,
      (nodesOf (copyAllFrom next trees).1).map (fun node => f node.label node.span) =
        (nodesOf trees).map (fun node => f node.label node.span)
  | [] => by simp [copyAllFrom, nodesOf]
  | root :: others => by
      have contents := map_copyFrom f next root
      have contents' := map_copyAllFrom f (root.copyFrom next).2 others
      simp only [copyAllFrom, nodesOf, List.map_append, contents, contents']

end

theorem map_label_copyFrom (next : NodeId) (root : Node) :
    (root.copyFrom next).1.nodes.map label = root.nodes.map label :=
  map_copyFrom (fun label _ => label) next root

variable {next : NodeId}

theorem id_copyFrom (next : NodeId) (root : Node) : (root.copyFrom next).1.id = next := by
  obtain ⟨id, span, label, children⟩ := root
  rw [copyFrom]
  rfl

theorem lt_copyFrom (next : NodeId) (root : Node) : next < (root.copyFrom next).2 := by
  rw [(map_id_copyFrom next root).2, nodes_eq, List.length_cons]
  exact Nat.lt_add_of_pos_right (Nat.succ_pos _)

theorem le_copyFrom (next : NodeId) (root : Node) : next ≤ (root.copyFrom next).2 :=
  Nat.le_of_lt (lt_copyFrom next root)

theorem id_of_mem_copyFrom (h : node ∈ (root.copyFrom next).1.nodes) :
    next ≤ node.id ∧ node.id < (root.copyFrom next).2 := by
  obtain ⟨ids, rest⟩ := map_id_copyFrom next root
  have hid : node.id ∈ (root.copyFrom next).1.nodes.map id := List.mem_map_of_mem h
  rw [ids, List.mem_range'_1] at hid
  rwa [rest]

theorem nodup_copyFrom (next : NodeId) (root : Node) :
    ((root.copyFrom next).1.nodes.map id).Nodup := by
  rw [(map_id_copyFrom next root).1]
  exact List.nodup_range'

theorem label_of_mem_copyFrom (h : node ∈ (root.copyFrom next).1.nodes) :
    ∃ original ∈ root.nodes, original.label = node.label := by
  have hlabel : node.label ∈ (root.copyFrom next).1.nodes.map label := List.mem_map_of_mem h
  rw [map_label_copyFrom] at hlabel
  exact List.mem_map.mp hlabel

theorem map_label_arguments (root : Node) :
    root.arguments.map label = (root.nodes.map label).filter Label.isArgument := by
  rw [arguments, List.filter_map]
  rfl

theorem map_label_arguments_copyFrom (next : NodeId) (root : Node) :
    (root.copyFrom next).1.arguments.map label = root.arguments.map label := by
  rw [map_label_arguments, map_label_arguments, map_label_copyFrom]

/-! ### Changes in place -/

theorem modifyAll_eq_map (id : NodeId) (change : Node → Node) (trees : List Node) :
    modifyAll id change trees = trees.map (modify id change) := by
  induction trees with
  | nil => rw [modifyAll, List.map_nil]
  | cons root rest ih => rw [modifyAll, ih, List.map_cons]

theorem modify_eq (id : NodeId) (change : Node → Node) (root : Node) :
    modify id change root =
      if root.id = id then change root
      else root.withChildren (root.children.map (modify id change)) := by
  obtain ⟨own, span, label, children⟩ := root
  simp only [modify, modifyAll_eq_map, beq_iff_eq]
  rfl

theorem modifyAll_unchanged (id : NodeId) (trees : List Node) :
    modifyAll id (fun node => node) trees = trees := by
  have unchanged (root : Node) : modify id (fun node => node) root = root := by
    induction root using childInduction with
    | step root ih =>
        obtain ⟨own, span, label, children⟩ := root
        rw [modify_eq, List.map_congr_left ih, List.map_id']
        exact ite_self _
  rw [modifyAll_eq_map, List.map_congr_left fun root _ => unchanged root, List.map_id']

theorem modify_self (change : Node → Node) (root : Node) :
    modify root.id change root = change root := by
  obtain ⟨id, span, label, children⟩ := root
  simp [modify, Node.id]

theorem modifyAll_append (id : NodeId) (change : Node → Node) (trees others : List Node) :
    modifyAll id change (trees ++ others) =
      modifyAll id change trees ++ modifyAll id change others := by
  induction trees with
  | nil => simp [modifyAll]
  | cons first rest ih => simp [modifyAll, ih]

mutual

theorem modify_of_absent {id : NodeId} (change : Node → Node) : ∀ root : Node,
    (∀ node ∈ root.nodes, node.id ≠ id) → modify id change root = root
  | mk own _ _ children, absent => by
      rw [nodes, List.forall_mem_cons] at absent
      have other : ¬ own = id := absent.1
      simp [modify, other, modifyAll_of_absent change children absent.2]

theorem modifyAll_of_absent {id : NodeId} (change : Node → Node) : ∀ trees : List Node,
    (∀ node ∈ nodesOf trees, node.id ≠ id) → modifyAll id change trees = trees
  | [], _ => by rw [modifyAll]
  | root :: rest, absent => by
      rw [nodesOf, List.forall_mem_append] at absent
      rw [modifyAll, modify_of_absent change root absent.1, modifyAll_of_absent change rest absent.2]

end

end Node

/-! ### Texts of trees -/

namespace Node

theorem texts_eq_map (nodes : List Node) : texts nodes = nodes.map text := by
  induction nodes with
  | nil => rfl
  | cons node rest ih => rw [texts, ih, List.map_cons]

theorem text_eq (node : Node) :
    node.text = node.label.layout (node.children.map Node.label) (node.children.map text) := by
  obtain ⟨id, span, label, children⟩ := node
  rw [text, texts_eq_map]
  rfl

theorem allLegible_eq (nodes : List Node) : allLegible nodes = (nodes.map isLegible).and := by
  induction nodes with
  | nil => rfl
  | cons node rest ih => rw [allLegible, ih, List.map_cons, List.and_cons]

end Node

/-- Does the label belong to a declaration, or to a part of one? -/
def Label.isDeclaration : Label → Bool
  | field _ _ | relationDecl _ | functorDecl _ _ | subsetDecl _ _ | aliasDecl _ _ | unionDecl _ _
  | recordDecl _ | branchDecl _ | adtDecl _ => true
  | _ => false

namespace Node

theorem isLegible_of_labels {root : Node}
    (labels : ∀ node ∈ root.nodes, node.label.isDeclaration = false) : root.isLegible := by
  induction root using childInduction with
  | step root ih =>
      have children : allLegible root.children := by
        have each : ∀ child ∈ root.children, child.isLegible := fun child hchild =>
          ih child hchild fun node hnode => labels node (mem_nodes_of_child hchild hnode)
        simpa [allLegible_eq, List.and] using each
      have own := labels root root.mem_nodes_self
      obtain ⟨id, span, label, _⟩ := root
      cases label with
      | functorDecl => cases own
      | _ => exact children

theorem legibleText_eq_ok {root : Node}
    (labels : ∀ node ∈ root.nodes, node.label.isDeclaration = false) :
    root.legibleText = .ok root.text := by
  rw [legibleText, isLegible_of_labels labels, if_pos rfl]

end Node

end DatalogTyping

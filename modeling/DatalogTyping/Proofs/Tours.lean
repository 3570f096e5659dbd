import DatalogTyping.Forest
import DatalogTyping.Proofs.Trees

/-!
# Tours

Nodes of a tree are replaced on a tour of it, and building a replacement may fail. However
far a tour gets, it leaves nothing but the nodes it met and what was built on the way. So
the trees it leaves satisfy what those nodes and all that is built satisfy, be it about
identities or about labels (`Replacement.Keeps.tour`).

A tour on which nothing fails is completed (`tour_completed`). If it replaces leaves by
leaves, there stands one node in the end for each that it met, in the order of the
traversal (`tour_stands`).
-/

namespace DatalogTyping

/-! ### Trees within bounds -/

namespace Node

variable {P Q : NodeId → Label → Prop} {next later : NodeId} {root node : Node}
  {trees others : List Node}

/-- Every node of the trees has an identity below `next`, and `P` holds of its identity and
its label. -/
def Within (P : NodeId → Label → Prop) (next : NodeId) (trees : List Node) : Prop :=
  ∀ node ∈ nodesOf trees, node.id < next ∧ P node.id node.label

theorem Within.mono (within : Within P next trees) (h : next ≤ later) :
    Within P later trees :=
  fun node hnode => ⟨Nat.lt_of_lt_of_le (within node hnode).1 h, (within node hnode).2⟩

theorem Within.imp (within : Within P next trees)
    (h : ∀ id label, id < next → P id label → Q id label) : Within Q next trees :=
  fun node hnode => ⟨(within node hnode).1, h _ _ (within node hnode).1 (within node hnode).2⟩

theorem within_iff_forall : Within P next trees ↔ ∀ root ∈ trees, Within P next [root] := by
  simp only [Within, nodesOf_singleton, mem_nodesOf]
  exact ⟨fun h root hroot node hnode => h node ⟨root, hroot, hnode⟩,
    fun h node hnode => hnode.elim fun root hroot => h root hroot.1 node hroot.2⟩

@[simp] theorem within_nil : Within P next [] := by simp [Within, nodesOf]

@[simp] theorem within_append :
    Within P next (trees ++ others) ↔ Within P next trees ∧ Within P next others := by
  rw [Within, nodesOf_append, List.forall_mem_append]
  rfl

theorem within_cons :
    Within P next (root :: trees) ↔ Within P next [root] ∧ Within P next trees := by
  rw [← List.singleton_append, within_append]

theorem within_singleton :
    Within P next [root] ↔
      (root.id < next ∧ P root.id root.label) ∧ Within P next root.children := by
  rw [Within, nodesOf_singleton, nodes_eq, List.forall_mem_cons]
  rfl

theorem Within.of_mem (within : Within P next trees) (hnode : node ∈ nodesOf trees) :
    Within P next [node] := by
  intro other hother
  rw [nodesOf_singleton] at hother
  exact within other (mem_nodesOf_trans hnode hother)

theorem within_copyFrom (labels : ∀ node ∈ root.nodes, ∀ id, next ≤ id → P id node.label) :
    Within P (root.copyFrom next).2 [(root.copyFrom next).1] := by
  intro node hnode
  rw [nodesOf_singleton] at hnode
  obtain ⟨original, horiginal, hlabel⟩ := label_of_mem_copyFrom hnode
  obtain ⟨new, below⟩ := id_of_mem_copyFrom hnode
  exact ⟨below, hlabel ▸ labels original horiginal node.id new⟩

/-- A change keeps a tree within bounds if it keeps the node it is made to. -/
theorem Within.modify {id : NodeId} {change : Node → Node} (within : Within P next [root])
    (h : next ≤ later)
    (changes : ∀ node, node.id = id → Within P next [node] → Within P later [change node]) :
    Within P later [Node.modify id change root] := by
  induction root using childInduction with
  | step root ih =>
      obtain ⟨own, children⟩ := within_singleton.mp within
      rw [modify_eq]
      split
      · rename_i same
        exact changes root same within
      · refine within_singleton.mpr ⟨⟨Nat.lt_of_lt_of_le own.1 h, own.2⟩, ?_⟩
        refine within_iff_forall.mpr fun child hchild => ?_
        obtain ⟨before, hbefore, rfl⟩ := List.mem_map.mp hchild
        exact ih before hbefore (within_iff_forall.mp children before hbefore)

end Node

/-! ### What a tour leaves -/

/-- Whatever is built from the identity `start` on satisfies `P`. -/
def Build.Keeps (P : NodeId → Label → Prop) (start : NodeId) (build : Build Node) : Prop :=
  ∀ next fresh later, start ≤ next → build.run next = .ok (fresh, later) →
    next ≤ later ∧ Node.Within P later [fresh]

namespace Forest

open Node

variable {P : NodeId → Label → Prop} {replace : Replacement} {start next : NodeId} {root : Node}
  {nodes : List Node}

/-- All that a replacement builds from the identity `start` on satisfies `P`. -/
def Replacement.Keeps (P : NodeId → Label → Prop) (start : NodeId) (replace : Replacement) :
    Prop :=
  ∀ id label build, replace id label = some build → build.Keeps P start

/-- A visit that began with the identity `start` left nodes that satisfy `P`. -/
structure Visit.Keeps (P : NodeId → Label → Prop) (start : NodeId) (visit : Visit) : Prop where
  grows : start ≤ visit.next
  node : Within P visit.next [visit.node]
  cut : Within P visit.next visit.cut
  instead : ∀ fresh, visit.instead = .ok (some fresh) → Within P visit.next [fresh]

/-- A tour that began with the identity `start` left nodes that satisfy `P`. -/
structure Tour.Keeps (P : NodeId → Label → Prop) (start : NodeId) (tour : Tour) : Prop where
  grows : start ≤ tour.next
  nodes : Within P tour.next tour.nodes
  cut : Within P tour.next tour.cut

theorem tour_keeps
    (visits : ∀ node ∈ nodes, ∀ next, start ≤ next → Within P next [node] →
      (visit replace next node).Keeps P next)
    (h : start ≤ next) (within : Within P next nodes) (label : Label) (before : Nat) :
    (tour replace label before next nodes).Keeps P next := by
  induction nodes generalizing next before with
  | nil => exact ⟨Nat.le_refl _, within_nil, within_nil⟩
  | cons node rest ih =>
      obtain ⟨hvisit, hvisits⟩ := List.forall_mem_cons.mp visits
      obtain ⟨hnode, hrest⟩ := within_cons.mp within
      have here := hvisit next h hnode
      have there := ih hvisits (Nat.le_trans h here.grows) (hrest.mono here.grows) (before + 1)
      have grows := Nat.le_trans here.grows there.grows
      have cut := within_append.mpr ⟨here.cut.mono there.grows, there.cut⟩
      have stays := within_cons.mpr ⟨here.node.mono there.grows, there.nodes⟩
      cases hinstead : (visit replace next node).instead with
      | error fault =>
          simp only [tour, hinstead]
          exact ⟨here.grows, within_cons.mpr ⟨here.node, hrest.mono here.grows⟩, here.cut⟩
      | ok instead =>
          simp only [tour, hinstead]
          split
          · have stands := (here.instead _ hinstead).mono there.grows
            exact ⟨grows, within_cons.mpr ⟨stands, there.nodes⟩,
              within_cons.mpr ⟨here.node.mono there.grows, cut⟩⟩
          · exact ⟨grows, stays, cut⟩

theorem Replacement.Keeps.visit (keeps : replace.Keeps P start) (h : start ≤ next)
    (within : Within P next [root]) : (Forest.visit replace next root).Keeps P next := by
  induction root using Node.childInduction generalizing next with
  | step root ih =>
      obtain ⟨⟨hid, hlabel⟩, hchildren⟩ := within_singleton.mp within
      have below := tour_keeps (fun child hchild next => ih child hchild) h hchildren root.label 0
      obtain ⟨id, span, label, children⟩ := root
      have stays : ∀ {later}, (tour replace label 0 next children).next ≤ later →
          Within P later [.mk id span label (tour replace label 0 next children).nodes] :=
        fun h => within_singleton.mpr
          ⟨⟨Nat.lt_of_lt_of_le hid (Nat.le_trans below.grows h), hlabel⟩, below.nodes.mono h⟩
      -- the three cases in which nothing is built
      have nothing : ∀ instead : Except Fault (Option Node), (∀ fresh, instead ≠ .ok (some fresh)) →
          Visit.Keeps P next ⟨.mk id span label (tour replace label 0 next children).nodes,
            (tour replace label 0 next children).cut, (tour replace label 0 next children).next,
            instead⟩ := by
        intro instead none
        exact ⟨below.grows, stays (Nat.le_refl _), below.cut,
          fun fresh hfresh => absurd hfresh (none fresh)⟩
      simp only [Forest.visit]
      split
      · exact nothing _ (by simp)
      · exact nothing _ (by simp)
      · rename_i build _ hreplace
        split
        · exact nothing _ (by simp)
        · rename_i fresh later hbuild
          obtain ⟨more, hfresh⟩ := keeps _ _ _ hreplace _ _ _ (Nat.le_trans h below.grows) hbuild
          refine ⟨Nat.le_trans below.grows more, stays more, below.cut.mono more, ?_⟩
          rintro _ ⟨⟩
          exact hfresh

/-- A tour leaves what it met and what was built. -/
theorem Replacement.Keeps.tour (keeps : replace.Keeps P start) (h : start ≤ next)
    (within : Within P next nodes) (label : Label) (before : Nat) :
    (Forest.tour replace label before next nodes).Keeps P next :=
  tour_keeps (fun _ _ _ h => keeps.visit h) h within label before

/-! ### Tours that are completed -/

/-- If the node is to be replaced, building what takes its place does not fail. -/
def Replacement.Builds (replace : Replacement) (node : Node) : Prop :=
  ∀ build, replace node.id node.label = some build → ∀ next, ∃ result, build.run next = .ok result

/-- If the node is to be replaced, it is a leaf, and a leaf takes its place. -/
def Replacement.Leafwise (replace : Replacement) (node : Node) : Prop :=
  ∀ build, replace node.id node.label = some build → node.children = [] ∧
    ∀ next fresh later, build.run next = .ok (fresh, later) → fresh.children = []

/-- What stands in place of a node in the end: a node with its label and its span, or
what was built to replace it. -/
inductive Stands (replace : Replacement) (node now : Node) : Prop
  | stays (keep : replace node.id node.label = none) (label : now.label = node.label)
      (span : now.span = node.span)
  | built {build : Build Node} {next later : NodeId}
      (change : replace node.id node.label = some build) (run : build.run next = .ok (now, later))

theorem tour_completed_of
    (visits : ∀ node ∈ nodes, ∀ next, ∃ instead, (visit replace next node).instead = .ok instead)
    (label : Label) (before : Nat) (next : NodeId) :
    (tour replace label before next nodes).fault = none ∧
      (tour replace label before next nodes).broken = false := by
  induction nodes generalizing before next with
  | nil => exact ⟨rfl, rfl⟩
  | cons node rest ih =>
      obtain ⟨hvisit, hvisits⟩ := List.forall_mem_cons.mp visits
      obtain ⟨instead, hinstead⟩ := hvisit next
      obtain ⟨fault, broken⟩ := ih hvisits (before + 1) (visit replace next node).next
      simp only [tour, hinstead, broken, Bool.false_and]
      cases instead <;> exact ⟨fault, rfl⟩

theorem visit_completed (builds : ∀ node ∈ root.nodes, replace.Builds node) (next : NodeId) :
    ∃ instead, (visit replace next root).instead = .ok instead := by
  induction root using Node.childInduction generalizing next with
  | step root ih =>
      have below := tour_completed_of (fun child hchild => ih child hchild fun node hnode =>
        builds node (mem_nodes_of_child hchild hnode)) root.label 0 next
      have own := builds root root.mem_nodes_self
      obtain ⟨id, span, label, children⟩ := root
      have faultless : (tour replace label 0 next children).fault = none := below.1
      cases hreplace : replace id label with
      | none =>
          simp only [visit, faultless, hreplace]
          exact ⟨none, rfl⟩
      | some build =>
          obtain ⟨result, hbuild⟩ := own build hreplace (tour replace label 0 next children).next
          simp only [visit, faultless, hreplace, hbuild]
          exact ⟨some result.1, rfl⟩

/-- A tour is completed if nothing fails. -/
theorem tour_completed (builds : ∀ node ∈ nodesOf nodes, replace.Builds node) (label : Label)
    (before : Nat) (next : NodeId) :
    (tour replace label before next nodes).fault = none ∧
      (tour replace label before next nodes).broken = false :=
  tour_completed_of (fun root hroot => visit_completed fun node hnode =>
    builds node (mem_nodesOf.mpr ⟨root, hroot, hnode⟩)) label before next

theorem tour_stands_of
    (visits : ∀ node ∈ nodes, ∀ next, ∃ instead, (visit replace next node).instead = .ok instead ∧
      List.Forall₂ (Stands replace) node.nodes (instead.getD (visit replace next node).node).nodes)
    (label : Label) (before : Nat) (next : NodeId) :
    List.Forall₂ (Stands replace) (nodesOf nodes)
      (nodesOf (tour replace label before next nodes).nodes) := by
  induction nodes generalizing before next with
  | nil => exact .nil
  | cons node rest ih =>
      obtain ⟨hvisit, hvisits⟩ := List.forall_mem_cons.mp visits
      obtain ⟨instead, hinstead, here⟩ := hvisit next
      have there := ih hvisits (before + 1) (visit replace next node).next
      have broken := (tour_completed_of (fun node hnode next =>
        (hvisits node hnode next).imp fun _ => And.left) label (before + 1)
        (visit replace next node).next).2
      simp only [tour, hinstead, broken, Bool.false_and]
      cases instead with
      | none => exact List.rel_append here there
      | some fresh => exact List.rel_append here there

theorem visit_stands (builds : ∀ node ∈ root.nodes, replace.Builds node)
    (leafwise : ∀ node ∈ root.nodes, replace.Leafwise node) (next : NodeId) :
    ∃ instead, (visit replace next root).instead = .ok instead ∧
      List.Forall₂ (Stands replace) root.nodes
        (instead.getD (visit replace next root).node).nodes := by
  induction root using Node.childInduction generalizing next with
  | step root ih =>
      have below := tour_stands_of (fun child hchild => ih child hchild
        (fun node hnode => builds node (mem_nodes_of_child hchild hnode))
        fun node hnode => leafwise node (mem_nodes_of_child hchild hnode)) root.label 0 next
      have faultless := (tour_completed (fun node hnode => builds node
        (root.nodes_eq ▸ List.mem_cons_of_mem _ hnode)) root.label 0 next).1
      have own := builds root root.mem_nodes_self
      have leaf := leafwise root root.mem_nodes_self
      obtain ⟨id, span, label, children⟩ := root
      simp only [Node.label, Node.children] at faultless
      cases hreplace : replace id label with
      | none =>
          simp only [visit, faultless, hreplace]
          refine ⟨none, rfl, ?_⟩
          rw [nodes_eq, Option.getD_none, nodes_eq]
          exact .cons (.stays hreplace rfl rfl) below
      | some build =>
          obtain ⟨⟨fresh, later⟩, hbuild⟩ :=
            own build hreplace (tour replace label 0 next children).next
          obtain ⟨rfl, bare⟩ := leaf build hreplace
          simp only [visit, faultless, hreplace, hbuild]
          refine ⟨some fresh, rfl, ?_⟩
          rw [nodes_eq, Option.getD_some, nodes_eq fresh, bare _ _ _ hbuild]
          exact .cons (.built hreplace hbuild) .nil

/-- If nothing fails and leaves are replaced by leaves, there stands one node for each. -/
theorem tour_stands (builds : ∀ node ∈ nodesOf nodes, replace.Builds node)
    (leafwise : ∀ node ∈ nodesOf nodes, replace.Leafwise node) (label : Label) (before : Nat)
    (next : NodeId) :
    List.Forall₂ (Stands replace) (nodesOf nodes)
      (nodesOf (tour replace label before next nodes).nodes) :=
  tour_stands_of (fun root hroot => visit_stands
    (fun node hnode => builds node (mem_nodesOf.mpr ⟨root, hroot, hnode⟩))
    fun node hnode => leafwise node (mem_nodesOf.mpr ⟨root, hroot, hnode⟩)) label before next

/-! ### Slots -/

/-- No node has the next identity or a later one. -/
def Fresh (forest : Forest) : Prop := Within (fun _ _ => True) forest.next forest.trees

theorem elementAt_last {α : Type} (xs : List α) (x : α) : elementAt (xs ++ [x]) (-1) = .ok x := by
  have last : elementAt? (xs ++ [x]) (-1) = (xs ++ [x]).reverse[0]? := rfl
  simp [elementAt, last]

theorem mem_of_find? {forest : Forest} {id : NodeId} {node : Node}
    (found : forest.find? id = some node) : node ∈ nodesOf forest.trees ∧ node.id = id := by
  rw [find?] at found
  have same := List.find?_some found
  exact ⟨List.mem_of_find?_eq_some found, beq_iff_eq.mp same⟩

/-- A tree is found by the identity of its root, if that does not occur before it. -/
theorem find?_root {forest : Forest} {before after : List Node}
    (trees : forest.trees = before ++ root :: after)
    (absent : ∀ node ∈ nodesOf before, node.id ≠ root.id) : forest.find? root.id = some root := by
  have none : (nodesOf before).find? (fun node => node.id == root.id) = none :=
    List.find?_eq_none.mpr fun node hnode => by simpa using absent node hnode
  rw [find?, trees, nodesOf_append, List.find?_append, none, nodesOf, nodes_eq]
  simp

/-- The last slot holds a tree if its root does not occur before it. -/
theorem slot_last {forest : Forest} {before after : List Node} {slots : List NodeId}
    (trees : forest.trees = before ++ root :: after) (hslots : forest.slots = slots ++ [root.id])
    (absent : ∀ node ∈ nodesOf before, node.id ≠ root.id) : forest.slot (-1) = .ok root := by
  simp only [slot, hslots, elementAt_last, bind, Except.bind, find?_root trees absent]

/-- What is found in some trees is found when there are more. -/
theorem find?_of_kept {forest after : Forest} {id : NodeId} {node : Node}
    (kept : forest.trees <+: after.trees) (found : forest.find? id = some node) :
    after.find? id = some node := by
  obtain ⟨more, hmore⟩ := kept
  rw [find?] at found
  rw [find?, ← hmore, nodesOf_append, List.find?_append, found]
  rfl

section Copies

variable {forest : Forest}

theorem Fresh.ne_of_le (fresh : forest.Fresh) {id : NodeId} (h : forest.next ≤ id) :
    ∀ node ∈ nodesOf forest.trees, node.id ≠ id :=
  fun node hnode => Nat.ne_of_lt (Nat.lt_of_lt_of_le (fresh node hnode).1 h)

theorem Fresh.slot_clone (fresh : forest.Fresh) (root : Node) :
    (forest.clone root).slot (-1) = .ok (root.copyFrom forest.next).1 :=
  slot_last rfl rfl (fresh.ne_of_le (Nat.le_of_eq (id_copyFrom forest.next root).symm))

end Copies

end Forest

end DatalogTyping

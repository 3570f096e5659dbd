import Mathlib.Data.List.Nodup
import Mathlib.Logic.Relation
import DatalogTyping.Proofs.Likeness
import DatalogTyping.Proofs.Tours

/-!
# Copies are isolated

A copy of a tree is made of new nodes, so whatever is done to it from then on should not
show in the original, and the other way round. But nodes are changed in place, wherever
their identity is found, changes cut off trees and add others, and whoever holds a node can
get at all nodes under it.

So two sides are told apart, those who hold nodes from before and those who hold the copy
(`Side`). Each identity has an owner, and no tree of the forest has nodes of both sides
(`Shared.Apart`). A change adds nodes to the side that makes it and leaves all trees of the
other side alone (`Shared.leaves_of_regrown`). One side can therefore do what it likes,
however often the two take turns, and the other finds every node as it was
(`Forest.clone_isolated`).
-/

namespace DatalogTyping

/-! ### Changes in place -/

namespace Build

variable {P : NodeId → Label → Prop} {build : Build Node} {start next later : NodeId}

/-- All nodes that are built are new. -/
def DrawsNew (build : Build Node) : Prop :=
  ∀ next fresh later, build.run next = .ok (fresh, later) →
    next ≤ later ∧ ∀ node ∈ fresh.nodes, next ≤ node.id ∧ node.id < later

theorem DrawsNew.keeps (new : build.DrawsNew)
    (fresh : ∀ id label, start ≤ id → P id label) : build.Keeps P start := by
  intro next node later h run
  obtain ⟨grows, ids⟩ := new next node later run
  refine ⟨grows, fun below hbelow => ?_⟩
  rw [Node.nodesOf_singleton] at hbelow
  obtain ⟨lower, upper⟩ := ids below hbelow
  exact ⟨upper, fresh _ _ (Nat.le_trans h lower)⟩

theorem run_bind_eq_ok {α β : Type} {first : Build α} {rest : α → Build β} {result : β} :
    (first >>= rest).run next = .ok (result, later) ↔
      ∃ value middle, first.run next = .ok (value, middle) ∧
        (rest value).run middle = .ok (result, later) := by
  rw [StateT.run_bind]
  cases first.run next with
  | error fault => simp [bind, Except.bind]
  | ok built =>
      obtain ⟨value, middle⟩ := built
      simp [bind, Except.bind]

/-- What is built several times over satisfies what is built each time. -/
theorem Keeps.mapM (keeps : build.Keeps P start) (h : start ≤ next) {olds fresh : List Node}
    (run : (olds.mapM fun _ => build).run next = .ok (fresh, later)) :
    next ≤ later ∧ Node.Within P later fresh := by
  induction olds generalizing next fresh with
  | nil =>
      rw [List.mapM_nil] at run
      cases run
      exact ⟨Nat.le_refl _, Node.within_nil⟩
  | cons old rest ih =>
      rw [List.mapM_cons] at run
      obtain ⟨node, middle, hnode, run⟩ := run_bind_eq_ok.mp run
      obtain ⟨others, last, hothers, run⟩ := run_bind_eq_ok.mp run
      cases run
      obtain ⟨grows, within⟩ := keeps next node middle h hnode
      obtain ⟨more, withins⟩ := ih (Nat.le_trans h grows) hothers
      exact ⟨Nat.le_trans grows more, Node.within_cons.mpr ⟨within.mono more, withins⟩⟩

end Build

namespace Forest

open Node

variable {P : NodeId → Label → Prop} {forest after : Forest} {node : Node}

/-- What can be done to a node in place: to leave it, to say where it comes from, to fill it
with new children, and to replace variables below it, as far as that goes. -/
inductive Edit (forest : Forest) (node : Node) : Forest → Prop
  | keep : Edit forest node forest
  | place (span : Span) : Edit forest node (forest.place node span)
  | fill {build : Build Node} {after : Forest} (new : build.DrawsNew)
      (done : forest.replaceChildren node build = .ok after) : Edit forest node after
  | rename {pick : String → Option (Build Node)}
      (new : ∀ name build, pick name = some build → build.DrawsNew) :
      Edit forest node (forest.rename node pick).1

/-- The forest after a change to the node of one identity, with trees added to it. What is
put there satisfies `P`. -/
structure Regrown (P : NodeId → Label → Prop) (forest : Forest) (id : NodeId) (after : Forest) :
    Prop where
  grows : forest.next ≤ after.next
  trees : ∃ change added, after.trees = modifyAll id change forest.trees ++ added ∧
    Within P after.next added ∧
    ∀ target, target.id = id → Within P forest.next [target] → Within P after.next [change target]

theorem regrown_self (id : NodeId) : Regrown P forest id forest := by
  refine ⟨Nat.le_refl _, fun target => target, [], ?_, within_nil, fun _ _ within => within⟩
  rw [modifyAll_unchanged, List.append_nil]

/-- To give a node other children adds what it is given and what is cut off. -/
theorem regrown_regrow {children cut : List Node} {next : NodeId} (h : forest.next ≤ next)
    (hchildren : Within P next children) (hcut : Within P next cut) :
    Regrown P forest node.id (forest.regrow node children cut next) := by
  refine ⟨h, (·.withChildren children), cut, rfl, hcut, fun target _ within => ?_⟩
  obtain ⟨⟨hid, hlabel⟩, -⟩ := within_singleton.mp within
  exact within_singleton.mpr ⟨⟨Nat.lt_of_lt_of_le hid h, hlabel⟩, hchildren⟩

theorem regrown_rewrite {replace : Replacement} (keeps : replace.Keeps P forest.next)
    (children : Within P forest.next node.children) :
    Regrown P forest node.id (forest.rewrite node replace).1 := by
  have left := keeps.tour (Nat.le_refl _) children node.label 0
  exact regrown_regrow left.grows left.nodes left.cut

theorem Edit.regrown (edit : forest.Edit node after)
    (fresh : ∀ id label, forest.next ≤ id → P id label) (within : Within P forest.next [node]) :
    Regrown P forest node.id after := by
  obtain ⟨own, children⟩ := within_singleton.mp within
  cases edit with
  | keep => exact regrown_self node.id
  | place span =>
      refine ⟨Nat.le_refl _, (·.placed span), [], (List.append_nil _).symm, within_nil, ?_⟩
      intro target _ within
      obtain ⟨own, below⟩ := within_singleton.mp within
      exact within_singleton.mpr ⟨own, below⟩
  | @fill build _ new done =>
      unfold replaceChildren at done
      cases hrun : (node.children.mapM fun _ => build).run forest.next with
      | error fault =>
          rw [hrun] at done
          cases done
      | ok result =>
          rw [hrun] at done
          cases done
          obtain ⟨grows, hfresh⟩ := (new.keeps fresh).mapM (Nat.le_refl _) hrun
          exact regrown_regrow grows hfresh (children.mono grows)
  | rename new =>
      refine regrown_rewrite ?_ children
      intro id label build h
      cases label with
      | var name => exact (new name build h).keeps fresh
      | _ => cases h

theorem regrown_clone {id : NodeId} (fresh : ∀ id label, forest.next ≤ id → P id label) :
    Regrown P forest id (forest.clone node) := by
  refine ⟨le_copyFrom forest.next node, fun target => target, [(node.copyFrom forest.next).1], ?_,
    within_copyFrom fun _ _ id h => fresh id _ h, fun target _ within => within.mono ?_⟩
  · rw [modifyAll_unchanged]
    rfl
  · exact le_copyFrom forest.next node

end Forest

/-! ### Two sides -/

/-- Those who hold nodes from before the copy, and those who hold the copy. -/
inductive Side where
  | original
  | copy
  deriving DecidableEq

/-- A forest that both sides work on, and the nodes that each of them holds. -/
structure Shared where
  forest : Forest
  holds : Side → NodeId → Prop

namespace Shared

open Node

/-- One more node that a side holds. -/
def hold (shared : Shared) (side : Side) (id : NodeId) : Shared :=
  { shared with holds := fun who held => shared.holds who held ∨ who = side ∧ held = id }

/-- What a side can do. It gets hold of a node under one that it holds, changes one that it
holds, or copies one that it holds and gets hold of the copy. -/
inductive Step (side : Side) (shared : Shared) : Shared → Prop
  | pick {id : NodeId} {node below : Node} (held : shared.holds side id)
      (found : shared.forest.find? id = some node) (under : below ∈ node.nodes) :
      Step side shared (shared.hold side below.id)
  | edit {id : NodeId} {node : Node} {after : Forest} (held : shared.holds side id)
      (found : shared.forest.find? id = some node) (edit : shared.forest.Edit node after) :
      Step side shared { shared with forest := after }
  | clone {id : NodeId} {node : Node} (held : shared.holds side id)
      (found : shared.forest.find? id = some node) :
      Step side shared
        (hold { shared with forest := shared.forest.clone node } side shared.forest.next)

/-- Any number of steps of one side. -/
def Steps (side : Side) : Shared → Shared → Prop :=
  Relation.ReflTransGen (Step side)

/-- Any number of steps of both sides, in any order. -/
def Turns : Shared → Shared → Prop :=
  Relation.ReflTransGen fun before after => ∃ side, Step side before after

/-- The identity belongs to a side. -/
def Owned (owner : NodeId → Side) (side : Side) (id : NodeId) (_ : Label) : Prop :=
  owner id = side

/-- Every identity has an owner. No tree has nodes of two owners, and a side holds its own
nodes only. -/
structure Apart (owner : NodeId → Side) (shared : Shared) : Prop where
  trees : ∀ tree ∈ shared.forest.trees, ∃ side,
    Within (Owned owner side) shared.forest.next [tree]
  holds : ∀ side id, shared.holds side id → id < shared.forest.next ∧ owner id = side

/-- New identities go to the side that draws them. -/
def grant (owner : NodeId → Side) (next : NodeId) (side : Side) (id : NodeId) : Side :=
  if id < next then owner id else side

variable {owner : NodeId → Side} {side who : Side} {next id : NodeId} {label : Label}
  {trees : List Node} {node tree : Node} {forest after : Forest}

theorem grant_of_lt (h : id < next) : grant owner next side id = owner id := if_pos h

theorem owned_grant (h : next ≤ id) : Owned (grant owner next side) side id label :=
  if_neg (Nat.not_lt.mpr h)

theorem Owned.grant (within : Within (Owned owner who) next trees) :
    Within (Owned (Shared.grant owner next side) who) next trees :=
  within.imp fun _ _ h own => (grant_of_lt h).trans own

theorem Owned.find?_eq_none (within : Within (Owned owner side) next trees)
    (other : owner id ≠ side) : (nodesOf trees).find? (fun node => node.id == id) = none := by
  refine List.find?_eq_none.mpr fun node hnode same => other ?_
  have own : owner node.id = side := (within node hnode).2
  rwa [beq_iff_eq.mp same] at own

theorem find?_nodesOf_map {change : Node → Node} {p : Node → Bool}
    (h : ∀ tree ∈ trees, (change tree).nodes.find? p = tree.nodes.find? p) :
    (nodesOf (trees.map change)).find? p = (nodesOf trees).find? p := by
  induction trees with
  | nil => rfl
  | cons tree rest ih =>
      obtain ⟨htree, hrest⟩ := List.forall_mem_cons.mp h
      rw [List.map_cons, nodesOf, nodesOf, List.find?_append, List.find?_append, htree, ih hrest]

/-- A change to a node leaves the trees of other owners alone, and keeps those of its own. -/
theorem owned_modify {later : NodeId} {change : Node → Node} (hid : owner id = side)
    (within : Within (Owned owner who) next [tree]) (grows : next ≤ later)
    (changes : ∀ target, target.id = id →
      Within (Owned (grant owner next side) side) next [target] →
        Within (Owned (grant owner next side) side) later [change target]) :
    Within (Owned (grant owner next side) who) later [modify id change tree] ∧
      ∀ other, other < next → owner other ≠ side →
        (modify id change tree).nodes.find? (fun node => node.id == other) =
          tree.nodes.find? (fun node => node.id == other) := by
  by_cases same : who = side
  · subst same
    have changed := (Owned.grant within).modify grows changes
    refine ⟨changed, fun other old hother => ?_⟩
    rw [← nodesOf_singleton, ← nodesOf_singleton tree, Owned.find?_eq_none within hother]
    exact Owned.find?_eq_none changed (grant_of_lt old ▸ hother)
  · -- the node belongs to the side, so no tree of another owner has its identity
    have absent : ∀ node ∈ tree.nodes, node.id ≠ id := by
      intro node hnode hsame
      have own : owner node.id = who := (within node (nodesOf_singleton tree ▸ hnode)).2
      exact same (own.symm.trans (hsame ▸ hid))
    rw [modify_of_absent change tree absent]
    exact ⟨(Owned.grant within).mono grows, fun _ _ _ => rfl⟩

/-- The forest after some work of one side. Owners stay owners, and every node of another
owner is as it was. -/
structure Leaves (side : Side) (owner owner' : NodeId → Side) (forest after : Forest) : Prop where
  grows : forest.next ≤ after.next
  owners : ∀ id, id < forest.next → owner' id = owner id
  others : ∀ id, id < forest.next → owner id ≠ side → after.find? id = forest.find? id

theorem Leaves.refl : Leaves side owner owner forest forest :=
  ⟨Nat.le_refl _, fun _ _ => rfl, fun _ _ _ => rfl⟩

theorem Leaves.trans {owner' owner'' : NodeId → Side} {middle : Forest}
    (first : Leaves side owner owner' forest middle)
    (second : Leaves side owner' owner'' middle after) :
    Leaves side owner owner'' forest after := by
  refine ⟨Nat.le_trans first.grows second.grows, fun id h => ?_, fun id h other => ?_⟩
  · exact (second.owners id (Nat.lt_of_lt_of_le h first.grows)).trans (first.owners id h)
  · have owner := first.owners id h
    exact (second.others id (Nat.lt_of_lt_of_le h first.grows) (owner ▸ other)).trans
      (first.others id h other)

theorem leaves_of_regrown
    (regrown : Forest.Regrown (Owned (grant owner forest.next side) side) forest id after)
    (hid : owner id = side)
    (trees : ∀ tree ∈ forest.trees, ∃ who, Within (Owned owner who) forest.next [tree]) :
    Leaves side owner (grant owner forest.next side) forest after ∧
      ∀ tree ∈ after.trees, ∃ who,
        Within (Owned (grant owner forest.next side) who) after.next [tree] := by
  obtain ⟨grows, change, added, htrees, hadded, changes⟩ := regrown
  rw [modifyAll_eq_map] at htrees
  refine ⟨⟨grows, fun _ h => grant_of_lt h, fun other h hother => ?_⟩, fun tree htree => ?_⟩
  · have none := Owned.find?_eq_none hadded (show grant owner forest.next side other ≠ side by
      rwa [grant_of_lt h])
    rw [Forest.find?, htrees, nodesOf_append, List.find?_append, none, Option.or_none]
    refine find?_nodesOf_map fun tree htree => ?_
    obtain ⟨who, within⟩ := trees tree htree
    exact (owned_modify hid within grows changes).2 other h hother
  · rw [htrees, List.mem_append] at htree
    rcases htree with htree | htree
    · obtain ⟨before, hbefore, rfl⟩ := List.mem_map.mp htree
      obtain ⟨who, within⟩ := trees before hbefore
      exact ⟨who, (owned_modify hid within grows changes).1⟩
    · exact ⟨side, within_iff_forall.mp hadded tree htree⟩

variable {shared later : Shared}

theorem Apart.within (apart : shared.Apart owner) (held : shared.holds side id)
    (found : shared.forest.find? id = some node) :
    node.id = id ∧ Within (Owned owner side) shared.forest.next [node] := by
  obtain ⟨hnode, same⟩ := Forest.mem_of_find? found
  obtain ⟨tree, htree, hnode⟩ := mem_nodesOf.mp hnode
  obtain ⟨who, within⟩ := apart.trees tree htree
  have within := within.of_mem (nodesOf_singleton tree ▸ hnode)
  have own : owner node.id = who := (within_singleton.mp within).1.2
  have hwho : who = side := by rw [← own, same, (apart.holds side id held).2]
  exact ⟨same, hwho ▸ within⟩

/-- A step of one side leaves the nodes of the other as they are. -/
theorem Step.apart (apart : shared.Apart owner) (step : Step side shared later) :
    ∃ owner', later.Apart owner' ∧ Leaves side owner owner' shared.forest later.forest := by
  cases step with
  | pick held found under =>
      obtain ⟨-, within⟩ := apart.within held found
      refine ⟨owner, ⟨apart.trees, fun who id hid => ?_⟩, .refl⟩
      rcases hid with hid | ⟨rfl, rfl⟩
      · exact apart.holds who id hid
      · exact within _ (nodesOf_singleton _ ▸ under)
  | edit held found edit =>
      obtain ⟨same, within⟩ := apart.within held found
      have regrown := edit.regrown (P := Owned (grant owner shared.forest.next side) side)
        (fun _ _ => owned_grant) (Owned.grant within)
      obtain ⟨leaves, trees⟩ :=
        leaves_of_regrown regrown (same ▸ (apart.holds _ _ held).2) apart.trees
      refine ⟨_, ⟨trees, fun who id hid => ?_⟩, leaves⟩
      obtain ⟨old, own⟩ := apart.holds who id hid
      exact ⟨Nat.lt_of_lt_of_le old leaves.grows, (leaves.owners id old).trans own⟩
  | @clone id node held found =>
      have regrown : Forest.Regrown (Owned (grant owner shared.forest.next side) side)
          shared.forest id (shared.forest.clone node) :=
        Forest.regrown_clone fun _ _ => owned_grant
      obtain ⟨leaves, trees⟩ := leaves_of_regrown regrown (apart.holds _ _ held).2 apart.trees
      refine ⟨_, ⟨trees, fun who id hid => ?_⟩, leaves⟩
      rcases hid with hid | ⟨rfl, rfl⟩
      · obtain ⟨old, own⟩ := apart.holds who id hid
        exact ⟨Nat.lt_of_lt_of_le old leaves.grows, (leaves.owners id old).trans own⟩
      · exact ⟨lt_copyFrom _ node, if_neg (Nat.lt_irrefl _)⟩

/-- However many steps one side takes, it leaves the nodes of the other as they are. -/
theorem Steps.apart (apart : shared.Apart owner) (steps : Steps side shared later) :
    ∃ owner', later.Apart owner' ∧ Leaves side owner owner' shared.forest later.forest := by
  induction steps with
  | refl => exact ⟨owner, apart, .refl⟩
  | tail _ step ih =>
      obtain ⟨owner', apart', first⟩ := ih
      obtain ⟨owner'', apart'', second⟩ := step.apart apart'
      exact ⟨owner'', apart'', first.trans second⟩

theorem Turns.apart (apart : shared.Apart owner) (turns : Turns shared later) :
    ∃ owner', later.Apart owner' := by
  induction turns with
  | refl => exact ⟨owner, apart⟩
  | tail _ step ih =>
      obtain ⟨owner', apart'⟩ := ih
      obtain ⟨side, step⟩ := step
      obtain ⟨owner'', apart'', -⟩ := step.apart apart'
      exact ⟨owner'', apart''⟩

/-- One side holds all nodes from before, and the other the root of the copy. -/
def startHolds (next : NodeId) : Side → NodeId → Prop
  | .original, id => id < next
  | .copy, id => id = next

/-- A forest in which a node has just been copied. -/
def start (forest : Forest) (node : Node) : Shared :=
  { forest := forest.clone node, holds := startHolds forest.next }

theorem start_apart (fresh : forest.Fresh) (node : Node) :
    (start forest node).Apart (grant (fun _ => .original) forest.next .copy) := by
  constructor
  · intro tree htree
    rcases List.mem_append.mp htree with htree | htree
    · refine ⟨.original, ((within_iff_forall.mp fresh tree htree).imp fun id _ h _ => ?_).mono
        (le_copyFrom forest.next node)⟩
      exact grant_of_lt h
    · obtain rfl := List.mem_singleton.mp htree
      exact ⟨.copy, within_copyFrom fun _ _ _ h => owned_grant h⟩
  · intro side id held
    cases side with
    | original => exact ⟨Nat.lt_trans held (lt_copyFrom forest.next node), grant_of_lt held⟩
    | copy =>
        obtain rfl : id = forest.next := held
        exact ⟨lt_copyFrom forest.next node, if_neg (Nat.lt_irrefl _)⟩

end Shared

/-! ### Copies -/

/-- A tree that reads like another: it has the same class and data, the same text, the same
span, and is equal to it, and so are the nodes under it, position by position. -/
structure Node.Reads (root copy : Node) : Prop where
  label : copy.label = root.label
  span : copy.span = root.span
  text : copy.legibleText = root.legibleText
  equal : copy.equals root
  traversal : copy.nodes.map (fun node => (node.label, node.span)) =
    root.nodes.map (fun node => (node.label, node.span))

theorem Node.reads_copyFrom (next : NodeId) (root : Node) : root.Reads (root.copyFrom next).1 := by
  have same := same_copyFrom next root
  have traversal := map_copyFrom (fun label span => (label, span)) next root
  refine ⟨same.label.symm, ?_, same.legibleText.symm, same.symm.equals, traversal⟩
  obtain ⟨id, span, label, children⟩ := root
  rw [copyFrom]
  rfl

namespace Forest

open Node Shared

variable {forest : Forest} {root node : Node}

theorem Fresh.find?_eq_none (fresh : forest.Fresh) {id : NodeId} (h : forest.next ≤ id) :
    forest.find? id = none :=
  List.find?_eq_none.mpr fun node hnode => by simpa using fresh.ne_of_le h node hnode

/-- A copy is found node by node. -/
theorem Fresh.find?_clone (fresh : forest.Fresh)
    (hnode : node ∈ (root.copyFrom forest.next).1.nodes) :
    (forest.clone root).find? node.id = some node := by
  have before := fresh.find?_eq_none (id_of_mem_copyFrom hnode).1
  rw [find?] at before
  have trees : (forest.clone root).trees = forest.trees ++ [(root.copyFrom forest.next).1] := rfl
  rw [find?, trees, nodesOf_append, List.find?_append, before, nodesOf_singleton, Option.none_or]
  cases found : (root.copyFrom forest.next).1.nodes.find? (fun other => other.id == node.id) with
  | none => exact absurd (beq_self_eq_true node.id) (List.find?_eq_none.mp found node hnode)
  | some other =>
      have same := List.find?_some found
      rw [List.inj_on_of_nodup_map (nodup_copyFrom forest.next root)
        (List.mem_of_find?_eq_some found) hnode (beq_iff_eq.mp same)]

/-- A copy reads like the node that was copied, and is made of new nodes. Whatever is done to
the copy and to nodes picked from it, all nodes from before stay as they are with all that
is under them. Whatever is done to those, the copy stays as it is. So it goes on however
often the two sides take turns: what one of them does never shows in a node that the other
holds. -/
theorem clone_isolated (fresh : forest.Fresh) (root : Node) :
    ∃ copy, (forest.clone root).slot (-1) = .ok copy ∧ root.Reads copy ∧
      (copy.nodes.map Node.id).Nodup ∧ (∀ node ∈ copy.nodes, forest.find? node.id = none) ∧
      (∀ after, Steps .copy (start forest root) after →
        ∀ id node, forest.find? id = some node → after.forest.find? id = some node) ∧
      (∀ after, Steps .original (start forest root) after →
        ∀ node ∈ copy.nodes, after.forest.find? node.id = some node) ∧
      ∀ middle after side, Turns (start forest root) middle → Steps side middle after →
        ∀ who id, who ≠ side → middle.holds who id →
          after.forest.find? id = middle.forest.find? id := by
  have apart := start_apart fresh root
  refine ⟨_, fresh.slot_clone root, reads_copyFrom forest.next root,
    nodup_copyFrom forest.next root, fun node hnode => ?_, fun after steps id node found => ?_,
    fun after steps node hnode => ?_, fun middle after side turns steps who id other held => ?_⟩
  · exact fresh.find?_eq_none (id_of_mem_copyFrom hnode).1
  · obtain ⟨owner, -, leaves⟩ := steps.apart apart
    obtain ⟨hnode, rfl⟩ := mem_of_find? found
    have old := (fresh node hnode).1
    rw [leaves.others node.id (Nat.lt_trans old (lt_copyFrom forest.next root))
      (by rw [grant_of_lt old]; decide)]
    exact find?_of_kept (List.prefix_append _ _) found
  · obtain ⟨owner, -, leaves⟩ := steps.apart apart
    obtain ⟨new, below⟩ := id_of_mem_copyFrom hnode
    rw [leaves.others node.id below
      (by rw [show grant _ _ _ node.id = Side.copy from if_neg (Nat.not_lt.mpr new)]; decide)]
    exact fresh.find?_clone hnode
  · obtain ⟨owner, apart'⟩ := turns.apart apart
    obtain ⟨owner', -, leaves⟩ := steps.apart apart'
    obtain ⟨old, own⟩ := apart'.holds who id held
    exact leaves.others id old (own ▸ other)

/-- `p(x)`. -/
def oneAtom : Node := .mk 0 none (.atom "p") [.mk 1 none (.var "x") []]

/-- `y` in place of `x`. -/
def renameToY (name : String) : Option (Build Node) :=
  if name = "x" then some (Build.var "y") else none

theorem renameToY_drawsNew (name : String) (build : Build Node) (h : renameToY name = some build) :
    build.DrawsNew := by
  unfold renameToY at h
  split at h
  · cases h
    rintro next fresh later ⟨⟩
    simp [nodes, nodesOf, Node.id]
  · cases h

/-- When the copy of `p(x)` has become `p(y)`, the original is still `p(x)`. -/
theorem clone_isolated_oneAtom :
    ∃ copy after, ((ofTrees [oneAtom] 2).clone oneAtom).slot (-1) = .ok copy ∧
      ((ofTrees [oneAtom] 2).clone oneAtom).rename copy renameToY = (after, none) ∧
      after.find? 2 = some (.mk 2 none (.atom "p") [.mk 4 none (.var "y") []]) ∧
      after.find? 0 = some oneAtom := by
  have fresh : (ofTrees [oneAtom] 2).Fresh := by
    simp [Fresh, Within, ofTrees, oneAtom, nodesOf, nodes, Node.id]
  have held : (start (ofTrees [oneAtom] 2) oneAtom).holds .copy 2 := rfl
  have step := Step.edit held rfl (.rename renameToY_drawsNew)
  obtain ⟨copy, slot, -, -, -, isolated, -⟩ := clone_isolated fresh oneAtom
  obtain rfl : Node.mk 2 none (.atom "p") [.mk 3 none (.var "x") []] = copy := Except.ok.inj slot
  refine ⟨_, _, rfl, rfl, rfl, isolated _ (.single step) 0 oneAtom rfl⟩

end Forest

end DatalogTyping

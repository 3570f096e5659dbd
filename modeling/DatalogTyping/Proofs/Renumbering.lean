import Mathlib.Logic.Equiv.Basic
import DatalogTyping.Proofs.ClauseProblems
import DatalogTyping.Proofs.Trees

/-!
# Renumbering nodes

Identities tell nodes apart, and nothing else is done with them. So if all identities are
exchanged for others, one by one, everything that is said of nodes is said of the nodes
with the new identities: type variables, constraints, assignments, and what solving makes
of them (`Problem.solve_renumber`, `solveClause_renumber`).

A renumbering is a permutation of all identities, so that nothing has to be asked of the
variables of a problem: every definition commutes with it, and each lemma here is an
equation.
-/

namespace DatalogTyping

variable (π : Equiv.Perm NodeId)

/-! ### Assignments -/

/-- The type variable of the node with the new identity. -/
def TypeVar.renumber : TypeVar → TypeVar
  | named name => named name
  | argument id text => argument (π id) text

@[simp] theorem TypeVar.renumber_symm_renumber (var : TypeVar) :
    (var.renumber π).renumber π.symm = var := by
  cases var <;> simp [renumber]

@[simp] theorem TypeVar.renumber_renumber_symm (var : TypeVar) :
    (var.renumber π.symm).renumber π = var := by
  cases var <;> simp [renumber]

theorem TypeVar.renumber_injective : Function.Injective (TypeVar.renumber π) := by
  intro var other same
  rw [← renumber_symm_renumber π var, same, renumber_symm_renumber]

namespace Assignment

variable (A : Assignment) (var : TypeVar) (types : TypeSet)

/-- The assignment for the variables of the nodes with the new identities. -/
def renumber : Assignment := fun var => A (var.renumber π.symm)

@[simp] theorem renumber_apply : A.renumber π (var.renumber π) = A var := by
  simp [renumber]

theorem set_renumber :
    (A.set var types).renumber π = (A.renumber π).set (var.renumber π) types := by
  funext other
  by_cases same : other = var.renumber π
  · simp [renumber, set, same]
  · have apart : other.renumber π.symm ≠ var := by
      intro back
      exact same (by rw [← back, TypeVar.renumber_renumber_symm])
    simp [renumber, set, same, apart]

@[simp] theorem narrow_renumber :
    (A.renumber π).narrow (var.renumber π) types =
      ((A.narrow var types).1.renumber π, (A.narrow var types).2) := by
  unfold narrow
  rw [renumber_apply]
  split
  · rfl
  · rw [set_renumber]

end Assignment

/-! ### Overloads -/

namespace Overload

variable (overload : Overload) (env : TypeEnv) (A : Assignment) (result : TypeVar)
  (args : List TypeVar)

@[simp] theorem isPossible_renumber :
    overload.isPossible env (A.renumber π) (result.renumber π) (args.map (TypeVar.renumber π)) =
      overload.isPossible env A result args := by
  simp only [isPossible, List.length_map, List.zipIdx_map, List.all_map, Function.comp_def,
    Prod.map, Assignment.renumber_apply]
  rfl

theorem narrowArgs_renumber (index : Nat) :
    overload.narrowArgs env (args.map (TypeVar.renumber π)) index (A.renumber π) =
      ((overload.narrowArgs env args index A).1.renumber π,
        (overload.narrowArgs env args index A).2) := by
  induction args generalizing index A with
  | nil => rfl
  | cons arg rest ih =>
      simp only [List.map_cons, narrowArgs, Assignment.renumber_apply, Assignment.narrow_renumber,
        ih]

theorem apply_renumber (subtypeResult : Bool) :
    overload.apply env (result.renumber π) (args.map (TypeVar.renumber π)) subtypeResult
        (A.renumber π) =
      ((overload.apply env result args subtypeResult A).1.renumber π,
        (overload.apply env result args subtypeResult A).2) := by
  unfold apply
  by_cases ord : overload.op = .ord
  · simp only [if_pos ord, Assignment.renumber_apply, Assignment.narrow_renumber]
  · simp only [if_neg ord, narrowArgs_renumber, Assignment.renumber_apply,
      Assignment.narrow_renumber]

end Overload

/-! ### Constraints -/

namespace Constraint

/-- The constraint on the variables of the nodes with the new identities. -/
def renumber : Constraint → Constraint
  | subtypeOf var bound => subtypeOf (var.renumber π) bound
  | below var bound => below (var.renumber π) (bound.renumber π)
  | supertypeIn var values => supertypeIn (var.renumber π) values
  | ofKind var kind candidates => ofKind (var.renumber π) kind candidates
  | sameBase left right => sameBase (left.renumber π) (right.renumber π)
  | overload symbol result args subtypeResult remaining =>
    overload symbol (result.renumber π) (args.map (TypeVar.renumber π)) subtypeResult remaining
  | recordOf var arity candidates => recordOf (var.renumber π) arity candidates
  | component element record position =>
    component (element.renumber π) (record.renumber π) position

variable (constraint : Constraint) (env : TypeEnv) (A : Assignment)

theorem vars_renumber :
    (constraint.renumber π).vars = constraint.vars.map (TypeVar.renumber π) := by
  cases constraint <;> rfl

theorem fault?_renumber :
    (constraint.renumber π).fault? env (A.renumber π) = constraint.fault? env A := by
  cases constraint with
  | supertypeIn var values => cases values <;> simp [renumber, fault?]
  | component element record position => cases position <;> simp [renumber, fault?]
  | _ => rfl

/-- An update does the same to the variables with the new identities. -/
theorem update_renumber :
    (constraint.renumber π).update env (A.renumber π) =
      ⟨(constraint.update env A).constraint.renumber π,
        (constraint.update env A).assignment.renumber π, (constraint.update env A).changed⟩ := by
  cases constraint with
  | subtypeOf | below | supertypeIn | ofKind | recordOf =>
      simp only [renumber, update, Assignment.renumber_apply, Assignment.narrow_renumber]
  | sameBase left right =>
      simp only [renumber, update, Assignment.renumber_apply]
      cases A left <;> cases A right <;> simp
  | overload symbol result args subtypeResult remaining =>
      simp only [renumber, update, Overload.isPossible_renumber]
      split <;> simp [Overload.apply_renumber]
  | component element record position =>
      simp only [renumber, update, Assignment.renumber_apply]
      cases A record <;> simp

end Constraint

/-! ### Problems -/

/-- The round with the new identities. -/
def Round.renumber (result : Round) : Round where
  constraints := result.constraints.map (Constraint.renumber π)
  assignment := result.assignment.renumber π
  changed := result.changed

theorem round_renumber (env : TypeEnv) (constraints : List Constraint) (A : Assignment) :
    round env (constraints.map (Constraint.renumber π)) (A.renumber π) =
      (round env constraints A).map (Round.renumber π) := by
  induction constraints generalizing A with
  | nil => rfl
  | cons constraint rest ih =>
      simp only [List.map_cons, round, Constraint.fault?_renumber, Constraint.update_renumber, ih]
      cases constraint.fault? env A with
      | some fault => rfl
      | none => cases round env rest (constraint.update env A).assignment <;> rfl

theorem settle_renumber (env : TypeEnv) (bound : Nat) (constraints : List Constraint)
    (A : Assignment) :
    settle env bound (constraints.map (Constraint.renumber π)) (A.renumber π) =
      (settle env bound constraints A).map (Round.renumber π) := by
  induction bound generalizing constraints A with
  | zero => rfl
  | succ bound ih =>
      simp only [settle, round_renumber]
      cases round env constraints A with
      | error fault => rfl
      | ok result =>
          by_cases changed : result.changed
          · simp only [Except.map, Round.renumber, changed, ↓reduceIte]
            exact ih result.constraints result.assignment
          · simp only [Except.map, Round.renumber, changed, Bool.false_eq_true, ↓reduceIte]

namespace Problem

variable (problem : Problem)

/-- The problem with the new identities. -/
def renumber : Problem where
  vars := problem.vars.map (TypeVar.renumber π)
  constraints := problem.constraints.map (Constraint.renumber π)

/-- A problem is solved alike, whatever identities the nodes have. -/
theorem solve_renumber (env : TypeEnv) :
    (problem.renumber π).solve env = (problem.solve env).map (Round.renumber π) := by
  have memories : ∀ constraint : Constraint,
      Problem.memories (constraint.renumber π) = Problem.memories constraint := by
    intro constraint
    cases constraint <;> rfl
  have same : (problem.renumber π).stateBound env = problem.stateBound env := by
    simp only [stateBound, renumber, List.length_map, List.map_map, Function.comp_def, memories]
  rw [solve, same]
  exact settle_renumber π env _ problem.constraints .start

theorem mention_renumber (var : TypeVar) :
    (problem.mention var).renumber π = (problem.renumber π).mention (var.renumber π) := by
  have same : (problem.renumber π).vars.contains (var.renumber π) = problem.vars.contains var :=
    contains_map_of_injective (TypeVar.renumber_injective π) problem.vars var
  unfold mention
  rw [same]
  split
  · rfl
  · simp [renumber]

theorem foldl_mention_renumber (vars : List TypeVar) :
    (vars.foldl mention problem).renumber π =
      (vars.map (TypeVar.renumber π)).foldl mention (problem.renumber π) := by
  induction vars generalizing problem with
  | nil => rfl
  | cons var rest ih => rw [List.foldl_cons, ih, mention_renumber, List.map_cons, List.foldl_cons]

theorem add_renumber (constraint : Constraint) :
    (problem.add constraint).renumber π = (problem.renumber π).add (constraint.renumber π) := by
  have vars := problem.foldl_mention_renumber π constraint.vars
  rw [← Constraint.vars_renumber] at vars
  simp only [add, ← vars]
  simp [renumber]

end Problem

/-! ### Trees -/

namespace Node

mutual

/-- The tree with the new identities. -/
def renumber : Node → Node
  | mk id span label children => mk (π id) span label (renumberAll children)

/-- The trees with the new identities. -/
def renumberAll : List Node → List Node
  | [] => []
  | node :: rest => renumber node :: renumberAll rest

end

theorem renumberAll_eq_map (trees : List Node) : renumberAll π trees = trees.map (renumber π) := by
  induction trees with
  | nil => rw [renumberAll, List.map_nil]
  | cons root rest ih => rw [renumberAll, List.map_cons, ih]

variable (node : Node)

@[simp] theorem id_renumber : (node.renumber π).id = π node.id := by
  obtain ⟨id, span, label, children⟩ := node
  rw [renumber]
  rfl

@[simp] theorem label_renumber : (node.renumber π).label = node.label := by
  obtain ⟨id, span, label, children⟩ := node
  rw [renumber]
  rfl

@[simp] theorem children_renumber :
    (node.renumber π).children = node.children.map (renumber π) := by
  obtain ⟨id, span, label, children⟩ := node
  rw [renumber, ← renumberAll_eq_map]
  rfl

@[simp] theorem isArgument_renumber : (node.renumber π).isArgument = node.isArgument := by
  rw [isArgument, label_renumber, isArgument]

theorem nodesOf_map_renumber (trees : List Node)
    (ih : ∀ root ∈ trees, (root.renumber π).nodes = root.nodes.map (renumber π)) :
    nodesOf (trees.map (renumber π)) = (nodesOf trees).map (renumber π) := by
  induction trees with
  | nil => simp [nodesOf]
  | cons root rest ih' =>
      obtain ⟨hroot, hrest⟩ := List.forall_mem_cons.mp ih
      rw [List.map_cons, nodesOf, nodesOf, hroot, ih' hrest, List.map_append]

@[simp] theorem nodes_renumber (root : Node) :
    (root.renumber π).nodes = root.nodes.map (renumber π) := by
  induction root using childInduction with
  | step root ih =>
      rw [nodes_eq, nodes_eq root, children_renumber, nodesOf_map_renumber π _ ih, List.map_cons]

@[simp] theorem text_renumber (root : Node) : (root.renumber π).text = root.text := by
  induction root using childInduction with
  | step root ih =>
      obtain ⟨id, span, label, children⟩ := root
      have texts : (children.map (renumber π)).map text = children.map text := by
        rw [List.map_map]
        exact List.map_congr_left ih
      have labels : (children.map (renumber π)).map Node.label = children.map Node.label := by
        rw [List.map_map]
        exact List.map_congr_left fun child _ => label_renumber π child
      rw [renumber, renumberAll_eq_map, text, text, texts_eq_map, texts_eq_map, texts, labels]

@[simp] theorem typeVar_renumber : (node.renumber π).typeVar = node.typeVar.renumber π := by
  simp only [typeVar, label_renumber, id_renumber, text_renumber]
  split <;> rfl

@[simp] theorem arguments_renumber :
    (node.renumber π).arguments = node.arguments.map (renumber π) := by
  rw [arguments, arguments, nodes_renumber, List.filter_map]
  congr 1
  exact List.filter_congr fun node _ => isArgument_renumber π node

@[simp] theorem target?_renumber :
    (node.renumber π).target? = node.target?.map (renumber π) := by
  simp only [target?, label_renumber, children_renumber]
  split
  · rw [List.head?_map]
  · rfl

@[simp] theorem negates_renumber : (node.renumber π).negates = node.negates.map π := by
  simp only [negates, label_renumber, children_renumber]
  split <;> simp

end Node

/-- The visit of the node with the new identity. -/
def NodeVisit.renumber (visit : NodeVisit) : NodeVisit where
  node := visit.node.renumber π
  negated := visit.negated.map π

theorem NodeVisit.along_renumber (negated : List NodeId) (nodes : List Node) :
    along (negated.map π) (nodes.map (Node.renumber π)) =
      (along negated nodes).map (NodeVisit.renumber π) := by
  induction nodes generalizing negated with
  | nil => rfl
  | cons node rest ih =>
      rw [List.map_cons, along, Node.negates_renumber, ← List.map_append, ih]
      rfl

theorem Node.visits_renumber (clause : Node) :
    (clause.renumber π).visits = clause.visits.map (NodeVisit.renumber π) := by
  rw [visits, nodes_renumber]
  exact NodeVisit.along_renumber π [] clause.nodes

/-! ### Constraints of nodes -/

section Constraints

variable (context : Context) (program : Program) (node : Node) (arguments : List Node)

@[simp] theorem bound_renumber (typeName : String) :
    bound (node.renumber π) typeName = (bound node typeName).renumber π := by
  rw [bound, Node.typeVar_renumber]
  rfl

@[simp] theorem boundKind_renumber (kind : Kind) :
    boundKind (node.renumber π) kind = (boundKind node kind).map (Constraint.renumber π) := by
  simp only [boundKind]
  split <;> simp

@[simp] theorem boundAll_renumber (typeNames : List String) :
    boundAll (arguments.map (Node.renumber π)) typeNames =
      (boundAll arguments typeNames).map (Constraint.renumber π) := by
  simp only [boundAll, List.zip_map_left, List.map_map]
  exact List.map_congr_left fun entry _ => bound_renumber π entry.1 entry.2

@[simp] theorem bothWays_renumber (left right : Node) :
    bothWays (left.renumber π) (right.renumber π) =
      (bothWays left right).map (Constraint.renumber π) := by
  simp [bothWays, Constraint.renumber]

theorem atomConstraints_renumber (negated : Bool) (name : String) :
    atomConstraints context program negated name (arguments.map (Node.renumber π)) =
      (atomConstraints context program negated name arguments).map (Constraint.renumber π) := by
  simp only [atomConstraints, List.length_map]
  split
  · rfl
  · split
    · simp only [List.zip_map_left, List.filter_map, List.map_map, Function.comp_def, Prod.map,
        Node.label_renumber, bound_renumber, id]
    · rfl

theorem signatureConstraints_renumber (name : String) (arity : Nat) (arguments : List Node) :
    signatureConstraints context (node.renumber π) name arity (arguments.map (Node.renumber π)) =
      (signatureConstraints context node name arity arguments).map (Constraint.renumber π) := by
  simp only [signatureConstraints]
  split
  · rfl
  · split
    · simp
    · rfl

theorem aggregateConstraints_renumber (op : AggregateOp) :
    aggregateConstraints (node.renumber π) op =
      (aggregateConstraints node op).map (Constraint.renumber π) := by
  simp only [aggregateConstraints, List.map_append, Node.target?_renumber]
  congr 1
  · cases op <;> simp [Constraint.renumber]
  · cases node.target? <;> simp

theorem recordConstraints_renumber :
    recordConstraints context (node.renumber π) (arguments.map (Node.renumber π)) =
      (recordConstraints context node arguments).map (Constraint.renumber π) := by
  simp [recordConstraints, Constraint.renumber, List.zipIdx_map, Function.comp_def]

theorem branchConstraints_renumber (branch : String) :
    branchConstraints context (node.renumber π) branch (arguments.map (Node.renumber π)) =
      (branchConstraints context node branch arguments).map (List.map (Constraint.renumber π)) := by
  simp only [branchConstraints, List.length_map]
  split
  · rfl
  · split
    · split <;> simp [Except.map]
    · rfl
    · rfl

end Constraints

/-- What is resolved for a node is resolved for the node with the new identity. -/
def Resolutions.Carries (resolutions others : Resolutions) (node : Node) : Prop :=
  others.functors.get? (π node.id) = resolutions.functors.get? node.id ∧
    others.numerals.get? (π node.id) = resolutions.numerals.get? node.id

section Resolved

variable {π} (context : Context) (program : Program) {resolutions others : Resolutions} {node : Node}

theorem numeralConstraint_renumber (carries : resolutions.Carries π others node) (text : String)
    (fixed : Option NumericKind) :
    numeralConstraint others (node.renumber π) text fixed =
      (numeralConstraint resolutions node text fixed).renumber π := by
  simp only [numeralConstraint, Node.id_renumber, Node.typeVar_renumber, carries.2]
  rfl

theorem functorConstraints_renumber (carries : resolutions.Carries π others node)
    (symbol : String) (arguments : List Node) :
    functorConstraints others (node.renumber π) symbol (arguments.map (Node.renumber π)) =
      (functorConstraints resolutions node symbol arguments).map (Constraint.renumber π) := by
  simp only [functorConstraints, Node.id_renumber, Node.typeVar_renumber, carries.1,
    List.length_map]
  cases resolutions.functors.get? node.id with
  | none =>
      split <;> simp [Constraint.anyOverload, Constraint.renumber, Function.comp_def]
  | some overload =>
      split
      · simp [Constraint.renumber, Function.comp_def]
      · simp only [boundKind_renumber, List.map_append]
        congr 1
        split
        · rfl
        · simp only [List.zipIdx_map, List.flatMap_map, List.map_flatMap]
          congr 1
          funext entry
          obtain ⟨argument, index⟩ := entry
          simp only [Prod.map, id, boundKind_renumber]
          cases overload.param? index <;> rfl

/-- A node has the same constraints, on variables with the new identities, if the same is
resolved for it. -/
theorem nodeConstraints_renumber (carries : resolutions.Carries π others node)
    (negated : List NodeId) :
    nodeConstraints context program others (negated.map π) (node.renumber π) =
      (nodeConstraints context program resolutions negated node).map
        (List.map (Constraint.renumber π)) := by
  have asked : (negated.map π).contains (π node.id) = negated.contains node.id :=
    contains_map_of_injective π.injective negated node.id
  simp only [nodeConstraints, Node.label_renumber, Node.children_renumber, Node.id_renumber, asked]
  cases node.label with
  | atom name => simp [atomConstraints_renumber, Except.map]
  | comparison op =>
      rcases node.children with _ | ⟨left, _ | ⟨right, _ | _⟩⟩
      case cons.cons.nil =>
        by_cases symbolic : op.isSymbolic <;> simp [symbolic, Except.map]
      all_goals rfl
  | numeral text fixed => simp [numeralConstraint_renumber carries, Except.map]
  | functor symbol => simp [functorConstraints_renumber carries, Except.map]
  | call name => simp [callConstraints, signatureConstraints_renumber, Except.map]
  | fold name =>
      simp [foldConstraints, ← List.map_take, signatureConstraints_renumber, Except.map]
  | aggregate op targeted => simp [aggregateConstraints_renumber, Except.map]
  | record => simp [recordConstraints_renumber, Except.map]
  | branch name => simp [branchConstraints_renumber]
  | cast typeName =>
      by_cases known : context.env.isType typeName <;> simp [known, Except.map, Constraint.renumber]
  | nil | string | counter | iteration => simp [Except.map, Constraint.renumber]
  | _ => rfl

end Resolved

/-! ### Clauses -/

theorem Problem.addNode_renumber (problem : Problem) (node : Node)
    (constraints : List Constraint) :
    (problem.addNode node constraints).renumber π =
      (problem.renumber π).addNode (node.renumber π) (constraints.map (Constraint.renumber π)) := by
  have added : ∀ problem : Problem, (constraints.foldl Problem.add problem).renumber π =
      (constraints.map (Constraint.renumber π)).foldl Problem.add (problem.renumber π) := by
    induction constraints with
    | nil => exact fun _ => rfl
    | cons constraint rest ih =>
        intro problem
        rw [List.foldl_cons, ih, add_renumber, List.map_cons, List.foldl_cons]
  rw [addNode, added, addNode, Node.isArgument_renumber, Node.typeVar_renumber]
  split
  · rw [mention_renumber]
  · rfl

/-- The solved clause with the new identities. -/
def SolvedClause.renumber (solved : SolvedClause) : SolvedClause where
  clause := solved.clause.renumber π
  problem := solved.problem.renumber π
  solution := solved.solution.renumber π

/-- Arguments at the same place have the same types. -/
theorem SolvedClause.typeSets_renumber (solved : SolvedClause) :
    (solved.renumber π).typing.typeSets = solved.typing.typeSets := by
  simp only [typing, renumber, Round.renumber, Node.arguments_renumber, List.map_map,
    Function.comp_def, Node.typeVar_renumber, Assignment.renumber_apply]

section Clauses

variable {π} (context : Context) (program : Program) {resolutions others : Resolutions}

theorem visitsProblem_renumber {visits : List NodeVisit}
    (carries : ∀ visit ∈ visits, resolutions.Carries π others visit.node) (problem : Problem) :
    visitsProblem context program others (visits.map (NodeVisit.renumber π)) (problem.renumber π) =
      (visitsProblem context program resolutions visits problem).map (Problem.renumber π) := by
  induction visits generalizing problem with
  | nil => rfl
  | cons visit rest ih =>
      obtain ⟨hvisit, hrest⟩ := List.forall_mem_cons.mp carries
      simp only [List.map_cons, visitsProblem, NodeVisit.renumber,
        nodeConstraints_renumber context program hvisit]
      cases nodeConstraints context program resolutions visit.negated visit.node with
      | error fault => rfl
      | ok constraints =>
          simp only [Except.map]
          rw [← Problem.addNode_renumber, ih hrest]
          rfl

/-- A clause is solved alike, whatever identities its nodes have, if the same is resolved
for them. -/
theorem solveClause_renumber {clause : Node}
    (carries : ∀ node ∈ clause.nodes, resolutions.Carries π others node) :
    solveClause context program others (clause.renumber π) =
      (solveClause context program resolutions clause).map (SolvedClause.renumber π) := by
  have same : clauseProblem context program others (clause.renumber π) =
      (clauseProblem context program resolutions clause).map (Problem.renumber π) := by
    rw [clauseProblem, Node.visits_renumber]
    exact visitsProblem_renumber context program
      (fun visit hvisit => carries visit.node (Node.mem_nodes_of_visit hvisit)) {}
  rw [solveClause, solveClause, same]
  cases clauseProblem context program resolutions clause with
  | error fault => rfl
  | ok problem =>
      simp only [Except.map, Problem.solve_renumber]
      cases problem.solve context.env <;> rfl

end Clauses

end DatalogTyping

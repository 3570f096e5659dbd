import DatalogTyping.Proofs.ChosenOverloads
import DatalogTyping.Proofs.Committing

/-!
# Programs without functors

The first round resolves every numeral that has a type to the representation it
prefers, and the clauses are solved again with the numerals bound to these. The new
solution covers the old one committed to the same choices, since that satisfies the
new constraints, and the old solution covers the new one, since the new constraints
are stronger. So the second round resolves no numeral differently
(`numeral_resolved_again`), and nothing that comes after it changes anything: a run
ends with its third round at the latest (`run_functorFree`).

This is about programs in which no node occurs twice. The table of types has one entry
for a node, so if a numeral stood in two clauses, it would be resolved by what the later
one makes of it. Otherwise there is one way to fail. The owner of a branch is the type
that has the name of the first declaration to mention it, and if another declaration came
first under that name, then this type has no such branch. Then a constructor of the branch
cannot be given a type, and no round is completed (`shadowedBranch_fails`).
-/

namespace DatalogTyping

/-! ### Constraints of nodes that are no functors -/

section Constraints

variable {env : TypeEnv} {context : Context} {program : Program} {resolutions : Resolutions}
  {node : Node} {constraints others : List Constraint}

/-- The constraints name the sets that they name in type inference, are none about
functors, and link variables both ways or not at all. -/
def AllPlain (env : TypeEnv) (constraints : List Constraint) : Prop :=
  ∀ constraint ∈ constraints, constraint.Standard env ∧ constraint.MirroredIn constraints

namespace AllPlain

theorem of_bounds (h : ∀ constraint ∈ constraints, ∃ var bound,
    constraint = Constraint.subtypeOf var bound) : AllPlain env constraints := by
  intro constraint hconstraint
  obtain ⟨var, bound, rfl⟩ := h constraint hconstraint
  exact ⟨trivial, trivial⟩

theorem append (h : AllPlain env constraints) (h' : AllPlain env others) :
    AllPlain env (constraints ++ others) := by
  have mono : ∀ {constraint : Constraint} {some more : List Constraint},
      (∀ other ∈ some, other ∈ more) → constraint.MirroredIn some →
      constraint.MirroredIn more := by
    intro constraint some more hsub mirrored
    cases constraint with
    | below var bound => exact hsub _ mirrored
    | sameBase | overload => exact mirrored.elim
    | _ => trivial
  intro constraint hconstraint
  rcases List.mem_append.mp hconstraint with hmem | hmem
  · exact ⟨(h constraint hmem).1, mono (fun _ => List.mem_append_left _) (h constraint hmem).2⟩
  · exact ⟨(h' constraint hmem).1, mono (fun _ => List.mem_append_right _) (h' constraint hmem).2⟩

theorem bothWays (left right : Node) : AllPlain env (bothWays left right) := by
  intro constraint hconstraint
  rcases List.mem_pair.mp hconstraint with rfl | rfl
  · exact ⟨trivial, List.mem_cons_of_mem _ List.mem_cons_self⟩
  · exact ⟨trivial, List.mem_cons_self⟩

theorem supertypeIn_constants (var : TypeVar) (kinds : List Kind) :
    AllPlain env [.supertypeIn var (TypeEnv.constantTypes kinds)] := by
  intro constraint hconstraint
  obtain rfl := List.mem_singleton.mp hconstraint
  refine ⟨fun value hvalue => ?_, trivial⟩
  rw [TypeEnv.constantTypes, TypeSet.ofList, TypeSet.mem_only, Names.mem_ofList] at hvalue
  obtain ⟨kind, -, hkind⟩ := List.mem_filterMap.mp hvalue
  exact ⟨kind, hkind⟩

end AllPlain

theorem bounds_of_boundKind {argument : Node} {kind : Kind} :
    ∀ constraint ∈ boundKind argument kind, ∃ var bound,
      constraint = Constraint.subtypeOf var bound := by
  intro constraint hconstraint
  unfold boundKind at hconstraint
  split at hconstraint
  · exact ⟨_, _, List.mem_singleton.mp hconstraint⟩
  · simp at hconstraint

theorem bounds_of_boundAll {arguments : List Node} {typeNames : List String} :
    ∀ constraint ∈ boundAll arguments typeNames, ∃ var bound,
      constraint = Constraint.subtypeOf var bound := by
  intro constraint hconstraint
  obtain ⟨pair, -, rfl⟩ := List.mem_map.mp hconstraint
  exact ⟨_, _, rfl⟩

theorem bounds_of_bound_cons {argument : Node} {typeName : String}
    (h : ∀ constraint ∈ constraints, ∃ var bound, constraint = Constraint.subtypeOf var bound) :
    ∀ constraint ∈ bound argument typeName :: constraints, ∃ var bound,
      constraint = Constraint.subtypeOf var bound :=
  List.forall_mem_cons.mpr ⟨⟨_, _, rfl⟩, h⟩

theorem atomConstraints_plain (negated : Bool) (name : String) (arguments : List Node) :
    AllPlain env (atomConstraints context program negated name arguments) := by
  refine .of_bounds fun constraint hconstraint => ?_
  unfold atomConstraints at hconstraint
  split at hconstraint
  · simp at hconstraint
  · split at hconstraint
    · obtain ⟨pair, -, rfl⟩ := List.mem_map.mp hconstraint
      exact ⟨_, _, rfl⟩
    · simp at hconstraint

theorem signatureConstraints_plain (name : String) (arity : Nat) (arguments : List Node) :
    AllPlain env (signatureConstraints context node name arity arguments) := by
  refine .of_bounds ?_
  unfold signatureConstraints
  split
  · simp
  · split
    · exact bounds_of_bound_cons bounds_of_boundAll
    · simp

theorem aggregateConstraints_plain (op : AggregateOp) :
    AllPlain env (aggregateConstraints node op) := by
  unfold aggregateConstraints
  refine AllPlain.append ?_ ?_
  · split
    · exact .of_bounds bounds_of_boundKind
    · exact .of_bounds bounds_of_boundKind
    · exact .supertypeIn_constants _ _
  · split
    · exact .bothWays _ _
    · exact .of_bounds (by simp)

theorem recordConstraints_plain :
    AllPlain context.env (recordConstraints context node node.children) := by
  intro constraint hconstraint
  rcases List.mem_cons.mp hconstraint with rfl | hconstraint
  · exact ⟨rfl, trivial⟩
  · obtain ⟨_, -, rfl⟩ := List.mem_map.mp hconstraint
    exact ⟨trivial, trivial⟩

theorem branchConstraints_plain {branch : String} {arguments : List Node}
    (h : branchConstraints context node branch arguments = .ok constraints) :
    AllPlain context.env constraints := by
  refine .of_bounds ?_
  rcases branchConstraints_eq_ok h with ⟨-, rfl⟩ | ⟨owner, entry, -, -, rfl⟩
  · simp
  · refine bounds_of_bound_cons ?_
    split
    · exact bounds_of_boundAll
    · simp

/-- The constraints of a node that is no functor are plain. -/
theorem nodeConstraints_plain (functorFree : ∀ symbol, node.label ≠ .functor symbol)
    {negated : List NodeId}
    (h : nodeConstraints context program resolutions negated node = .ok constraints) :
    AllPlain context.env constraints := by
  unfold nodeConstraints at h
  cases hlabel : node.label with
  | functor symbol => exact absurd hlabel (functorFree symbol)
  | atom name =>
      rw [hlabel] at h
      obtain rfl := Except.ok.inj h
      exact atomConstraints_plain _ name _
  | comparison op =>
      simp only [hlabel] at h
      split at h
      · obtain rfl := Except.ok.inj h
        split
        · exact (AllPlain.of_bounds bounds_of_boundKind).append (.of_bounds bounds_of_boundKind)
        · exact .bothWays _ _
      · obtain rfl := Except.ok.inj h
        exact .of_bounds (by simp)
  | numeral text fixed =>
      rw [hlabel] at h
      obtain rfl := Except.ok.inj h
      exact .supertypeIn_constants _ _
  | nil =>
      rw [hlabel] at h
      obtain rfl := Except.ok.inj h
      intro constraint hconstraint
      obtain rfl := List.mem_singleton.mp hconstraint
      exact ⟨⟨rfl, rfl⟩, trivial⟩
  | cast typeName =>
      rw [hlabel] at h
      obtain rfl := Except.ok.inj h
      split
      · exact .of_bounds fun constraint hconstraint => ⟨_, _, List.mem_singleton.mp hconstraint⟩
      · exact AllPlain.supertypeIn_constants _ []
  | call name =>
      rw [hlabel] at h
      obtain rfl := Except.ok.inj h
      exact signatureConstraints_plain name _ _
  | fold name =>
      rw [hlabel] at h
      obtain rfl := Except.ok.inj h
      exact signatureConstraints_plain name _ _
  | aggregate op targeted =>
      rw [hlabel] at h
      obtain rfl := Except.ok.inj h
      exact aggregateConstraints_plain op
  | record =>
      rw [hlabel] at h
      obtain rfl := Except.ok.inj h
      exact recordConstraints_plain
  | branch name =>
      rw [hlabel] at h
      exact branchConstraints_plain h
  | string text | counter | iteration =>
      rw [hlabel] at h
      obtain rfl := Except.ok.inj h
      exact .of_bounds bounds_of_boundKind
  | clause | negation | var name | wildcard =>
      rw [hlabel] at h
      obtain rfl := Except.ok.inj h
      exact .of_bounds (by simp)
  | _ =>
      rw [hlabel] at h
      cases h

end Constraints

/-! ### Solutions of clauses -/

section Clauses

variable {context : Context} {program : Program} {resolutions : Resolutions} {clause : Node}
  {A B : Assignment}

/-- The assignment satisfies the constraints of all nodes of the clause. -/
def Node.SatisfiedBy (context : Context) (program : Program) (resolutions : Resolutions)
    (clause : Node) (A : Assignment) : Prop :=
  ∀ visit ∈ clause.visits, ∀ constraints,
    nodeConstraints context program resolutions visit.negated visit.node = .ok constraints →
    ∀ constraint ∈ constraints, constraint.Satisfied context.env A

/-- No node of the clause is a functor. -/
def Node.FunctorFree (clause : Node) : Prop :=
  ∀ node ∈ clause.nodes, ∀ symbol, node.label ≠ .functor symbol

/-- The problem poses no constraints but those of its nodes. -/
theorem exists_visit_of_posed {visits : List NodeVisit} {start problem : Problem}
    (h : visitsProblem context program resolutions visits start = .ok problem) :
    ∀ constraint ∈ problem.constraints, constraint ∈ start.constraints ∨
      ∃ visit ∈ visits, ∃ constraints,
        nodeConstraints context program resolutions visit.negated visit.node = .ok constraints ∧
        constraint ∈ constraints := by
  induction visits generalizing start with
  | nil =>
      obtain rfl := Except.ok.inj h
      exact fun _ h => .inl h
  | cons visit rest ih =>
      intro constraint hconstraint
      rw [visitsProblem] at h
      split at h
      · rename_i constraints hconstraints
        rcases ih h constraint hconstraint with hstart | ⟨other, hother, hposed⟩
        · rw [Problem.constraints_addNode, List.mem_append] at hstart
          refine hstart.imp_right fun hmem => ?_
          exact ⟨visit, List.mem_cons_self, constraints, hconstraints, hmem⟩
        · exact .inr ⟨other, List.mem_cons_of_mem _ hother, hposed⟩
      · cases h

/-- The solution of a clause covers all that satisfies its constraints. -/
theorem solveClause_covers (unionFree : context.env.UnionFree)
    (builtIns : context.env.HasBuiltIns) (functorFree : clause.FunctorFree) {one : SolvedClause}
    (h : solveClause context program resolutions clause = .ok one)
    (satisfied : clause.SatisfiedBy context program resolutions B) :
    one.solution.assignment.Covers context.env B := by
  unfold solveClause at h
  split at h
  · rename_i problem hproblem
    split at h
    · rename_i solution hsolution
      obtain rfl := Except.ok.inj h
      have posed : ∀ constraint ∈ problem.constraints, constraint.Standard context.env ∧
          constraint.Satisfied context.env B ∧ constraint.HasResult B := by
        intro constraint hconstraint
        rcases exists_visit_of_posed hproblem constraint hconstraint with
          hstart | ⟨visit, hvisit, constraints, hconstraints, hmem⟩
        · cases hstart
        · obtain ⟨standard, mirrored⟩ := nodeConstraints_plain
            (functorFree visit.node (Node.mem_nodes_of_visit hvisit)) hconstraints constraint hmem
          refine ⟨standard, satisfied visit hvisit constraints hconstraints constraint hmem, ?_⟩
          cases constraint with
          | overload => exact mirrored.elim
          | _ => trivial
      exact Problem.solve_covers unionFree builtIns (fun constraint h => (posed constraint h).1)
        (fun constraint h => (posed constraint h).2.1)
        (fun constraint h => (posed constraint h).2.2) hsolution
    · cases h
  · cases h

theorem solveClause_satisfiedBy (hcontext : Context.ofProgram program = .ok context)
    (acyclic : context.env.Acyclic) {one : SolvedClause}
    (h : solveClause context program resolutions clause = .ok one) :
    clause.SatisfiedBy context program resolutions one.solution.assignment := by
  obtain ⟨rfl, satisfies⟩ := solveClause_satisfies hcontext acyclic h
  intro visit hvisit constraints hconstraints
  obtain ⟨own, hown, satisfied⟩ := satisfies visit hvisit
  obtain rfl := Except.ok.inj (hown.symm.trans hconstraints)
  exact satisfied

end Clauses

/-! ### Numerals -/

section Numerals

variable {env : TypeEnv} {context : Context} {program : Program} {resolutions : Resolutions}
  {clause node : Node} {text : String} {representation : NumericKind} {A B : Assignment}

theorem supertypeIn_satisfied_iff {var : TypeVar} {representations : List NumericKind} :
    (Constraint.supertypeIn var
      (TypeEnv.constantTypes (representations.map NumericKind.kind))).Satisfied env A ↔
      (A var).Consists fun name => ∃ representation ∈ representations,
        env.isOfKind name representation.kind := by
  have below : ∀ name, (∃ value ∈ TypeEnv.constantTypes (representations.map NumericKind.kind),
      env.isSubtype name value) ↔
      ∃ representation ∈ representations, env.isOfKind name representation.kind := by
    intro name
    simp only [TypeEnv.constantTypes, TypeSet.ofList, TypeSet.mem_only, Names.mem_ofList,
      List.mem_filterMap, List.mem_map, exists_exists_and_eq_and]
    constructor
    · intro ⟨constant, ⟨representation, hmem, hconstant⟩, hsub⟩
      exact ⟨representation, hmem, (TypeEnv.isOfKind_iff hconstant).mpr hsub⟩
    · intro ⟨representation, hmem, hof⟩
      obtain ⟨constant, hconstant⟩ :=
        TypeEnv.exists_constant_of_primitive representation.kind_mem_primitives
      exact ⟨constant, ⟨representation, hmem, hconstant⟩, (TypeEnv.isOfKind_iff hconstant).mp hof⟩
  simp only [Constraint.Satisfied, TypeSet.Consists, below]

/-- A numeral that is not resolved is of the kind of a representation that its text
can have. -/
theorem numeral_open_iff (h : resolutions.numerals.get? node.id = none) :
    (numeralConstraint resolutions node text none).Satisfied env A ↔
      (A node.typeVar).Consists fun name => ∃ representation ∈ Numeral.kinds text,
        env.isOfKind name representation.kind := by
  simp only [numeralConstraint, h]
  exact supertypeIn_satisfied_iff

/-- A numeral that is resolved is of the kind of its representation. -/
theorem numeral_resolved_iff (h : resolutions.numerals.get? node.id = some representation) :
    (numeralConstraint resolutions node text none).Satisfied env A ↔
      (A node.typeVar).Consists fun name => env.isOfKind name representation.kind := by
  simp only [numeralConstraint, h, supertypeIn_satisfied_iff, List.mem_singleton, exists_eq_left]

/-- Apart from functors, resolutions matter to numerals alone. -/
theorem nodeConstraints_eq_of_fixed {other : Resolutions}
    (functorFree : ∀ symbol, node.label ≠ .functor symbol)
    (fixed : ∀ text, node.label ≠ .numeral text none) (negated : List NodeId) :
    nodeConstraints context program resolutions negated node =
      nodeConstraints context program other negated node := by
  unfold nodeConstraints
  cases hlabel : node.label with
  | functor symbol => exact absurd hlabel (functorFree symbol)
  | numeral text representation? =>
      cases representation? with
      | none => exact absurd hlabel (fixed text)
      | some representation => rfl
  | _ => rfl

theorem nodeConstraints_numeral (hlabel : node.label = .numeral text none)
    (negated : List NodeId) :
    nodeConstraints context program resolutions negated node =
      .ok [numeralConstraint resolutions node text none] := by
  simp only [nodeConstraints, hlabel]

/-- Every numeral of the clause whose representation is not fixed is resolved to the
one that its set prefers. -/
def Resolutions.Follow (env : TypeEnv) (clause : Node) (A : Assignment)
    (resolutions : Resolutions) : Prop :=
  ∀ node ∈ clause.nodes, ∀ text, node.label = .numeral text none →
    resolutions.numerals.get? node.id = (A node.typeVar).preferred? env

theorem Node.SatisfiedBy.numeral (satisfied : clause.SatisfiedBy context program resolutions A)
    (hnode : node ∈ clause.nodes) (hlabel : node.label = .numeral text none) :
    (numeralConstraint resolutions node text none).Satisfied context.env A := by
  obtain ⟨visit, hvisit, rfl⟩ := Node.exists_visit hnode
  exact satisfied visit hvisit _ (nodeConstraints_numeral hlabel _) _ (List.mem_singleton_self _)

/-- The representation that a numeral prefers is one that its text can have. -/
theorem mem_kinds_of_preferred? (acyclic : env.Acyclic) (builtIns : env.HasBuiltIns)
    (consists : (A node.typeVar).Consists fun name => ∃ representation ∈ Numeral.kinds text,
      env.isOfKind name representation.kind)
    (h : (A node.typeVar).preferred? env = some representation) :
    representation ∈ Numeral.kinds text := by
  obtain ⟨names, hnames, hall⟩ := consists
  have hkind := TypeSet.hasKind_of_preferred? h
  rw [hnames] at hkind
  obtain ⟨name, hname, hof⟩ := TypeSet.hasKind_only.mp hkind
  obtain ⟨other, hother, hof'⟩ := hall name hname
  have same : representation = other := NumericKind.kind_injective
    (acyclic.isOfKind_unique builtIns hof hof')
  exact same ▸ hother

/-- What satisfies the constraints of a clause with resolutions satisfies those without,
if numerals are resolved to what their texts can be read as. -/
theorem Node.SatisfiedBy.unresolved (functorFree : clause.FunctorFree)
    (satisfied : clause.SatisfiedBy context program resolutions A)
    (readable : ∀ node ∈ clause.nodes, ∀ text representation, node.label = .numeral text none →
      resolutions.numerals.get? node.id = some representation →
      representation ∈ Numeral.kinds text) :
    clause.SatisfiedBy context program {} A := by
  intro visit hvisit constraints hconstraints
  have hnode := Node.mem_nodes_of_visit hvisit
  by_cases numeral : ∃ text, visit.node.label = .numeral text none
  · obtain ⟨text, hlabel⟩ := numeral
    have resolved := satisfied.numeral hnode hlabel
    rw [nodeConstraints_numeral hlabel] at hconstraints
    obtain rfl := Except.ok.inj hconstraints
    intro constraint hconstraint
    obtain rfl := List.mem_singleton.mp hconstraint
    rw [numeral_open_iff rfl]
    cases hrecorded : resolutions.numerals.get? visit.node.id with
    | none => exact (numeral_open_iff hrecorded).mp resolved
    | some representation =>
        obtain ⟨names, hnames, hall⟩ := (numeral_resolved_iff hrecorded).mp resolved
        have hmem := readable visit.node hnode text representation hlabel hrecorded
        exact ⟨names, hnames, fun name hname => ⟨representation, hmem, hall name hname⟩⟩
  · refine satisfied visit hvisit constraints ?_
    rw [← hconstraints]
    exact nodeConstraints_eq_of_fixed (functorFree visit.node hnode)
      (fun text hlabel => numeral ⟨text, hlabel⟩) _

section Committed

variable (wellFormed : context.env.WellFormed) (unionFree : context.env.UnionFree)
  (functorFree : clause.FunctorFree) (follow : resolutions.Follow context.env clause A)
  (satisfied : clause.SatisfiedBy context program {} A)

include wellFormed unionFree functorFree follow satisfied

/-- What satisfies the constraints of a clause without resolutions satisfies those
that follow from its own preferences, once it is committed to them. -/
theorem satisfiedBy_committed :
    clause.SatisfiedBy context program resolutions (A.committed context.env) := by
  intro visit hvisit constraints hconstraints
  have hnode := Node.mem_nodes_of_visit hvisit
  -- unless a numeral has been resolved, its constraints are what they were before
  have unchanged :
      nodeConstraints context program {} visit.negated visit.node = .ok constraints →
      ∀ constraint ∈ constraints, constraint.Satisfied context.env (A.committed context.env) := by
    intro before
    refine Constraint.satisfied_committed wellFormed unionFree (fun constraint hconstraint => ?_)
      (satisfied visit hvisit constraints before)
    exact (nodeConstraints_plain (functorFree visit.node hnode) before constraint hconstraint).2
  by_cases numeral : ∃ text, visit.node.label = .numeral text none
  · obtain ⟨text, hlabel⟩ := numeral
    have follows := follow visit.node hnode text hlabel
    have open? := (numeral_open_iff rfl).mp (satisfied.numeral hnode hlabel)
    cases hpreferred : (A visit.node.typeVar).preferred? context.env with
    | none =>
        refine unchanged ?_
        rw [← hconstraints, nodeConstraints_numeral hlabel, nodeConstraints_numeral hlabel]
        simp only [numeralConstraint, follows, hpreferred]
        rfl
    | some representation =>
        rw [hpreferred] at follows
        rw [nodeConstraints_numeral hlabel] at hconstraints
        obtain rfl := Except.ok.inj hconstraints
        intro constraint hconstraint
        obtain rfl := List.mem_singleton.mp hconstraint
        rw [numeral_resolved_iff follows]
        obtain ⟨names, hnames, hall⟩ := open?
        refine ⟨_, TypeSet.committed_only hnames, fun name hname => ?_⟩
        obtain ⟨hname, keeps⟩ := Names.mem_filter.mp hname
        obtain ⟨other, -, hof⟩ := hall name hname
        have same := TypeSet.keeps_iff.mp keeps other hof
        rw [hpreferred] at same
        exact Option.some.inj same ▸ hof
  · refine unchanged ?_
    rw [← hconstraints]
    exact nodeConstraints_eq_of_fixed (functorFree visit.node hnode)
      (fun text hlabel => numeral ⟨text, hlabel⟩) _

end Committed

/-- Solved again with its numerals resolved as they prefer to be, a clause has them
prefer the same. -/
theorem preferred?_again (hcontext : Context.ofProgram program = .ok context)
    (unionFree : context.env.UnionFree) (functorFree : clause.FunctorFree)
    {first again : SolvedClause} (hfirst : solveClause context program {} clause = .ok first)
    (hagain : solveClause context program resolutions clause = .ok again)
    (follow : resolutions.Follow context.env clause first.solution.assignment)
    (hnode : node ∈ clause.nodes) (hlabel : node.label = .numeral text none) :
    (again.solution.assignment node.typeVar).preferred? context.env =
      (first.solution.assignment node.typeVar).preferred? context.env := by
  have wellFormed := Context.wellFormed_of_ofProgram hcontext
  have acyclic := wellFormed.acyclic unionFree
  have satisfied := solveClause_satisfiedBy hcontext acyclic hfirst
  have satisfied' := solveClause_satisfiedBy hcontext acyclic hagain
  have follows := follow node hnode text hlabel
  cases hpreferred : (first.solution.assignment node.typeVar).preferred? context.env with
  | some representation =>
      -- all types are of the kind that was chosen, and there is one at least
      have consists := (numeral_resolved_iff (follows.trans hpreferred)).mp
        (satisfied'.numeral hnode hlabel)
      have covers := solveClause_covers unionFree wellFormed.builtIns functorFree hagain
        (satisfiedBy_committed wellFormed unionFree functorFree follow satisfied)
      have hkind := (covers node.typeVar).hasKind (unionFree.kindsRise wellFormed.builtIns)
        (TypeSet.hasKind_committed acyclic wellFormed.builtIns hpreferred)
      exact TypeSet.preferred?_of_allOfKind acyclic wellFormed.builtIns consists hkind
  | none =>
      -- the new solution has no kinds that the old one did not have
      have unresolved := satisfied'.unresolved functorFree
        fun other hother text' representation hlabel' hrecorded =>
          mem_kinds_of_preferred? acyclic wellFormed.builtIns
            ((numeral_open_iff rfl).mp (satisfied.numeral hother hlabel'))
            ((follow other hother text' hlabel').symm.trans hrecorded)
      have covers := solveClause_covers unionFree wellFormed.builtIns functorFree hfirst unresolved
      refine Option.eq_none_iff_forall_ne_some.mpr fun representation hsome => ?_
      have hkind := (covers node.typeVar).hasKind (unionFree.kindsRise wellFormed.builtIns)
        (TypeSet.hasKind_of_preferred? hsome)
      obtain ⟨found, hfound⟩ := TypeSet.exists_preferred? hkind
      rw [hpreferred] at hfound
      cases hfound

end Numerals

/-! ### What numerals are resolved to -/

namespace Knowledge

variable {known : Knowledge} {node : Node} {types : TypeSet} {kinds : List Kind}

/-- A numeral is resolved to the representation that its set of types prefers. -/
theorem numeralChoice_eq (wellFormed : known.context.env.WellFormed)
    (unionFree : known.context.env.UnionFree) (h : known.kindsIn types = .ok kinds) :
    numeralChoice kinds = types.preferred? known.context.env := by
  unfold numeralChoice TypeSet.preferred?
  congr 1
  funext representation
  rw [Bool.eq_iff_iff, List.contains_iff_mem]
  refine ⟨fun hmem => hasKind_of_kindsIn h hmem, fun hkind => ?_⟩
  cases types with
  | all =>
      obtain rfl := Except.ok.inj h
      cases representation <;> decide
  | only names =>
      obtain ⟨name, hname, hof⟩ := TypeSet.hasKind_only.mp hkind
      exact mem_of_mapM_ok h (Names.mem_toList.mpr hname)
        (unionFree.kindOf_eq wellFormed representation.kind_mem_primitives hof)

theorem IsStable.numeral (stable : known.IsStable .numerals node)
    (wellFormed : known.context.env.WellFormed) (unionFree : known.context.env.UnionFree)
    {text : String} (hlabel : node.label = .numeral text none)
    (htypes : known.typesOf node = .ok types) :
    known.resolutions.numerals.get? node.id = types.preferred? known.context.env := by
  have hkindsOf : known.kindsOf node = known.kindsIn types := by
    simp only [kindsOf, hlabel, htypes, Bool.false_and]
    rfl
  simp only [IsStable, choice, hlabel, hkindsOf] at stable
  cases hkinds : known.kindsIn types with
  | error fault =>
      rw [hkinds] at stable
      cases stable
  | ok kinds =>
      rw [hkinds] at stable
      rw [← numeralChoice_eq wellFormed unionFree hkinds]
      exact (Except.ok.inj stable).symm

end Knowledge

/-- After all passes, numerals are as the pass over them wants them to be. -/
theorem Pass.runAll_stable_numerals {known : Knowledge} {nodes : List Node}
    {resolutions : Resolutions} {changed : Bool} (distinct : (nodes.map Node.id).Nodup)
    (h : runAll known nodes all = (resolutions, .ok changed)) {node : Node} (hnode : node ∈ nodes) :
    Knowledge.IsStable { known with resolutions } .numerals node := by
  obtain ⟨first, _, _, -, h, -⟩ := runAll_cons_eq_ok h
  obtain ⟨second, _, _, run₂, h, -⟩ := runAll_cons_eq_ok h
  obtain ⟨third, _, _, run₃, h, -⟩ := runAll_cons_eq_ok h
  obtain ⟨fourth, _, _, run₄, h, -⟩ := runAll_cons_eq_ok h
  obtain rfl : fourth = resolutions := congrArg Prod.fst h
  obtain ⟨others₃, -⟩ := run_frame run₃
  obtain ⟨others₄, -⟩ := run_frame run₄
  have frame : ∀ other : Pass, other.feedsBack → second.table other = fourth.table other := by
    intro other hother
    cases other with
    | functors => exact ((others₄ .functors (by decide)).trans (others₃ .functors (by decide))).symm
    | numerals => exact ((others₄ .numerals (by decide)).trans (others₃ .numerals (by decide))).symm
    | _ => cases hother
  exact (run_stable (by decide) distinct run₂ node hnode).transfer (frame .functors rfl)
    (frame .numerals rfl)

theorem Program.clausesApart_of_nodup {program : Program}
    (h : ((Node.nodesOf program.clauses).map Node.id).Nodup) : program.ClausesApart := by
  unfold ClausesApart
  generalize program.clauses = clauses at h
  induction clauses with
  | nil => exact .nil
  | cons clause rest ih =>
      rw [Node.nodesOf, List.map_append, List.nodup_append'] at h
      obtain ⟨-, hrest, disjoint⟩ := h
      refine .cons (fun other hother id hid hid' => ?_) (ih hrest)
      obtain ⟨node, hnode, rfl⟩ := List.mem_map.mp hid'
      exact disjoint hid (List.mem_map_of_mem (Node.mem_nodesOf.mpr ⟨other, hother, hnode⟩))

namespace Program

variable {context : Context} {program : Program} {resolutions after : Resolutions} {changed : Bool}
  {solved : List SolvedClause} {one : SolvedClause}

/-- A round resolves numerals as the solutions of their clauses prefer. -/
theorem follow_of_refined (hcontext : Context.ofProgram program = .ok context)
    (unionFree : context.env.UnionFree)
    (distinct : ((Node.nodesOf program.clauses).map Node.id).Nodup)
    (hsolved : solveClauses context program resolutions program.clauses = (solved, none))
    (hrefined : program.refined context resolutions = (after, .ok changed)) (hone : one ∈ solved) :
    after.Follow context.env one.clause one.solution.assignment := by
  intro node hnode text hlabel
  have hmem := mem_nodesOf_of_solved hsolved hone hnode
  have isArgument : node ∈ one.clause.arguments := by
    refine List.mem_filter.mpr ⟨hnode, ?_⟩
    rw [Node.isArgument, hlabel]
    rfl
  have htypes := typesOf_argument (identified_of_nodup distinct) (clausesApart_of_nodup distinct)
    hsolved hone isArgument
  have stable := Pass.runAll_stable_numerals distinct hrefined hmem
  exact stable.numeral (Context.wellFormed_of_ofProgram hcontext) unionFree hlabel htypes

/-! ### Three rounds -/

section Class

variable (hcontext : Context.ofProgram program = .ok context) (unionFree : context.env.UnionFree)
  (flat : context.env.NothingBelowRecords) (shaped : program.WellShaped context)

include hcontext unionFree flat shaped

theorem solveClauses_resolutionsAfter (count : Nat) : ∃ solved,
    solveClauses context program (program.resolutionsAfter context count) program.clauses =
      (solved, none) := by
  obtain ⟨acyclic, -, stops⟩ := conditions_of_unionFree hcontext unionFree flat
  obtain ⟨solved, hsolved, -⟩ := solveClauses_eq_ok hcontext acyclic shaped
    (stops (program.resolutionsAfter context count)) (fun _ hclause => hclause)
  exact ⟨solved, hsolved⟩

theorem round?_resolutionsAfter (count : Nat) : ∃ changed,
    program.round? context (program.resolutionsAfter context count) =
      some (program.resolutionsAfter context (count + 1), changed) := by
  obtain ⟨solved, hsolved⟩ := solveClauses_resolutionsAfter hcontext unionFree flat shaped count
  obtain ⟨changed, hrefined⟩ := refined_resolutionsAfter hcontext unionFree flat shaped count
  exact ⟨changed, round?_eq_some.mpr ⟨solved, hsolved, hrefined⟩⟩

/-- No round fails, so there are resolutions after any number of them. -/
theorem resolvedAfter?_eq (count : Nat) :
    program.resolvedAfter? context {} count = some (program.resolutionsAfter context count) := by
  induction count with
  | zero => rfl
  | succ count ih =>
      obtain ⟨changed, hround⟩ := round?_resolutionsAfter hcontext unionFree flat shaped count
      rw [resolvedAfter?_succ ih, hround]
      rfl

theorem settlesAt_of_settledAfter {count : Nat} (settled : program.SettledAfter context count) :
    program.SettlesAt context {} count := by
  obtain ⟨solved, hsolved⟩ := solveClauses_resolutionsAfter hcontext unionFree flat shaped count
  exact ⟨_, resolvedAfter?_eq hcontext unionFree flat shaped count,
    round?_eq_some.mpr ⟨solved, hsolved, settled⟩⟩

variable (distinct : ((Node.nodesOf program.clauses).map Node.id).Nodup)

include distinct

/-- A numeral whose representation is fixed is resolved to that. -/
theorem get?_of_fixed {count : Nat} {node : Node} (hnode : node ∈ Node.nodesOf program.clauses)
    {text : String} {representation : NumericKind}
    (hlabel : node.label = .numeral text (some representation)) :
    (program.resolutionsAfter context (count + 1)).numerals.get? node.id = some representation := by
  obtain ⟨changed, hrefined⟩ := refined_resolutionsAfter hcontext unionFree flat shaped count
  have stable := Pass.runAll_stable_numerals distinct hrefined hnode
  simp only [Knowledge.IsStable, Knowledge.choice, hlabel] at stable
  exact (Except.ok.inj stable).symm

variable (functorFree : ∀ clause ∈ program.clauses, clause.FunctorFree)

include functorFree

/-- The second round resolves no numeral otherwise than the first. -/
theorem numeral_resolved_again {node : Node} (hnode : node ∈ Node.nodesOf program.clauses)
    {text : String} (hlabel : node.label = .numeral text none) :
    (program.resolutionsAfter context 2).numerals.get? node.id =
      (program.resolutionsAfter context 1).numerals.get? node.id := by
  obtain ⟨clause, hclause, hnode⟩ := Node.mem_nodesOf.mp hnode
  obtain ⟨solved₁, hsolved₁⟩ := solveClauses_resolutionsAfter hcontext unionFree flat shaped 0
  obtain ⟨solved₂, hsolved₂⟩ := solveClauses_resolutionsAfter hcontext unionFree flat shaped 1
  obtain ⟨_, hrefined₁⟩ := refined_resolutionsAfter hcontext unionFree flat shaped 0
  obtain ⟨_, hrefined₂⟩ := refined_resolutionsAfter hcontext unionFree flat shaped 1
  obtain ⟨first, hfirst, hsolve₁⟩ :=
    exists_mem_of_forall₂ (solveClauses_eq_iff.mp hsolved₁) hclause
  obtain ⟨again, hagain, hsolve₂⟩ :=
    exists_mem_of_forall₂ (solveClauses_eq_iff.mp hsolved₂) hclause
  have follow₁ := follow_of_refined hcontext unionFree distinct hsolved₁ hrefined₁ hfirst
  have follow₂ := follow_of_refined hcontext unionFree distinct hsolved₂ hrefined₂ hagain
  rw [solveClause_clause hsolve₁] at follow₁
  rw [solveClause_clause hsolve₂] at follow₂
  rw [follow₂ node hnode text hlabel, follow₁ node hnode text hlabel]
  exact preferred?_again hcontext unionFree (functorFree clause hclause) hsolve₁ hsolve₂ follow₁
    hnode hlabel

/-- The third round changes nothing. -/
theorem settledAfter_two :
    (program.resolutionsAfter context 2).numerals =
        (program.resolutionsAfter context 1).numerals ∧
      program.SettledAfter context 2 := by
  have same : ∀ pass : Pass, pass.feedsBack → ∀ node ∈ Node.nodesOf program.clauses,
      pass.concerns node →
        ((program.resolutionsAfter context (1 + 1)).table pass).get? node.id =
          ((program.resolutionsAfter context 1).table pass).get? node.id := by
    intro pass hpass node hnode concerned
    cases pass with
    | functors =>
        obtain ⟨clause, hclause, hin⟩ := Node.mem_nodesOf.mp hnode
        have none := functorFree clause hclause node hin
        cases hlabel : node.label with
        | functor symbol => exact absurd hlabel (none symbol)
        | _ => simp [Pass.concerns, hlabel] at concerned
    | numerals =>
        cases hlabel : node.label with
        | numeral text fixed =>
            cases fixed with
            | none =>
                exact numeral_resolved_again hcontext unionFree flat shaped distinct functorFree
                  hnode hlabel
            | some representation =>
                exact (get?_of_fixed hcontext unionFree flat shaped distinct hnode hlabel).trans
                  (get?_of_fixed hcontext unionFree flat shaped distinct hnode hlabel).symm
        | _ => simp [Pass.concerns, hlabel] at concerned
    | _ => cases hpass
  exact settledAfter_of_same hcontext unionFree flat shaped distinct same

end Class

end Program

/-! ### Branches without an owner -/

section Branches

variable {context : Context} {program : Program} {resolutions : Resolutions} {clause node : Node}
  {fault : Fault}

/-- Nothing but a branch that its owner lacks, or a declaration, keeps a node from
having constraints. -/
theorem nodeConstraints_fault {negated : List NodeId}
    (h : nodeConstraints context program resolutions negated node = .error fault) :
    fault = .lacksProperty := by
  cases hlabel : node.label with
  | branch name =>
      by_cases owned : context.BranchOwned name
      · obtain ⟨constraints, hconstraints⟩ := nodeConstraints_of_owned hlabel owned
        cases hconstraints.symm.trans h
      · rw [nodeConstraints_of_not_owned hlabel owned] at h
        exact (Except.error.inj h).symm
  | comparison op =>
      simp only [nodeConstraints, hlabel] at h
      split at h <;> cases h
  | field | relationDecl | functorDecl | subsetDecl | aliasDecl | unionDecl | recordDecl | branchDecl
  | adtDecl =>
      rw [nodeConstraints, hlabel] at h
      exact (Except.error.inj h).symm
  | _ =>
      rw [nodeConstraints, hlabel] at h
      cases h

theorem visitsProblem_fault {visits : List NodeVisit} {start : Problem}
    (h : visitsProblem context program resolutions visits start = .error fault) :
    fault = .lacksProperty := by
  induction visits generalizing start with
  | nil => cases h
  | cons visit rest ih =>
      rw [visitsProblem] at h
      split at h
      · exact ih h
      · rename_i hfault
        obtain rfl := Except.error.inj h
        exact nodeConstraints_fault hfault

/-- A clause that is not solved has a node without constraints. -/
theorem solveClause_fault (hcontext : Context.ofProgram program = .ok context)
    (unionFree : context.env.UnionFree) (flat : context.env.NothingBelowRecords)
    (h : solveClause context program resolutions clause = .error fault) :
    fault = .lacksProperty := by
  have wellFormed := Context.wellFormed_of_ofProgram hcontext
  have acyclic := wellFormed.acyclic unionFree
  cases hproblem : clauseProblem context program resolutions clause with
  | error other =>
      simp only [solveClause, hproblem] at h
      obtain rfl := Except.error.inj h
      exact visitsProblem_fault hproblem
  | ok problem =>
      have posed := clauseProblem_wellPosed hcontext hproblem
      obtain ⟨solved, hsolved, -⟩ := solveClause_eq_ok hcontext acyclic hproblem
        (posed.stops_of_nothingBelowRecords acyclic wellFormed flat)
      rw [hsolved] at h
      cases h

theorem solveClauses_fault {clauses : List Node}
    (h : (solveClauses context program resolutions clauses).2 = some fault) :
    ∃ clause ∈ clauses, solveClause context program resolutions clause = .error fault := by
  induction clauses with
  | nil => cases h
  | cons clause rest ih =>
      rw [solveClauses] at h
      split at h
      · rename_i hfault
        obtain rfl := Option.some.inj h
        exact ⟨clause, List.mem_cons_self, hfault⟩
      · obtain ⟨other, hother, hfault⟩ := ih h
        exact ⟨other, List.mem_cons_of_mem _ hother, hfault⟩

namespace Program

/-- The type that owns the branch of a constructor has that branch. -/
def BranchesOwned (context : Context) (program : Program) : Prop :=
  ∀ node ∈ Node.nodesOf program.clauses, ∀ name owner,
    node.label = .branch name → context.owner? name = some owner →
      ∃ branch, context.env.branch? owner name = .ok (some branch)

/-- If an owner lacks the branch of a constructor, a clause is not solved. -/
theorem solveClauses_of_not_owned (hcontext : Context.ofProgram program = .ok context)
    (unionFree : context.env.UnionFree) (flat : context.env.NothingBelowRecords)
    (h : ¬ program.BranchesOwned context) :
    (solveClauses context program resolutions program.clauses).2 = some .lacksProperty := by
  cases hfault : (solveClauses context program resolutions program.clauses).2 with
  | some fault =>
      obtain ⟨clause, -, hclause⟩ := solveClauses_fault hfault
      exact congrArg some (solveClause_fault hcontext unionFree flat hclause)
  | none =>
      refine absurd ?_ h
      intro node hnode name owner hlabel howner
      obtain ⟨clause, hclause, hnode⟩ := Node.mem_nodesOf.mp hnode
      obtain ⟨one, hone⟩ := exists_solved_iff.mp ⟨_, Prod.ext rfl hfault⟩ clause hclause
      have acyclic := (Context.wellFormed_of_ofProgram hcontext).acyclic unionFree
      obtain ⟨rfl, satisfies⟩ := solveClause_satisfies hcontext acyclic hone
      obtain ⟨negated, constraints, hconstraints, -⟩ := satisfies.of_mem hnode
      by_contra lacks
      have unowned : ¬ context.BranchOwned name := fun owned => lacks (owned owner howner)
      rw [nodeConstraints_of_not_owned hlabel unowned] at hconstraints
      cases hconstraints

theorem run_of_unsolved (h : (solveClauses context program {} program.clauses).2 = some fault)
    (account : Bool) {limit : Nat} (hlimit : 0 < limit) :
    (program.run context account limit).fault = some fault := by
  obtain ⟨more, rfl⟩ := Nat.exists_eq_succ_of_ne_zero hlimit.ne'
  cases hsolved : solveClauses context program {} program.clauses with
  | mk solved fault? =>
      obtain rfl : fault? = some fault := by simpa [hsolved] using h
      simp [run, Analysis.run, Analysis.runFrom, Analysis.round, Analysis.solve_eq, hsolved]

end Program

end Branches

namespace Program

variable {context : Context} {program : Program}

/-- Over an environment without unions and subset types of records, the analysis of
a program without functors resolves all numerals in its first round, and returns with
its third round at the latest. This presupposes that the types which own the branches
of constructors have these branches. If one of them does not, no round is completed. -/
theorem run_functorFree (hcontext : Context.ofProgram program = .ok context)
    (unionFree : context.env.UnionFree) (noSubrecords : context.env.NoSubrecords)
    (distinct : ((Node.nodesOf program.clauses).map Node.id).Nodup)
    (shaped : ∀ node ∈ Node.nodesOf program.clauses, node.IsShaped)
    (targets : ∀ node ∈ Node.nodesOf program.clauses, ∀ op targeted,
      node.label = .aggregate op targeted → op.isOverloaded →
        ∃ target, node.target? = some target ∧ target.isArgument)
    (functorFree : ∀ node ∈ Node.nodesOf program.clauses, ∀ symbol, node.label ≠ .functor symbol)
    (account : Bool) :
    (program.BranchesOwned context → ∃ first,
      program.resolvedAfter? context {} 1 = some first ∧
      (∀ count ≥ 1, ∃ later, program.resolvedAfter? context {} count = some later ∧
        later.numerals = first.numerals) ∧
      ∀ limit ≥ 3, (program.run context account limit).fault = none ∧
        (program.run context account limit).analysis.iterations ≤ 3 ∧
        (program.run context account limit).analysis.resolutions.numerals = first.numerals) ∧
    (¬ program.BranchesOwned context → ∀ limit > 0,
      (program.run context account limit).fault = some .lacksProperty) := by
  have flat := unionFree.nothingBelowRecords noSubrecords
  refine ⟨fun owned => ?_, fun unowned limit hlimit =>
    run_of_unsolved (solveClauses_of_not_owned hcontext unionFree flat unowned) account hlimit⟩
  have wellShaped : program.WellShaped context :=
    ⟨identified_of_nodup distinct, shaped, targets, owned⟩
  have free : ∀ clause ∈ program.clauses, clause.FunctorFree := fun clause hclause node hnode =>
    functorFree node (Node.mem_nodesOf.mpr ⟨clause, hclause, hnode⟩)
  have reached := resolvedAfter?_eq hcontext unionFree flat wellShaped
  obtain ⟨again, settled⟩ := settledAfter_two hcontext unionFree flat wellShaped distinct free
  have numerals : ∀ count ≥ 1, (program.resolutionsAfter context count).numerals =
      (program.resolutionsAfter context 1).numerals := by
    intro count hcount
    obtain rfl | hcount : count = 1 ∨ 2 ≤ count := by omega
    · rfl
    · obtain ⟨more, rfl⟩ := Nat.exists_eq_add_of_le hcount
      rw [settled.resolutionsAfter_eq more, again]
  refine ⟨_, reached 1, fun count hcount => ⟨_, reached count, numerals count hcount⟩, ?_⟩
  intro limit hlimit
  have settles := settlesAt_of_settledAfter hcontext unionFree flat wellShaped settled
  rcases Analysis.run_outcome context program account {} limit with
    ⟨count, -, ends⟩ | ⟨unsettled, -⟩
  · have hcount : count ≤ 2 := by
      by_contra more
      exact ends.first 2 (by omega) (by omega) settles
    have hfinal := Option.some.inj ((reached count).symm.trans ends.reached)
    refine ⟨ends.returns, ?_, ?_⟩
    · show (Analysis.run {} context program account limit).analysis.iterations ≤ 3
      rw [ends.iterations]
      omega
    · show (Analysis.run {} context program account limit).analysis.resolutions.numerals = _
      rw [← hfinal]
      exact numerals count ends.positive
  · exact absurd settles (unsettled 2 (by omega) (by omega))

/-- The clause `A(x) :- x < 1, x = sum y : { B(y) }.` -/
def boundedProgram : Program where
  clauses := [.mk 0 none .clause [
    .mk 1 none (.atom "A") [.mk 2 none (.var "x") []],
    .mk 3 none (.comparison .lt) [.mk 4 none (.var "x") [], .mk 5 none (.numeral "1" none) []],
    .mk 6 none (.comparison .eq) [.mk 7 none (.var "x") [],
      .mk 8 none (.aggregate .sum true) [.mk 9 none (.var "y") [],
        .mk 10 none (.atom "B") [.mk 11 none (.var "y") []]]]]]

/-- The first round resolves the numeral, and the sum and the comparisons to their
variants for floats, since all arguments may still be floats. The second round has the
latter follow the numeral, and the third changes nothing. -/
theorem run_functorFree_boundedProgram :
    Context.ofProgram boundedProgram = .ok bareContext ∧
    boundedProgram.BranchesOwned bareContext ∧
    (∃ first, boundedProgram.resolvedAfter? bareContext {} 1 = some first ∧
      first.numerals.get? 5 = some .int ∧ first.comparisons.get? 3 = some .flt ∧
      ∀ count ≥ 1, ∃ later, boundedProgram.resolvedAfter? bareContext {} count = some later ∧
        later.numerals = first.numerals) ∧
    (boundedProgram.run bareContext false 3).analysis.iterations = 3 ∧
    ∀ limit ≥ 3, (boundedProgram.run bareContext false limit).fault = none := by
  have hcontext : Context.ofProgram boundedProgram = .ok bareContext := rfl
  have owned : boundedProgram.BranchesOwned bareContext := by
    simp [BranchesOwned, boundedProgram, Node.nodesOf, Node.nodes, Node.label]
  obtain ⟨first, hfirst, later, ends⟩ := (run_functorFree hcontext bareContext_unionFree
    bareContext_noSubrecords (by decide)
    (by simp [boundedProgram, Node.nodesOf, Node.nodes, Node.IsShaped, Node.label, Node.children,
      Node.isArgument, Label.isArgument])
    (by simp [boundedProgram, Node.nodesOf, Node.nodes, Node.label, Node.target?, Node.children,
      Node.isArgument, Label.isArgument])
    (by simp [boundedProgram, Node.nodesOf, Node.nodes, Node.label]) false).1 owned
  have resolved : (boundedProgram.resolvedAfter? bareContext {} 1).map
      (fun first => (first.numerals.get? 5, first.comparisons.get? 3)) =
        some (some .int, some .flt) := by decide +kernel
  obtain ⟨numeral, comparison⟩ := Prod.mk.inj (Option.some.inj (hfirst ▸ resolved))
  exact ⟨hcontext, owned, ⟨first, hfirst, numeral, comparison, later⟩, by decide +kernel,
    fun limit hlimit => (ends limit hlimit).1⟩

/-- A record type, a sum type of the same name that comes too late, and the clause
`A($B()).` with a constructor of its branch. -/
def shadowedProgram : Program where
  types := [
    .mk 0 none (.recordDecl "T") [.mk 1 none (.field "a" "number") []],
    .mk 2 none (.adtDecl "T") [.mk 3 none (.branchDecl "B") []]]
  clauses := [.mk 4 none .clause [.mk 5 none (.atom "A") [.mk 6 none (.branch "B") []]]]

def shadowedContext : Context where
  env := ⟨TypeEnv.builtIn.entries ++ [("T", .record ["number"])]⟩
  owners := [("B", "T")]
  signatures := []

/-- The owner of the branch is a record, and no run gets through its first round. -/
theorem shadowedBranch_fails :
    Context.ofProgram shadowedProgram = .ok shadowedContext ∧
    shadowedContext.env.UnionFree ∧ shadowedContext.env.NoSubrecords ∧
    ((Node.nodesOf shadowedProgram.clauses).map Node.id).Nodup ∧
    (∀ node ∈ Node.nodesOf shadowedProgram.clauses, node.IsShaped) ∧
    (∀ node ∈ Node.nodesOf shadowedProgram.clauses, ∀ op targeted,
      node.label ≠ .aggregate op targeted) ∧
    (∀ node ∈ Node.nodesOf shadowedProgram.clauses, ∀ symbol, node.label ≠ .functor symbol) ∧
    ∀ account, ∀ limit > 0, (shadowedProgram.run shadowedContext account limit).fault =
      some .lacksProperty := by
  refine ⟨rfl, TypeEnv.unionFree_of_names (by decide), TypeEnv.noSubrecords_of_names (by decide),
    by decide, ?_, ?_, ?_, fun account limit hlimit => run_of_unsolved rfl account hlimit⟩ <;>
    simp [shadowedProgram, Node.nodesOf, Node.nodes, Node.IsShaped, Node.label]

end Program

end DatalogTyping

import DatalogTyping.Proofs.ClauseProblems
import DatalogTyping.Proofs.Faultless
import DatalogTyping.Proofs.Soundness

/-!
# The typing rules

What the sets of types of the arguments of a clause have to do with each other and
with the declarations is stated here without reference to constraints, type
variables or the solver: `ClauseTyping.ObeysRules` has one rule for each kind of
node. In an environment without cycles, whatever has been resolved so far, a clause
that can be solved gets a typing that obeys them (`solveClause_obeysRules`).

A rule holds because the constraints of its node are among those of the problem
(`visitsProblem_poses`) and the solution satisfies them all
(`solveClause_satisfies`).
-/

namespace DatalogTyping

/-! ### Sets of types -/

namespace TypeSet

/-- The set is finite, and all types in it are below the given one. -/
def LiesBelow (env : TypeEnv) (types : TypeSet) (bound : String) : Prop :=
  types.Consists fun name => env.isSubtype name bound

/-- The set lies below the constant type of a kind. -/
def LiesBelowKind (env : TypeEnv) (types : TypeSet) (kind : Kind) : Prop :=
  ∃ constant, TypeEnv.constantName? kind = some constant ∧ types.LiesBelow env constant

/-- Neither set is restricted, or each type in either is below one in the other. -/
def Mutual (env : TypeEnv) (types others : TypeSet) : Prop :=
  (types = .all ∧ others = .all) ∨
    ∃ names names', types = .only names ∧ others = .only names' ∧
      (∀ name ∈ names, ∃ upper ∈ names', env.isSubtype name upper) ∧
      ∀ name ∈ names', ∃ upper ∈ names, env.isSubtype name upper

/-- Neither set is restricted, or each type in either is below a constant type that
both have a type carved from. -/
def SharesBases (env : TypeEnv) (types others : TypeSet) : Prop :=
  (types = .all ∧ others = .all) ∨
    ∃ names names', types = .only names ∧ others = .only names' ∧
      ∀ name, name ∈ names ∨ name ∈ names' →
        ∃ root, env.SharedBase names names' root ∧ env.isSubtype name root

end TypeSet

/-! ### The rules -/

/-- The kind that every argument with the label has. -/
def Label.fixedKind? : Label → Option Kind
  | string _ => some .symbol
  | counter => some .signed
  | iteration => some .unsigned
  | aggregate .count _ => some .signed
  | aggregate .mean _ => some .float
  | _ => none

/-- The atom stands directly under a negation somewhere in the clause. -/
def Node.Negates (clause atom : Node) : Prop :=
  ∃ negation ∈ clause.nodes, negation.label = .negation ∧
    ∃ child ∈ negation.children, child.id = atom.id

/-- A representation that a numeral can have: the one that is fixed, or else the one
that it is resolved to, or else any. A resolved one has been checked. -/
def Resolutions.Represents (resolutions : Resolutions) (node : Node) (text : String)
    (fixed : Option NumericKind) (kind : NumericKind) : Prop :=
  (fixed = some kind ∧ Numeral.parsesAs text kind) ∨
  (fixed = none ∧ resolutions.numerals.get? node.id = some kind) ∨
  (fixed = none ∧ resolutions.numerals.get? node.id = none ∧ kind ∈ Numeral.kinds text)

namespace ClauseTyping

/-- The typing gives an argument of its clause a set of types. -/
def Assigns (typing : ClauseTyping) (argument : Node) (types : TypeSet) : Prop :=
  (argument, types) ∈ typing.entries

/-- Arguments lie below types, pair by pair. -/
def EachBelow (env : TypeEnv) (typing : ClauseTyping) (arguments : List Node)
    (typeNames : List String) : Prop :=
  ∀ (index : Nat) (argument : Node) (typeName : String) (types : TypeSet),
    arguments[index]? = some argument → typeNames[index]? = some typeName →
    typing.Assigns argument types → types.LiesBelow env typeName

/-- The overload is possible for a functor, by the sets of types of its arguments and
its own. -/
def Admits (env : TypeEnv) (typing : ClauseTyping) (node : Node) (types : TypeSet)
    (overload : Overload) : Prop :=
  overload.acceptsArity node.children.length ∧ env.hasKind types overload.result ∧
  ∀ (index : Nat) (argument : Node) (others : TypeSet),
    node.children[index]? = some argument → typing.Assigns argument others →
    ∃ kind, overload.param? index = some kind ∧ env.hasKind others kind

section Rules

variable (context : Context) (program : Program) (resolutions : Resolutions)
  (typing : ClauseTyping)

/-- The rules for atoms and comparisons. -/
structure LiteralRules : Prop where
  /-- The arguments of an atom lie below the types of the attributes of its relation,
  if that is declared with as many, variables directly under a negation apart. -/
  atoms : ∀ atom ∈ typing.clause.nodes, ∀ (name : String) (relation : Node),
    atom.label = .atom name → program.relation? name = some relation →
    relation.children.length = atom.children.length →
    ∀ (index : Nat) (argument : Node) (typeName : String) (types : TypeSet),
      atom.children[index]? = some argument → relation.fieldTypes[index]? = some typeName →
      context.env.isType typeName → typing.Assigns argument types →
      ¬ (typing.clause.Negates atom ∧ ∃ varName, argument.label = .var varName) →
      types.LiesBelow context.env typeName
  /-- Both sides of a test against a pattern are symbols. -/
  tests : ∀ test ∈ typing.clause.nodes, ∀ (op : ComparisonOp) (left right side : Node)
    (types : TypeSet), test.label = .comparison op → op.isSymbolic →
    test.children = [left, right] → side ∈ [left, right] → typing.Assigns side types →
    types.LiesBelowKind context.env .symbol
  /-- The sides of any other comparison have the same types. -/
  comparisons : ∀ comparison ∈ typing.clause.nodes, ∀ (op : ComparisonOp) (left right : Node)
    (types others : TypeSet), comparison.label = .comparison op → ¬ op.isSymbolic →
    comparison.children = [left, right] → typing.Assigns left types →
    typing.Assigns right others → types.Mutual context.env others

/-- The rules for constants, and for what else has a kind of its own. -/
structure ConstantRules : Prop where
  /-- Strings, counters, counts and means each have one kind. -/
  fixedKinds : ∀ (argument : Node) (kind : Kind) (types : TypeSet),
    argument.label.fixedKind? = some kind → typing.Assigns argument types →
    types.LiesBelowKind context.env kind
  /-- `nil` is a record. -/
  nils : ∀ (argument : Node) (types : TypeSet), argument.label = .nil →
    typing.Assigns argument types → types.Consists fun name => context.env.isOfKind name .record
  /-- A numeral is of the kind of one of the representations it can have. -/
  numerals : ∀ (argument : Node) (text : String) (fixed : Option NumericKind) (types : TypeSet),
    argument.label = .numeral text fixed → typing.Assigns argument types →
    types.Consists fun name => ∃ kind, resolutions.Represents argument text fixed kind ∧
      ∃ constant, TypeEnv.constantName? kind.kind = some constant ∧
        context.env.isSubtype name constant

/-- The rules for built-in functors. -/
structure FunctorRules : Prop where
  /-- One that is not resolved has no type, or one of its overloads is possible. -/
  unresolved : ∀ (argument : Node) (symbol : String) (types : TypeSet),
    argument.label = .functor symbol → resolutions.functors.get? argument.id = none →
    typing.Assigns argument types →
    types = .empty ∨ ∃ overload ∈ Overload.ofSymbol symbol,
      typing.Admits context.env argument types overload
  /-- One that is resolved, and not written between its arguments, has the kind of the
  result of its overload, and its arguments have those of the parameters, the argument
  of `ord` apart. -/
  resolved : ∀ (argument : Node) (symbol : String) (overload : Overload) (types : TypeSet),
    argument.label = .functor symbol → resolutions.functors.get? argument.id = some overload →
    ¬ isWrittenBetween symbol argument.children.length → typing.Assigns argument types →
    (∀ constant, TypeEnv.constantName? overload.result = some constant →
      types.LiesBelow context.env constant) ∧
    (overload.op ≠ .ord → ∀ (index : Nat) (operand : Node) (kind : Kind) (constant : String)
      (others : TypeSet), argument.children[index]? = some operand →
      overload.param? index = some kind → TypeEnv.constantName? kind = some constant →
      typing.Assigns operand others → others.LiesBelow context.env constant)
  /-- One that is written between its arguments shares base types with each. -/
  between : ∀ (argument : Node) (symbol : String) (operand : Node) (types others : TypeSet),
    argument.label = .functor symbol → isWrittenBetween symbol argument.children.length →
    operand ∈ argument.children → typing.Assigns operand others →
    typing.Assigns argument types → others.SharesBases context.env types

/-- The rules for aggregates. -/
structure AggregateRules : Prop where
  /-- One that is neither a count nor a mean is some number. -/
  numbers : ∀ (argument : Node) (op : AggregateOp) (targeted : Bool) (types : TypeSet),
    argument.label = .aggregate op targeted → argument.label.fixedKind? = none →
    typing.Assigns argument types →
    types.Consists fun name => ∃ kind ∈ Kind.numerics, ∃ constant,
      TypeEnv.constantName? kind = some constant ∧ context.env.isSubtype name constant
  /-- An aggregate has the types of its target. -/
  targets : ∀ (argument target : Node) (types others : TypeSet),
    argument.target? = some target → typing.Assigns target types →
    typing.Assigns argument others → types.Mutual context.env others

/-- The rules for arguments that refer to declarations. -/
structure DeclarationRules : Prop where
  /-- A cast lies below the type it names, and has no type if that is not declared. -/
  casts : ∀ (argument : Node) (typeName : String) (types : TypeSet),
    argument.label = .cast typeName → typing.Assigns argument types →
    if context.env.isType typeName then types.LiesBelow context.env typeName else types = .empty
  /-- A call lies below the declared type, and so do its arguments, if the functor is
  declared with as many parameters. -/
  calls : ∀ (argument : Node) (name : String) (signature : Signature) (types : TypeSet),
    argument.label = .call name → context.signature? name = some signature →
    context.isUsable signature → signature.params.length = argument.children.length →
    typing.Assigns argument types → types.LiesBelow context.env signature.result ∧
      typing.EachBelow context.env argument.children signature.params
  /-- So do a user-defined aggregate, its initial value and its target, if it is declared
  with two parameters. -/
  folds : ∀ (argument : Node) (name : String) (signature : Signature) (types : TypeSet),
    argument.label = .fold name → context.signature? name = some signature →
    context.isUsable signature → signature.params.length = 2 →
    typing.Assigns argument types → types.LiesBelow context.env signature.result ∧
      typing.EachBelow context.env (argument.children.take 2) signature.params
  /-- A record constructor has the types of records with as many fields, and each of its
  arguments lies below that field of one of them. -/
  records : ∀ (argument : Node) (types : TypeSet), argument.label = .record →
    typing.Assigns argument types →
    ∃ names, types = .only names ∧
      (∀ name ∈ names, context.env.isRecordOf argument.children.length name) ∧
      ∀ (index : Nat) (operand : Node) (others : TypeSet),
        argument.children[index]? = some operand → typing.Assigns operand others →
        others.Consists fun name => ∃ owner ∈ names, ∃ field,
          context.env.field? index owner = some field ∧ context.env.isSubtype name field
  /-- A branch constructor lies below the owner of the branch, and its arguments lie below
  the types of the fields, if there are as many. -/
  branches : ∀ (argument : Node) (name owner : String) (types : TypeSet),
    argument.label = .branch name → context.owner? name = some owner →
    typing.Assigns argument types → types.LiesBelow context.env owner ∧
      ∃ entry, context.env.branch? owner name = .ok (some entry) ∧
        (entry.types.length = argument.children.length →
          typing.EachBelow context.env argument.children entry.types)

/-- The typing of a clause obeys the typing rules. -/
structure ObeysRules : Prop where
  /-- Every argument has one set of types. -/
  total : ∀ argument ∈ typing.clause.arguments, ∃! types, typing.Assigns argument types
  /-- All occurrences of a variable have the same one. -/
  occurrences : ∀ (name : String) (first second : Node) (types others : TypeSet),
    first.label = .var name → second.label = .var name →
    typing.Assigns first types → typing.Assigns second others → types = others
  literals : LiteralRules context program typing
  constants : ConstantRules context resolutions typing
  functors : FunctorRules context resolutions typing
  aggregates : AggregateRules context typing
  declarations : DeclarationRules context typing

end Rules

end ClauseTyping

/-! ### The constraints of a clause -/

namespace Problem

variable {problem : Problem} {constraint : Constraint}

theorem constraints_add (problem : Problem) (constraint : Constraint) :
    (problem.add constraint).constraints = problem.constraints ++ [constraint] := by
  rw [add, constraints_foldl_mention]

theorem constraints_addNode (problem : Problem) (node : Node) (constraints : List Constraint) :
    (problem.addNode node constraints).constraints = problem.constraints ++ constraints := by
  have added : ∀ start : Problem,
      (constraints.foldl add start).constraints = start.constraints ++ constraints := by
    induction constraints with
    | nil => simp
    | cons constraint rest ih => simp [ih, constraints_add]
  rw [addNode, added]
  split
  · rw [constraints_mention]
  · rfl

/-- In the solution of a problem there is nothing left to change for any constraint, in the
form it has by then. -/
theorem exists_unchanged_of_solve {env : TypeEnv} {solution : Round}
    (h : problem.solve env = .ok solution) (hmem : constraint ∈ problem.constraints) :
    ∃ current, constraint.Evolves current ∧
      (current.update env solution.assignment).changed = false := by
  have start : List.Forall₂ Constraint.Evolves problem.constraints problem.constraints :=
    List.forall₂_same.mpr fun constraint _ => .same constraint
  obtain ⟨last, before, evolved, -, rfl, quiet⟩ :=
    settle_preserves Constraint.Evolves (fun _ => True)
      (fun evolves _ => ⟨evolves.update env _, trivial⟩) start trivial h
  obtain ⟨current, hcurrent, evolves⟩ := exists_mem_of_forall₂ evolved hmem
  obtain ⟨hend, hflags⟩ := sweep_unchanged quiet
  rw [hend]
  exact ⟨current, evolves, hflags current hcurrent⟩

/-- The solution of a problem satisfies any constraint that names finite sets. -/
theorem satisfied_of_solve {env : TypeEnv} (acyclic : env.Acyclic) {solution : Round}
    (h : problem.solve env = .ok solution) (hmem : constraint ∈ problem.constraints)
    (finite : constraint.Finite) : constraint.Satisfied env solution.assignment := by
  obtain ⟨current, evolves, unchanged⟩ := exists_unchanged_of_solve h hmem
  exact Constraint.satisfied_of_unchanged acyclic evolves finite unchanged

end Problem

theorem Constraint.Proper.finite {env : TypeEnv} {constraint : Constraint}
    (proper : constraint.Proper env) : constraint.Finite := by
  cases constraint with
  | supertypeIn | recordOf => exact proper.1
  | ofKind => exact proper.2.1
  | _ => trivial

section Clause

variable {context : Context} {program : Program} {resolutions : Resolutions}

/-- The problem poses all constraints of all its nodes. -/
theorem visitsProblem_poses {visits : List NodeVisit} {start problem : Problem}
    (h : visitsProblem context program resolutions visits start = .ok problem) :
    (∀ constraint ∈ start.constraints, constraint ∈ problem.constraints) ∧
    ∀ visit ∈ visits, ∃ constraints,
      nodeConstraints context program resolutions visit.negated visit.node = .ok constraints ∧
      ∀ constraint ∈ constraints, constraint ∈ problem.constraints := by
  induction visits generalizing start with
  | nil =>
      obtain rfl := Except.ok.inj h
      exact ⟨fun _ h => h, by simp⟩
  | cons visit rest ih =>
      rw [visitsProblem] at h
      split at h
      · rename_i constraints hconstraints
        obtain ⟨kept, posed⟩ := ih h
        simp only [Problem.constraints_addNode, List.forall_mem_append] at kept
        exact ⟨kept.1, List.forall_mem_cons.mpr ⟨⟨constraints, hconstraints, kept.2⟩, posed⟩⟩
      · cases h

/-- The constraints of all nodes of the clause are satisfied by its solution. -/
def SolvedClause.Satisfies (context : Context) (program : Program) (resolutions : Resolutions)
    (solved : SolvedClause) : Prop :=
  ∀ visit ∈ solved.clause.visits, ∃ constraints,
    nodeConstraints context program resolutions visit.negated visit.node = .ok constraints ∧
    ∀ constraint ∈ constraints, constraint.Satisfied context.env solved.solution.assignment

/-- A clause is solved by solving a problem that poses the constraints of all its nodes. -/
theorem solveClause_poses {clause : Node} {solved : SolvedClause}
    (h : solveClause context program resolutions clause = .ok solved) :
    solved.clause = clause ∧ solved.problem.solve context.env = .ok solved.solution ∧
      ∀ visit ∈ clause.visits, ∃ constraints,
        nodeConstraints context program resolutions visit.negated visit.node = .ok constraints ∧
        ∀ constraint ∈ constraints, constraint ∈ solved.problem.constraints := by
  unfold solveClause at h
  split at h
  · rename_i problem hproblem
    split at h
    · rename_i solution hsolution
      obtain rfl := Except.ok.inj h
      exact ⟨rfl, hsolution, (visitsProblem_poses hproblem).2⟩
    · cases h
  · cases h

theorem solveClause_satisfies (hcontext : Context.ofProgram program = .ok context)
    (acyclic : context.env.Acyclic) {clause : Node} {solved : SolvedClause}
    (h : solveClause context program resolutions clause = .ok solved) :
    solved.clause = clause ∧ solved.Satisfies context program resolutions := by
  obtain ⟨rfl, hsolution, poses⟩ := solveClause_poses h
  refine ⟨rfl, fun visit hvisit => ?_⟩
  obtain ⟨constraints, hconstraints, posed⟩ := poses visit hvisit
  refine ⟨constraints, hconstraints, fun constraint hconstraint => ?_⟩
  exact Problem.satisfied_of_solve acyclic hsolution (posed constraint hconstraint)
    (nodeConstraints_proper hcontext hconstraints constraint hconstraint).finite

end Clause

/-! ### From constraints to rules -/

section Satisfied

variable {env : TypeEnv} {A : Assignment}

theorem liesBelow_of_boundKind {argument : Node} {kind : Kind}
    (h : ∀ constraint ∈ boundKind argument kind, constraint.Satisfied env A) {constant : String}
    (hconstant : TypeEnv.constantName? kind = some constant) :
    (A argument.typeVar).LiesBelow env constant := by
  simp only [boundKind, hconstant, List.forall_mem_singleton] at h
  exact h

theorem liesBelow_of_boundAll {arguments : List Node} {typeNames : List String}
    (h : ∀ constraint ∈ boundAll arguments typeNames, constraint.Satisfied env A) {index : Nat}
    {argument : Node} {typeName : String} (hargument : arguments[index]? = some argument)
    (htypeName : typeNames[index]? = some typeName) :
    (A argument.typeVar).LiesBelow env typeName := by
  refine h (bound argument typeName) (List.mem_map.mpr ⟨(argument, typeName), ?_, rfl⟩)
  exact List.mem_of_getElem? (List.getElem?_zip_eq_some.mpr ⟨hargument, htypeName⟩)

theorem mutual_of_bothWays {left right : Node}
    (h : ∀ constraint ∈ bothWays left right, constraint.Satisfied env A) :
    (A left.typeVar).Mutual env (A right.typeVar) := by
  simp only [bothWays, List.forall_mem_cons] at h
  obtain ⟨leftBelow, rightBelow, -⟩ := h
  cases hleft : A left.typeVar with
  | all =>
      cases hright : A right.typeVar with
      | all => exact .inl ⟨rfl, rfl⟩
      | only names =>
          obtain ⟨names', hnames', -⟩ := leftBelow names hright
          cases hleft.symm.trans hnames'
  | only names =>
      obtain ⟨names', hright, below⟩ := rightBelow names hleft
      obtain ⟨same, hsame, below'⟩ := leftBelow names' hright
      obtain rfl := TypeSet.only.inj (hleft.symm.trans hsame)
      exact .inr ⟨names, names', rfl, hright, below', below⟩

theorem consists_of_constantTypes {var : TypeVar} {kinds : List Kind}
    (h : (Constraint.supertypeIn var (TypeEnv.constantTypes kinds)).Satisfied env A) :
    (A var).Consists fun name => ∃ kind ∈ kinds, ∃ constant,
      TypeEnv.constantName? kind = some constant ∧ env.isSubtype name constant := by
  obtain ⟨names, hnames, below⟩ := h
  refine ⟨names, hnames, fun name hname => ?_⟩
  obtain ⟨constant, hconstant, hsub⟩ := below name hname
  rw [TypeEnv.constantTypes, TypeSet.ofList, TypeSet.mem_only, Names.mem_ofList,
    List.mem_filterMap] at hconstant
  obtain ⟨kind, hkind, hconstant⟩ := hconstant
  exact ⟨kind, hkind, constant, hconstant, hsub⟩

end Satisfied

/-- Only what some negation of the clause negates is known to be negated. -/
theorem Node.negates_of_visit {clause atom : Node} {visit : NodeVisit} (h : visit ∈ clause.visits)
    (hatom : atom.id ∈ visit.negated) : clause.Negates atom := by
  rcases NodeVisit.mem_negated_along h hatom with hstart | ⟨negation, hnegation, hatom⟩
  · cases hstart
  · refine ⟨negation, hnegation, ?_⟩
    cases hlabel : negation.label with
    | negation => simpa [negates, hlabel] using hatom
    | _ => simp [negates, hlabel] at hatom

namespace SolvedClause

variable {context : Context} {program : Program} {resolutions : Resolutions}
  {solved : SolvedClause} {node : Node} {constraints : List Constraint}

theorem of_assigns {argument : Node} {types : TypeSet} (h : solved.typing.Assigns argument types) :
    argument ∈ solved.clause.nodes ∧ types = solved.solution.assignment argument.typeVar := by
  obtain ⟨other, hother, heq⟩ := mem_entries.mp h
  obtain ⟨rfl, rfl⟩ := Prod.mk.inj heq
  exact ⟨(List.mem_filter.mp hother).1, rfl⟩

theorem Satisfies.of_mem (satisfies : solved.Satisfies context program resolutions)
    (hnode : node ∈ solved.clause.nodes) :
    ∃ negated constraints,
      nodeConstraints context program resolutions negated node = .ok constraints ∧
      ∀ constraint ∈ constraints, constraint.Satisfied context.env solved.solution.assignment := by
  obtain ⟨visit, hvisit, rfl⟩ := Node.exists_visit hnode
  exact ⟨visit.negated, satisfies visit hvisit⟩

/-- An argument has what the solution assigns to its type variable, and its constraints
are satisfied. -/
theorem Satisfies.constraints_of_assigns (satisfies : solved.Satisfies context program resolutions)
    {argument : Node} {types : TypeSet} (h : solved.typing.Assigns argument types) :
    types = solved.solution.assignment argument.typeVar ∧ ∃ negated constraints,
      nodeConstraints context program resolutions negated argument = .ok constraints ∧
      ∀ constraint ∈ constraints, constraint.Satisfied context.env solved.solution.assignment := by
  obtain ⟨hargument, heq⟩ := SolvedClause.of_assigns h
  exact ⟨heq, satisfies.of_mem hargument⟩

theorem Satisfies.literalRules (satisfies : solved.Satisfies context program resolutions) :
    solved.typing.LiteralRules context program where
  atoms := by
    intro atom hatom name relation hlabel hrelation harity index argument typeName types hargument
      hfield htype hassigns bounded
    obtain ⟨-, rfl⟩ := of_assigns hassigns
    obtain ⟨visit, hvisit, rfl⟩ := Node.exists_visit hatom
    obtain ⟨constraints, h, holds⟩ := satisfies visit hvisit
    rw [nodeConstraints, hlabel] at h
    obtain rfl := Except.ok.inj h
    simp only [atomConstraints, hrelation, if_pos harity] at holds
    refine holds (bound argument typeName) (List.mem_map.mpr ⟨(argument, typeName), ?_, rfl⟩)
    refine List.mem_filter.mpr ⟨?_, ?_⟩
    · exact List.mem_of_getElem? (List.getElem?_zip_eq_some.mpr ⟨hargument, hfield⟩)
    · split
      · rename_i varName hvar
        have notNegated : visit.node.id ∉ visit.negated :=
          fun hnegated => bounded ⟨Node.negates_of_visit hvisit hnegated, varName, hvar⟩
        simp [htype, notNegated]
      · simp [htype]
  tests := by
    intro test htest op left right side types hlabel hop hchildren hside hassigns
    obtain ⟨-, rfl⟩ := of_assigns hassigns
    obtain ⟨negated, constraints, h, holds⟩ := satisfies.of_mem htest
    simp only [nodeConstraints, hlabel, hchildren, if_pos hop] at h
    obtain rfl := Except.ok.inj h
    rw [List.forall_mem_append] at holds
    refine ⟨"__symbolConstant", rfl, ?_⟩
    rcases List.mem_pair.mp hside with rfl | rfl
    · exact liesBelow_of_boundKind holds.1 rfl
    · exact liesBelow_of_boundKind holds.2 rfl
  comparisons := by
    intro comparison hcomparison op left right types others hlabel hop hchildren hleft hright
    obtain ⟨-, rfl⟩ := of_assigns hleft
    obtain ⟨-, rfl⟩ := of_assigns hright
    obtain ⟨negated, constraints, h, holds⟩ := satisfies.of_mem hcomparison
    simp only [nodeConstraints, hlabel, hchildren, if_neg hop] at h
    obtain rfl := Except.ok.inj h
    exact mutual_of_bothWays holds

theorem Satisfies.constantRules (satisfies : solved.Satisfies context program resolutions) :
    solved.typing.ConstantRules context resolutions where
  fixedKinds := by
    intro argument kind types hkind hassigns
    obtain ⟨rfl, negated, constraints, h, holds⟩ := satisfies.constraints_of_assigns hassigns
    cases hlabel : argument.label with
    | string | counter | iteration =>
        rw [hlabel] at hkind
        obtain rfl := Option.some.inj hkind
        rw [nodeConstraints, hlabel] at h
        obtain rfl := Except.ok.inj h
        exact ⟨_, rfl, liesBelow_of_boundKind holds rfl⟩
    | aggregate op targeted =>
        rw [hlabel] at hkind
        rw [nodeConstraints, hlabel] at h
        obtain rfl := Except.ok.inj h
        cases op with
        | count | mean =>
            obtain rfl := Option.some.inj hkind
            obtain ⟨own, -⟩ := List.forall_mem_append.mp holds
            exact ⟨_, rfl, liesBelow_of_boundKind own rfl⟩
        | _ => cases hkind
    | _ =>
        rw [hlabel] at hkind
        cases hkind
  nils := by
    intro argument types hlabel hassigns
    obtain ⟨rfl, negated, constraints, h, holds⟩ := satisfies.constraints_of_assigns hassigns
    rw [nodeConstraints, hlabel] at h
    obtain rfl := Except.ok.inj h
    exact holds _ (List.mem_singleton_self _)
  numerals := by
    intro argument text fixed types hlabel hassigns
    obtain ⟨rfl, negated, constraints, h, holds⟩ := satisfies.constraints_of_assigns hassigns
    rw [nodeConstraints, hlabel] at h
    obtain rfl := Except.ok.inj h
    obtain ⟨names, hnames, below⟩ :=
      consists_of_constantTypes (holds _ (List.mem_singleton_self _))
    refine ⟨names, hnames, fun name hname => ?_⟩
    obtain ⟨primitive, hprimitive, constant, hconstant, hsub⟩ := below name hname
    obtain ⟨kind, hkind, rfl⟩ := List.mem_map.mp hprimitive
    refine ⟨kind, ?_, constant, hconstant, hsub⟩
    cases fixed with
    | some own =>
        simp only at hkind
        split at hkind
        · obtain rfl := List.mem_singleton.mp hkind
          exact .inl ⟨rfl, ‹_›⟩
        · cases hkind
    | none =>
        cases hresolved : resolutions.numerals.get? argument.id with
        | some own =>
            simp only [hresolved] at hkind
            obtain rfl := List.mem_singleton.mp hkind
            exact .inr (.inl ⟨rfl, hresolved⟩)
        | none =>
            simp only [hresolved] at hkind
            exact .inr (.inr ⟨rfl, hresolved, hkind⟩)

/-- An overload that an unresolved functor can still have is possible by the sets of
types of its arguments. -/
theorem admits_of_isPossible {env : TypeEnv} {argument : Node} {overload : Overload}
    (h : overload.isPossible env solved.solution.assignment argument.typeVar
      (argument.children.map Node.typeVar)) :
    solved.typing.Admits env argument (solved.solution.assignment argument.typeVar) overload := by
  have suits := Overload.isPossible_iff.mp h
  refine ⟨by simpa using suits.arity, suits.ofResult, fun index operand others hoperand hothers => ?_⟩
  obtain ⟨-, rfl⟩ := of_assigns hothers
  exact suits.params index operand.typeVar (by simp [hoperand])

theorem Satisfies.functorRules (satisfies : solved.Satisfies context program resolutions) :
    solved.typing.FunctorRules context resolutions where
  unresolved := by
    intro argument symbol types hlabel hunresolved hassigns
    obtain ⟨rfl, negated, constraints, h, holds⟩ := satisfies.constraints_of_assigns hassigns
    rw [nodeConstraints, hlabel] at h
    obtain rfl := Except.ok.inj h
    simp only [functorConstraints, hunresolved] at holds
    have hold := holds (.anyOverload symbol argument.typeVar (argument.children.map Node.typeVar)
      (isWrittenBetween symbol argument.children.length)) (by split <;> simp)
    obtain ⟨empty, -⟩ := hold
    cases hlive : (Overload.ofSymbol symbol).filter (·.isPossible context.env
      solved.solution.assignment argument.typeVar (argument.children.map Node.typeVar)) with
    | nil => exact .inl (empty hlive)
    | cons overload rest =>
        have hmem := hlive ▸ List.mem_cons_self (a := overload) (l := rest)
        obtain ⟨hsymbol, possible⟩ := List.mem_filter.mp hmem
        exact .inr ⟨overload, hsymbol, admits_of_isPossible possible⟩
  resolved := by
    intro argument symbol overload types hlabel hresolved hbetween hassigns
    obtain ⟨rfl, negated, constraints, h, holds⟩ := satisfies.constraints_of_assigns hassigns
    rw [nodeConstraints, hlabel] at h
    obtain rfl := Except.ok.inj h
    simp only [functorConstraints, hresolved, if_neg hbetween, List.forall_mem_append] at holds
    refine ⟨fun constant hconstant => liesBelow_of_boundKind holds.1 hconstant, ?_⟩
    intro hop index operand kind constant others hoperand hparam hconstant hothers
    obtain ⟨-, rfl⟩ := of_assigns hothers
    refine liesBelow_of_boundKind (fun constraint hconstraint => holds.2 constraint ?_) hconstant
    rw [if_neg hop]
    refine List.mem_flatMap.mpr ⟨(operand, index), List.mk_mem_zipIdx_iff_getElem?.mpr hoperand, ?_⟩
    simpa only [hparam] using hconstraint
  between := by
    intro argument symbol operand types others hlabel hbetween hoperand hothers hassigns
    obtain ⟨-, rfl⟩ := of_assigns hothers
    obtain ⟨rfl, negated, constraints, h, holds⟩ := satisfies.constraints_of_assigns hassigns
    rw [nodeConstraints, hlabel] at h
    obtain rfl := Except.ok.inj h
    simp only [functorConstraints, if_pos hbetween, List.forall_mem_append] at holds
    exact holds.2 _ (List.mem_map_of_mem hoperand)

theorem Satisfies.aggregateRules (satisfies : solved.Satisfies context program resolutions) :
    solved.typing.AggregateRules context where
  numbers := by
    intro argument op targeted types hlabel hfree hassigns
    obtain ⟨rfl, negated, constraints, h, holds⟩ := satisfies.constraints_of_assigns hassigns
    rw [nodeConstraints, hlabel] at h
    obtain rfl := Except.ok.inj h
    obtain ⟨own, -⟩ := List.forall_mem_append.mp holds
    rw [hlabel] at hfree
    cases op with
    | count | mean => cases hfree
    | _ => exact consists_of_constantTypes (own _ (List.mem_singleton_self _))
  targets := by
    intro argument target types others htarget htypes hothers
    obtain ⟨-, rfl⟩ := of_assigns htypes
    obtain ⟨rfl, negated, constraints, h, holds⟩ := satisfies.constraints_of_assigns hothers
    cases hlabel : argument.label with
    | aggregate op targeted =>
        rw [nodeConstraints, hlabel] at h
        obtain rfl := Except.ok.inj h
        simp only [aggregateConstraints, htarget, List.forall_mem_append] at holds
        exact mutual_of_bothWays holds.2
    | _ => simp [Node.target?, hlabel] at htarget

theorem eachBelow_of_boundAll {env : TypeEnv} {arguments : List Node} {typeNames : List String}
    (h : ∀ constraint ∈ boundAll arguments typeNames,
      constraint.Satisfied env solved.solution.assignment) :
    solved.typing.EachBelow env arguments typeNames := by
  intro index argument typeName types hargument htypeName hassigns
  obtain ⟨-, rfl⟩ := of_assigns hassigns
  exact liesBelow_of_boundAll h hargument htypeName

/-- A use of a functor that is declared with so many parameters is bound by the declaration. -/
theorem below_of_signatureConstraints {node : Node} {name : String} {signature : Signature}
    {arity : Nat} {arguments : List Node} (hsignature : context.signature? name = some signature)
    (husable : context.isUsable signature) (harity : signature.params.length = arity)
    (h : ∀ constraint ∈ signatureConstraints context node name arity arguments,
      constraint.Satisfied context.env solved.solution.assignment) :
    (solved.solution.assignment node.typeVar).LiesBelow context.env signature.result ∧
      solved.typing.EachBelow context.env arguments signature.params := by
  simp only [signatureConstraints, hsignature, harity, husable, decide_true, Bool.and_self,
    if_true, List.forall_mem_cons] at h
  exact ⟨h.1, eachBelow_of_boundAll h.2⟩

theorem Satisfies.declarationRules (satisfies : solved.Satisfies context program resolutions) :
    solved.typing.DeclarationRules context where
  casts := by
    intro argument typeName types hlabel hassigns
    obtain ⟨rfl, negated, constraints, h, holds⟩ := satisfies.constraints_of_assigns hassigns
    rw [nodeConstraints, hlabel] at h
    obtain rfl := Except.ok.inj h
    have hold := holds _ (List.mem_singleton_self _)
    by_cases htype : context.env.isType typeName
    · rw [if_pos htype] at hold ⊢
      exact hold
    · rw [if_neg htype] at hold ⊢
      obtain ⟨names, hnames, below⟩ := hold
      rw [hnames, TypeSet.empty, TypeSet.only.injEq]
      refine Names.ext_mem fun name => ⟨fun hname => ?_, fun hname => ?_⟩
      · obtain ⟨value, hvalue, -⟩ := below name hname
        exact absurd (TypeSet.mem_only.mp hvalue) (Names.notMem_empty value)
      · exact absurd hname (Names.notMem_empty name)
  calls := by
    intro argument name signature types hlabel hsignature husable harity hassigns
    obtain ⟨rfl, negated, constraints, h, holds⟩ := satisfies.constraints_of_assigns hassigns
    rw [nodeConstraints, hlabel] at h
    obtain rfl := Except.ok.inj h
    exact below_of_signatureConstraints hsignature husable harity holds
  folds := by
    intro argument name signature types hlabel hsignature husable harity hassigns
    obtain ⟨rfl, negated, constraints, h, holds⟩ := satisfies.constraints_of_assigns hassigns
    rw [nodeConstraints, hlabel] at h
    obtain rfl := Except.ok.inj h
    exact below_of_signatureConstraints hsignature husable harity holds
  records := by
    intro argument types hlabel hassigns
    obtain ⟨rfl, negated, constraints, h, holds⟩ := satisfies.constraints_of_assigns hassigns
    rw [nodeConstraints, hlabel] at h
    obtain rfl := Except.ok.inj h
    obtain ⟨⟨names, hnames, fields⟩, components⟩ := List.forall_mem_cons.mp holds
    refine ⟨names, hnames, fields, fun index operand others hoperand hothers => ?_⟩
    obtain ⟨-, rfl⟩ := of_assigns hothers
    have component := components (.component operand.typeVar argument.typeVar index)
      (List.mem_map.mpr ⟨(operand, index), List.mk_mem_zipIdx_iff_getElem?.mpr hoperand, rfl⟩)
    exact (component names hnames).2
  branches := by
    intro argument name owner types hlabel howner hassigns
    obtain ⟨rfl, negated, constraints, h, holds⟩ := satisfies.constraints_of_assigns hassigns
    rw [nodeConstraints, hlabel] at h
    rcases branchConstraints_eq_ok h with ⟨hnone, -⟩ | ⟨owner', entry, howner', hentry, rfl⟩
    · cases hnone.symm.trans howner
    · obtain rfl := Option.some.inj (howner.symm.trans howner')
      obtain ⟨own, fields⟩ := List.forall_mem_cons.mp holds
      refine ⟨own, entry, hentry, fun harity => eachBelow_of_boundAll ?_⟩
      rwa [if_pos harity] at fields

/-- The typing of a solved clause obeys the rules. -/
theorem Satisfies.obeysRules (satisfies : solved.Satisfies context program resolutions) :
    solved.typing.ObeysRules context program resolutions where
  total := by
    intro argument hargument
    refine ⟨solved.solution.assignment argument.typeVar, ?_, fun types htypes => ?_⟩
    · exact mem_entries.mpr ⟨argument, hargument, rfl⟩
    · exact (of_assigns htypes).2
  occurrences := by
    intro name first second types others hfirst hsecond htypes hothers
    obtain ⟨-, rfl⟩ := of_assigns htypes
    obtain ⟨-, rfl⟩ := of_assigns hothers
    simp only [Node.typeVar, hfirst, hsecond]
  literals := satisfies.literalRules
  constants := satisfies.constantRules
  functors := satisfies.functorRules
  aggregates := satisfies.aggregateRules
  declarations := satisfies.declarationRules

end SolvedClause

/-! ### Typing a clause -/

/-- In an environment without cycles, and whatever has been resolved, the typing of any
clause obeys the typing rules. -/
theorem solveClause_obeysRules {program : Program} {context : Context}
    (hcontext : Context.ofProgram program = .ok context) (acyclic : context.env.Acyclic)
    (resolutions : Resolutions) {clause : Node} {solved : SolvedClause}
    (h : solveClause context program resolutions clause = .ok solved) :
    solved.typing.clause = clause ∧ solved.typing.ObeysRules context program resolutions := by
  obtain ⟨hclause, satisfies⟩ := solveClause_satisfies hcontext acyclic h
  exact ⟨hclause, satisfies.obeysRules⟩

/-- Even numbers, a sum type with one branch, and a relation between an even number and
a symbol. -/
def edgeProgram : Program where
  types := [.mk 0 none (.subsetDecl "even" "number") [],
    .mk 1 none (.adtDecl "Shape") [
      .mk 2 none (.branchDecl "Dot") [.mk 3 none (.field "at" "even") []]]]
  relations := [.mk 4 none (.relationDecl "edge") [
    .mk 5 none (.field "from" "even") [], .mk 6 none (.field "label" "symbol") []]]

def edgeContext : Context where
  env := ⟨TypeEnv.builtIn.entries ++
    [("Shape", .adt [⟨"Dot", ["even"]⟩]), ("even", .subset "number")]⟩
  owners := [("Dot", "Shape")]
  signatures := []

/-- The clause
`A($Dot(x)) :- !edge(y,"a"), x = sum z : { edge(z,s) }, match("b", s), w = as(y, odd).` -/
def edgeClause : Node :=
  .mk 7 none .clause [
    .mk 8 none (.atom "A") [.mk 9 none (.branch "Dot") [.mk 10 none (.var "x") []]],
    .mk 11 none .negation [
      .mk 12 none (.atom "edge") [.mk 13 none (.var "y") [], .mk 14 none (.string "a") []]],
    .mk 15 none (.comparison .eq) [.mk 16 none (.var "x") [],
      .mk 17 none (.aggregate .sum true) [.mk 18 none (.var "z") [],
        .mk 19 none (.atom "edge") [.mk 20 none (.var "z") [], .mk 21 none (.var "s") []]]],
    .mk 22 none (.comparison .matching) [.mk 23 none (.string "b") [], .mk 24 none (.var "s") []],
    .mk 25 none (.comparison .eq) [.mk 26 none (.var "w") [],
      .mk 27 none (.cast "odd") [.mk 28 none (.var "y") []]]]

/-- The target of the sum is below the attribute of the atom in its body, and so are the
sum, the variable that it is compared with and the part of the branch. The variable of
the negated atom can be anything, and a cast to a type that is not declared has none. -/
theorem solveClause_obeysRules_edgeClause :
    ∃ solved, Context.ofProgram edgeProgram = .ok edgeContext ∧ edgeContext.env.Acyclic ∧
      solveClause edgeContext edgeProgram {} edgeClause = .ok solved ∧
      solved.typing.typeSets = [.ofList ["Shape"], .ofList ["even"], .all, .ofList ["symbol"],
        .ofList ["even"], .ofList ["even"], .ofList ["even"], .ofList ["even"],
        .ofList ["symbol"], .ofList ["__symbolConstant"], .ofList ["symbol"], .empty, .empty,
        .all] ∧
      solved.typing.ObeysRules edgeContext edgeProgram {} := by
  have hcontext : Context.ofProgram edgeProgram = .ok edgeContext := by rfl
  have acyclic : edgeContext.env.Acyclic := TypeEnv.acyclic_of_ordered (by decide)
  have solves : (solveClause edgeContext edgeProgram {} edgeClause).toOption.map
      (·.typing.typeSets) = some [.ofList ["Shape"], .ofList ["even"], .all,
        .ofList ["symbol"], .ofList ["even"], .ofList ["even"], .ofList ["even"],
        .ofList ["even"], .ofList ["symbol"], .ofList ["__symbolConstant"], .ofList ["symbol"],
        .empty, .empty, .all] := by decide +kernel
  cases h : solveClause edgeContext edgeProgram {} edgeClause with
  | error fault => simp [h, Except.toOption] at solves
  | ok solved =>
      refine ⟨solved, hcontext, acyclic, rfl, by simpa [h, Except.toOption] using solves, ?_⟩
      exact (solveClause_obeysRules hcontext acyclic {} h).2

end DatalogTyping

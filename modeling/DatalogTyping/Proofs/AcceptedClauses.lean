import DatalogTyping.Proofs.Locality
import DatalogTyping.Proofs.RecordedOverloads
import DatalogTyping.Proofs.TypingRules
import DatalogTyping.Report.Check

/-!
# Accepted clauses

A program is accepted if a new run returns and the check of what it found has no
complaint (`Program.IsAccepted`). Then every argument has a type and every functor is
resolved. If clauses have no nodes in common, what the table of types says about an
argument is what its clause was solved with, so all of this can be said about one
clause at a time (`SolvedClause.Accepted`, `Program.IsAccepted.exists_clause`).
-/

namespace DatalogTyping

/-! ### Accepted typings -/

theorem Report.issues_of_addAll {report after : Report} {issues : List Issue}
    (h : report.addAll issues = (after, none)) : after.issues = report.issues ++ issues := by
  induction issues generalizing report with
  | nil =>
      obtain rfl := (Prod.mk.inj h).1
      simp
  | cons issue rest ih =>
      rw [addAll] at h
      split at h
      · rename_i next hadd
        obtain rfl : { report with issues := report.issues ++ [issue] } = next :=
          (Prod.mk.inj hadd).1
        rw [ih h]
        simp
      · cases h

/-- A report without issues has seen none. -/
theorem Report.issues_eq_nil_of_check {report : Report} {known : Knowledge}
    {typings : List ClauseTyping} (h : (report.check known typings).2 = .ok true) :
    known.issues typings = [] := by
  unfold check at h
  split at h
  · rename_i after hadded
    have hall := issues_of_addAll hadded
    have hnone : after.issues = [] := by simpa [isOk] using Except.ok.inj h
    exact (List.append_eq_nil_iff.mp (hall.symm.trans hnone)).2
  · cases h

namespace Knowledge

variable {known : Knowledge} {typing : ClauseTyping} {argument : Node} {types : TypeSet}

theorem emptiness?_eq_none {clause : Node} (h : emptiness? clause argument types = none) :
    types.isEmpty = false := by
  unfold emptiness? at h
  split at h
  · cases h
  · rename_i inhabited
    simpa using inhabited

/-- An argument without a complaint has a type, and if it is a functor it is resolved. -/
theorem of_issue?_eq_none (h : known.issue? typing argument types = none) :
    types.isEmpty = false ∧
      ∀ symbol, argument.label = .functor symbol → known.isSettled argument := by
  unfold issue? at h
  cases hlabel : argument.label with
  | functor symbol =>
      simp only [hlabel] at h
      split at h
      · rename_i settled
        exact ⟨emptiness?_eq_none h, fun _ _ => settled⟩
      · cases h
  | numeral text fixed =>
      simp only [hlabel] at h
      split at h
      · exact ⟨emptiness?_eq_none h, nofun⟩
      · cases h
  | call name | fold name =>
      simp only [hlabel, callIssue?] at h
      split at h
      · cases h
      · split at h
        · exact ⟨emptiness?_eq_none h, nofun⟩
        · cases h
  | cast typeName =>
      simp only [hlabel] at h
      split at h
      · exact ⟨emptiness?_eq_none h, nofun⟩
      · cases h
  | _ =>
      simp only [hlabel] at h
      exact ⟨emptiness?_eq_none h, nofun⟩

end Knowledge

/-! ### Kinds of arguments -/

namespace Knowledge

variable {known : Knowledge} {node : Node} {kinds : List Kind} {kind : Kind} {types : TypeSet}

/-- A functor that is resolved has its overload, and the kind of its result. -/
theorem overloadOf_functor {symbol : String} {overload : Overload}
    (hlabel : node.label = .functor symbol)
    (hrecorded : known.resolutions.functors.get? node.id = some overload) :
    known.overloadOf node = .ok overload := by
  simp [overloadOf, isSettled, hlabel, Table.contains, hrecorded]

theorem kindsOf_functor {symbol : String} {overload : Overload}
    (hlabel : node.label = .functor symbol)
    (hrecorded : known.resolutions.functors.get? node.id = some overload) :
    known.kindsOf node = .ok [overload.result] := by
  simp [kindsOf, hlabel, isSettled, Table.contains, hrecorded, returnKind,
    overloadOf_functor hlabel hrecorded, bind, Except.bind, Except.map, pure, Except.pure]

/-- A call has the declared return type, if the declaration is usable. -/
theorem returnType_call {name : String} {signature : Signature} (hlabel : node.label = .call name)
    (hsignature : known.context.signature? name = some signature)
    (usable : known.context.isUsable signature) :
    known.returnType node = .ok signature.result := by
  have settled : known.isSettled node := by simpa [isSettled, hlabel, hsignature] using usable
  obtain ⟨definition, hfind⟩ :=
    Option.isSome_iff_exists.mp (Context.isType_of_isUsable usable).1
  simp [returnType, signatureOf, settled, hlabel, Label.name?, hsignature, TypeEnv.require,
    TypeEnv.get, hfind, bind, Except.bind, Except.map]

/-- Where the kinds of an argument come from. -/
theorem kindsOf_cases (h : known.kindsOf node = .ok kinds) :
    (∃ symbol overload, node.label = .functor symbol ∧
      known.resolutions.functors.get? node.id = some overload ∧ kinds = [overload.result]) ∨
    (∃ name signature kind, node.label = .call name ∧
      known.context.signature? name = some signature ∧ known.context.isUsable signature ∧
      known.context.env.kindOf signature.result = .ok kind ∧ kinds = [kind]) ∨
    ∃ types, known.typesOf node = .ok types ∧ known.kindsIn types = .ok kinds := by
  unfold kindsOf at h
  by_cases settled : known.isSettled node
  · cases hlabel : node.label with
    | functor symbol =>
        have hentry : (known.resolutions.functors.get? node.id).isSome := by
          simpa [isSettled, hlabel, Table.contains] using settled
        obtain ⟨overload, hoverload⟩ := Option.isSome_iff_exists.mp hentry
        refine .inl ⟨symbol, overload, rfl, hoverload, ?_⟩
        simpa [hlabel, settled, returnKind, overloadOf_functor hlabel hoverload, bind, Except.bind,
          Except.map, pure, Except.pure, eq_comm] using h
    | call name =>
        obtain ⟨signature, hsignature, usable⟩ : ∃ signature,
            known.context.signature? name = some signature ∧
              known.context.isUsable signature := by
          simp only [isSettled, hlabel] at settled
          split at settled
          · exact ⟨_, ‹_›, settled⟩
          · cases settled
        simp only [hlabel, settled, Bool.and_self, ↓reduceIte, returnKind,
          returnType_call hlabel hsignature usable, bind, Except.bind, Except.map] at h
        split at h
        · cases h
        · rename_i kind hkind
          exact .inr (.inl ⟨name, signature, kind, rfl, hsignature, usable, hkind,
            (Except.ok.inj h).symm⟩)
    | _ =>
        simp only [hlabel, Bool.false_and, Bool.false_eq_true, ↓reduceIte] at h
        split at h
        · rename_i types htypes
          exact .inr (.inr ⟨types, htypes, h⟩)
        · cases h
  · simp only [settled, Bool.and_false, Bool.false_eq_true, ↓reduceIte] at h
    split at h
    · rename_i types htypes
      exact .inr (.inr ⟨types, htypes, h⟩)
    · cases h

end Knowledge

/-! ### Accepted clauses -/

theorem Node.mem_arguments_of_functor {clause node : Node} {symbol : String}
    (hnode : node ∈ clause.nodes) (hlabel : node.label = .functor symbol) :
    node ∈ clause.arguments := by
  refine List.mem_filter.mpr ⟨hnode, ?_⟩
  rw [isArgument, hlabel]
  rfl

namespace Program

variable {context : Context} {program : Program} {resolutions : Resolutions}
  {solved : List SolvedClause} {one : SolvedClause} {node : Node}

theorem mem_nodesOf_of_solved
    (hsolved : solveClauses context program resolutions program.clauses = (solved, none))
    (hone : one ∈ solved) (hnode : node ∈ one.clause.nodes) :
    node ∈ Node.nodesOf program.clauses := by
  refine Node.mem_nodesOf.mpr ⟨one.clause, ?_, hnode⟩
  rw [← solveClauses_clauses hsolved]
  exact List.mem_map_of_mem hone

/-- The table holds what the last clause with an argument was solved with. -/
theorem typesOf_last (identified : program.Identified) {before after : List SolvedClause}
    (hsolved : solveClauses context program resolutions program.clauses =
      (before ++ one :: after, none))
    (hnode : node ∈ one.clause.arguments) (last : ∀ later ∈ after, node.id ∉ later.clause.ids) :
    (program.knowledge context resolutions).typesOf node =
      .ok (one.solution.assignment node.typeVar) := by
  have nodes : ∀ argument ∈ one.clause.arguments, argument ∈ Node.nodesOf program.clauses :=
    fun argument h => mem_nodesOf_of_solved hsolved (by simp) (List.mem_filter.mp h).1
  obtain ⟨other, hother, argument, hargument, hid, hget⟩ :=
    exists_get?_tabulate (List.mem_singleton_self one) hnode
  obtain rfl := List.mem_singleton.mp hother
  obtain rfl := identified argument (nodes argument hargument) node (nodes node hnode) hid
  rw [List.map_singleton] at hget
  simp only [Knowledge.typesOf, knowledge, hsolved, get?_tabulate_last last, hget, Option.some_or]

/-- Where clauses have no nodes in common, the table holds what the clause of an argument
was solved with. -/
theorem typesOf_argument (identified : program.Identified) (apart : program.ClausesApart)
    (hsolved : solveClauses context program resolutions program.clauses = (solved, none))
    (hone : one ∈ solved) (hnode : node ∈ one.clause.arguments) :
    (program.knowledge context resolutions).typesOf node =
      .ok (one.solution.assignment node.typeVar) := by
  obtain ⟨before, after, rfl⟩ := List.append_of_mem hone
  refine typesOf_last identified hsolved hnode fun later hlater => ?_
  rw [ClausesApart, ← solveClauses_clauses hsolved, List.map_append, List.map_cons,
    List.pairwise_append, List.pairwise_cons] at apart
  exact apart.2.1.1 _ (List.mem_map_of_mem hlater) _
    (Node.id_mem_ids (List.mem_filter.mp hnode).1)

/-- What the table holds for a node is what some clause was solved with. -/
theorem exists_solved_of_types (identified : program.Identified)
    (hnode : node ∈ Node.nodesOf program.clauses) {types : TypeSet}
    (h : (program.knowledge context resolutions).types.get? node.id = some types) :
    ∃ one, solveClause context program resolutions one.clause = .ok one ∧
      node ∈ one.clause.arguments ∧ one.solution.assignment node.typeVar = types := by
  obtain ⟨one, hone, argument, hargument, hid, rfl⟩ := exists_of_get?_tabulate h
  obtain ⟨first, solves⟩ := solveClauses_first context program resolutions program.clauses
  have hclause : one.clause ∈ program.clauses := first.subset (List.mem_map_of_mem hone)
  obtain rfl := identified argument
    (Node.mem_nodesOf.mpr ⟨one.clause, hclause, (List.mem_filter.mp hargument).1⟩) node hnode hid
  exact ⟨one, solves one hone, hargument, rfl⟩

/-- What has a set of types is an argument. -/
theorem isArgument_of_typesOf (identified : program.Identified)
    (hnode : node ∈ Node.nodesOf program.clauses) {types : TypeSet}
    (h : (program.knowledge context resolutions).typesOf node = .ok types) : node.isArgument := by
  unfold Knowledge.typesOf at h
  split at h
  · rename_i hget
    obtain ⟨one, -, hargument, -⟩ := exists_solved_of_types identified hnode hget
    exact (List.mem_filter.mp hargument).2
  · cases h

/-- What has kinds is an argument. -/
theorem isArgument_of_kindsOf (identified : program.Identified)
    (hnode : node ∈ Node.nodesOf program.clauses) {kinds : List Kind}
    (h : (program.knowledge context resolutions).kindsOf node = .ok kinds) : node.isArgument := by
  rcases Knowledge.kindsOf_cases h with
    ⟨symbol, -, hlabel, -⟩ | ⟨name, -, -, hlabel, -⟩ | ⟨types, htypes, -⟩
  · rw [Node.isArgument, hlabel]
    rfl
  · rw [Node.isArgument, hlabel]
    rfl
  · exact isArgument_of_typesOf identified hnode htypes

/-- The set of types of a numeral consists of types of kinds that it can have. -/
theorem consists_of_numeral (hcontext : Context.ofProgram program = .ok context)
    (acyclic : context.env.Acyclic) (identified : program.Identified)
    (hnode : node ∈ Node.nodesOf program.clauses) {text : String} {fixed : Option NumericKind}
    (hlabel : node.label = .numeral text fixed) {types : TypeSet}
    (h : (program.knowledge context resolutions).types.get? node.id = some types) :
    types.Consists fun name => ∃ kind, resolutions.Represents node text fixed kind ∧
      context.env.isOfKind name kind.kind := by
  obtain ⟨one, hone, hargument, rfl⟩ := exists_solved_of_types identified hnode h
  have satisfies := (solveClause_satisfies hcontext acyclic hone).2
  obtain ⟨names, hnames, each⟩ := satisfies.constantRules.numerals node text fixed _ hlabel
    (SolvedClause.mem_entries.mpr ⟨node, hargument, rfl⟩)
  refine ⟨names, hnames, fun name hname => ?_⟩
  obtain ⟨kind, represents, constant, hconstant, hsub⟩ := each name hname
  exact ⟨kind, represents, (TypeEnv.isOfKind_iff hconstant).mpr hsub⟩

end Program

/-- What there is to know about a clause once nothing changes any more and nothing is
wrong with it. -/
structure SolvedClause.Accepted (context : Context) (program : Program) (resolutions : Resolutions)
    (one : SolvedClause) : Prop where
  satisfies : one.Satisfies context program resolutions
  types : ∀ argument ∈ one.clause.arguments,
    (program.knowledge context resolutions).typesOf argument =
      .ok (one.solution.assignment argument.typeVar)
  inhabited : ∀ argument ∈ one.clause.arguments,
    (one.solution.assignment argument.typeVar).isEmpty = false
  chosen : ∀ node ∈ one.clause.nodes, ∀ symbol, node.label = .functor symbol →
    ∃ overload ∈ Overload.ofSymbol symbol, resolutions.functors.get? node.id = some overload ∧
      (program.knowledge context resolutions).Fits node overload
  operands : ∀ node ∈ one.clause.nodes, ∀ symbol, node.label = .functor symbol →
    ∀ operand ∈ node.children, operand ∈ one.clause.arguments

/-- All clauses of a program are accepted if it is settled and there are no complaints. -/
theorem Program.accepted_of_issues_eq_nil {context : Context} {program : Program}
    {resolutions : Resolutions} {solved : List SolvedClause}
    (hcontext : Context.ofProgram program = .ok context) (acyclic : context.env.Acyclic)
    (identified : program.Identified) (apart : program.ClausesApart)
    (settled : program.IsSettled context resolutions) (goes : resolutions.GoBySymbol program)
    (hsolved : solveClauses context program resolutions program.clauses = (solved, none))
    (fine : (program.knowledge context resolutions).issues (solved.map SolvedClause.typing) = [])
    {one : SolvedClause} (hone : one ∈ solved) : one.Accepted context program resolutions := by
  have noIssue : ∀ argument ∈ one.clause.arguments,
      (program.knowledge context resolutions).issue? one.typing argument
        (one.solution.assignment argument.typeVar) = none := by
    intro argument hargument
    have none := List.flatMap_eq_nil_iff.mp fine _ (List.mem_map_of_mem hone)
    exact List.filterMap_eq_nil_iff.mp none (argument, one.solution.assignment argument.typeVar)
      (SolvedClause.mem_entries.mpr ⟨argument, hargument, rfl⟩)
  have chosen : ∀ node ∈ one.clause.nodes, ∀ symbol, node.label = .functor symbol →
      ∃ overload ∈ Overload.ofSymbol symbol, resolutions.functors.get? node.id = some overload ∧
        (program.knowledge context resolutions).Fits node overload := by
    intro node hnode symbol hlabel
    have hargument := Node.mem_arguments_of_functor hnode hlabel
    have resolved := (Knowledge.of_issue?_eq_none (noIssue node hargument)).2 symbol hlabel
    simp only [Knowledge.isSettled, hlabel, Table.contains] at resolved
    obtain ⟨overload, hrecorded⟩ := Option.isSome_iff_exists.mp resolved
    have hmem := mem_nodesOf_of_solved hsolved hone hnode
    exact ⟨overload, goes node hmem symbol overload hlabel hrecorded, hrecorded,
      settled.fits hmem hlabel hrecorded⟩
  refine ⟨?_, fun argument h => typesOf_argument identified apart hsolved hone h,
    fun argument h => (Knowledge.of_issue?_eq_none (noIssue argument h)).1, chosen, ?_⟩
  · obtain ⟨clause, -, hclause⟩ :=
      exists_mem_of_forall₂ (solveClauses_eq_iff.mp hsolved).flip hone
    exact (solveClause_satisfies hcontext acyclic hclause).2
  · intro node hnode symbol hlabel operand hoperand
    obtain ⟨overload, -, -, fits⟩ := chosen node hnode symbol hlabel
    obtain ⟨index, hindex⟩ := List.mem_iff_getElem?.mp hoperand
    obtain ⟨-, kinds, -, hkinds, -⟩ := fits.params index operand hindex
    have hmem := Node.child_mem_nodes hnode hoperand
    exact List.mem_filter.mpr ⟨hmem,
      isArgument_of_kindsOf identified (mem_nodesOf_of_solved hsolved hone hmem) hkinds⟩

namespace Program

variable {context : Context} {program : Program} {account : Bool} {limit : Nat}

/-- What is known at the end of a new run. -/
def known (context : Context) (program : Program) (account : Bool) (limit : Nat) : Knowledge :=
  (program.run context account limit).analysis.known context

/-- A new run returns, and nothing is wrong with what it found. -/
structure IsAccepted (context : Context) (program : Program) (account : Bool) (limit : Nat) :
    Prop where
  returns : (program.run context account limit).fault = none
  fine : (Report.check {} (program.known context account limit)
    (program.run context account limit).analysis.typings).2 = .ok true

/-- Every node of an accepted program is in a clause that is accepted. -/
theorem IsAccepted.exists_clause (accepted : program.IsAccepted context account limit)
    (hcontext : Context.ofProgram program = .ok context) (acyclic : context.env.Acyclic)
    (identified : program.Identified) (apart : program.ClausesApart) :
    ∃ resolutions, program.known context account limit = program.knowledge context resolutions ∧
      ∀ node ∈ Node.nodesOf program.clauses, ∃ one : SolvedClause,
        one.Accepted context program resolutions ∧ node ∈ one.clause.nodes := by
  obtain ⟨count, -, ends⟩ := Analysis.run_returns accepted.returns
  obtain ⟨solved, hsolved, recorded⟩ := ends.final.recorded
  have hknown := ends.final.known_eq
  have htypings : (program.run context account limit).analysis.typings =
      solved.map SolvedClause.typing := (congrArg Analysis.typings recorded).symm
  have fine := Report.issues_eq_nil_of_check accepted.fine
  rw [known, run, hknown, ← run, htypings] at fine
  have goes := goBySymbol_of_resolvedAfter? identified ends.reached
  refine ⟨_, hknown, fun node hnode => ?_⟩
  obtain ⟨clause, hclause, hnode⟩ := Node.mem_nodesOf.mp hnode
  obtain ⟨one, hone, hsolve⟩ := exists_mem_of_forall₂ (solveClauses_eq_iff.mp hsolved) hclause
  refine ⟨one, ?_, (solveClause_clause hsolve).symm ▸ hnode⟩
  exact accepted_of_issues_eq_nil hcontext acyclic identified apart ends.final.settled goes hsolved
    fine hone

end Program

end DatalogTyping

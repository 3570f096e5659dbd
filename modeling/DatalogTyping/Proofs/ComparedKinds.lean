import DatalogTyping.Proofs.FinalChoices

/-!
# The kinds of compared arguments

The sides of a comparison are bound by each other, so once a clause is solved each type
of the one is below a type of the other. Comparable types are of one kind. Where every
type has a kind, the two sides therefore have the same kinds, whatever has been resolved
so far (`Knowledge.kindsPresent_agree`).

So the variant that is chosen for a comparison goes by the kinds of either side. It is
the one for signed numbers only if neither side has any of the other kinds, and never
because the sides disagree.

This is about arguments that apply no functor. The kind of a functor that is resolved is
that of its result, whatever its types are.

It is also about comparisons that outlast their sides (`Node.OutlastsChildren`). Clauses
are solved one after the other, and the table has for a node what the last clause with it
was solved with. If that clause lacks the comparison, then nothing there binds the node to
the other side (`Analysis.sharedSide_kinds_differ`).
-/

namespace DatalogTyping

/-- An argument that applies no functor, whose kinds are therefore those of its types. -/
structure Node.IsPlain (node : Node) : Prop where
  isArgument : node.isArgument
  notFunctor : ∀ symbol, node.label ≠ .functor symbol
  notCall : ∀ name, node.label ≠ .call name

/-- The node compares two plain arguments by an operator that has variants. -/
structure Node.Compares (node : Node) (op : ComparisonOp) (left right : Node) : Prop where
  label : node.label = .comparison op
  overloaded : op.isOverloaded
  children : node.children = [left, right]
  left : left.IsPlain
  right : right.IsPlain

/-- From every clause on that has a child of the node, some clause has the node itself. -/
def Node.OutlastsChildren (node : Node) (program : Program) : Prop :=
  ∀ clause later, clause :: later <:+ program.clauses →
    ∀ child ∈ node.children, child ∈ clause.nodes → node ∈ Node.nodesOf (clause :: later)

theorem IsFirst.eq_signed_iff {condition : Kind → Prop} {kinds : List Kind} {kind : Kind}
    (first : IsFirst condition kinds kind) (others : .signed ∉ kinds) :
    kind = .signed ↔ ∀ other ∈ kinds, ¬ condition other := by
  induction first with
  | here holds =>
      rw [List.mem_cons, not_or] at others
      simpa [holds] using Ne.symm others.1
  | later fails _ ih =>
      rw [List.mem_cons, not_or] at others
      simpa [fails] using ih others.2
  | default => simp

/-! ### Kinds of a side -/

namespace Knowledge

variable {known : Knowledge} {node left right : Node} {names : Names}

theorem kindsPresent_all (htypes : known.typesOf node = .ok .all) :
    known.kindsPresent node = .ok [] := by
  simp [kindsPresent, htypes]

theorem kindsPresent_only (plain : node.IsPlain) (htypes : known.typesOf node = .ok (.only names)) :
    known.kindsPresent node = names.toList.mapM known.context.env.kindOf := by
  have hkinds : known.kindsOf node = known.kindsIn (.only names) :=
    kindsOf_types (fun symbol h => absurd h (plain.notFunctor symbol))
      (fun name h => absurd h (plain.notCall name)) htypes
  simp only [kindsPresent, htypes, hkinds]
  rfl

/-- The kinds of some types are among those of the types above them. -/
theorem mem_kinds_of_above {env : TypeEnv} (acyclic : env.Acyclic) (builtIns : env.HasBuiltIns)
    {lower upper : Names} {kinds others : List Kind}
    (h : lower.toList.mapM env.kindOf = .ok kinds) (h' : upper.toList.mapM env.kindOf = .ok others)
    (above : ∀ low ∈ lower, ∃ high ∈ upper, env.isSubtype low high) {kind : Kind}
    (hkind : kind ∈ kinds) : kind ∈ others := by
  obtain ⟨low, hlow, hof⟩ := (mem_kinds_iff acyclic builtIns h).mp hkind
  obtain ⟨high, hhigh, hsub⟩ := above low hlow
  obtain ⟨found, hmem, hfound⟩ :=
    exists_mem_of_forall₂ (forall₂_of_mapM_ok h') (Names.mem_toList.mpr hhigh)
  rwa [acyclic.kind_eq_of_isSubtype builtIns hsub hof (TypeEnv.isOfKind_of_kindOf hfound)]

/-- Sides that are bound by each other have the same kinds. -/
theorem kindsPresent_agree (acyclic : known.context.env.Acyclic)
    (builtIns : known.context.env.HasBuiltIns) (kinded : known.context.env.Kinded)
    (hleft : left.IsPlain) (hright : right.IsPlain) {types others : TypeSet}
    (htypes : known.typesOf left = .ok types) (hothers : known.typesOf right = .ok others)
    (mutually : types.Mutual known.context.env others) (hknown : types.Known known.context.env)
    (hknown' : others.Known known.context.env) :
    ∃ leftKinds rightKinds, (∀ kind, kind ∈ leftKinds ↔ kind ∈ rightKinds) ∧
      ∀ resolutions, kindsPresent { known with resolutions } left = .ok leftKinds ∧
        kindsPresent { known with resolutions } right = .ok rightKinds := by
  rcases mutually with ⟨rfl, rfl⟩ | ⟨names, names', rfl, rfl, below, above⟩
  · exact ⟨[], [], fun _ => Iff.rfl, fun _ => ⟨kindsPresent_all htypes, kindsPresent_all hothers⟩⟩
  · obtain ⟨leftKinds, hkinds⟩ := kindsIn_eq_ok kinded hknown
    obtain ⟨rightKinds, hkinds'⟩ := kindsIn_eq_ok kinded hknown'
    refine ⟨leftKinds, rightKinds, fun kind => ⟨?_, ?_⟩, fun resolutions => ⟨?_, ?_⟩⟩
    · exact mem_kinds_of_above acyclic builtIns hkinds hkinds' below
    · exact mem_kinds_of_above acyclic builtIns hkinds' hkinds above
    · rw [kindsPresent_only hleft (show typesOf { known with resolutions } left = _ from htypes)]
      exact hkinds
    · rw [kindsPresent_only hright (show typesOf { known with resolutions } right = _ from hothers)]
      exact hkinds'

/-! ### The variant of a comparison -/

/-- Where the sides of a comparison have the same kinds, it gets the variant for the first
kind that either side has. -/
theorem comparison_step {op : ComparisonOp} (compares : node.Compares op left right)
    {leftKinds rightKinds : List Kind} (hleft : known.kindsPresent left = .ok leftKinds)
    (hright : known.kindsPresent right = .ok rightKinds)
    (same : ∀ kind, kind ∈ leftKinds ↔ kind ∈ rightKinds) {variant : ComparisonOp}
    (hvariant : op.convert (firstOr [.float, .unsigned, .symbol] leftKinds.contains) =
      .ok variant) :
    ∃ refined changed, Pass.comparisons.step known node = .ok (refined, changed) ∧
      refined.comparisons.get? node.id = some variant := by
  have both : (fun kind => leftKinds.contains kind && rightKinds.contains kind) =
      leftKinds.contains := by
    funext kind
    rw [Bool.eq_iff_iff, Bool.and_eq_true, List.contains_iff_mem, List.contains_iff_mem, ← same,
      and_self]
  have hchoice : known.choice node .comparisons = .ok (some variant) := by
    simp only [choice, compares.label, comparisonChoice, if_pos compares.overloaded,
      compares.children, hleft, hright, bind, Except.bind, both, hvariant]
    rfl
  have hstep : Pass.comparisons.step known node =
      .ok (known.enter .comparisons node (some variant)) := by
    rw [Pass.step_eq, hchoice]
    rfl
  obtain ⟨value, hvalue, -, entries, -⟩ := Pass.step_eq_ok hstep
  obtain rfl : some variant = value := Except.ok.inj (hchoice.symm.trans hvalue)
  exact ⟨_, _, hstep, (entries node.id).trans (if_pos rfl)⟩

end Knowledge

/-! ### Solved clauses -/

theorem ComparisonOp.not_isSymbolic {op : ComparisonOp} (overloaded : op.isOverloaded) :
    ¬ op.isSymbolic := by
  cases op <;> simp_all [isOverloaded, isSymbolic]

namespace Program

variable {context : Context} {program : Program} {resolutions : Resolutions}
  {solved : List SolvedClause} {node left right : Node}

/-- Where no clauses have nodes in common, every node outlasts its children. -/
theorem outlastsChildren_of_apart (apart : program.ClausesApart)
    (hnode : node ∈ Node.nodesOf program.clauses) : node.OutlastsChildren program := by
  rintro clause later ⟨before, hclauses⟩ child hchild hin
  rw [ClausesApart, ← hclauses] at apart
  rw [← hclauses] at hnode
  obtain ⟨holder, hholder, hnode⟩ := Node.mem_nodesOf.mp hnode
  rcases List.mem_append.mp hholder with hbefore | hfrom
  · have disjoint := (List.pairwise_append.mp apart).2.2 holder hbefore clause List.mem_cons_self
    exact absurd (Node.id_mem_ids hin)
      (disjoint child.id (Node.id_mem_ids (Node.child_mem_nodes hnode hchild)))
  · exact Node.mem_nodesOf.mpr ⟨holder, hfrom, hnode⟩

/-- The last clause with a node that outlasts its children is the last with any of them. -/
theorem exists_last_solved (identified : program.Identified)
    (hsolved : solveClauses context program resolutions program.clauses = (solved, none))
    (hnode : node ∈ Node.nodesOf program.clauses) (outlasts : node.OutlastsChildren program) :
    ∃ before one after, solved = before ++ one :: after ∧ node ∈ one.clause.nodes ∧
      ∀ child ∈ node.children, ∀ later ∈ after, child.id ∉ later.clause.ids := by
  have hclauses := solveClauses_clauses hsolved
  have held : ∃ one ∈ solved, node ∈ one.clause.nodes := by
    rw [← hclauses] at hnode
    obtain ⟨clause, hclause, hin⟩ := Node.mem_nodesOf.mp hnode
    obtain ⟨one, hone, rfl⟩ := List.mem_map.mp hclause
    exact ⟨one, hone, hin⟩
  obtain ⟨before, one, after, rfl, hin, last⟩ := exists_last_of_exists held
  refine ⟨before, one, after, rfl, hin, fun child hchild later hlater hid => ?_⟩
  obtain ⟨other, hother, same⟩ := List.mem_map.mp hid
  obtain rfl := identified other (mem_nodesOf_of_solved hsolved (by simp [hlater]) hother) child
    (mem_nodesOf_of_solved hsolved (by simp) (Node.child_mem_nodes hin hchild)) same
  obtain ⟨between, rest, rfl⟩ := List.append_of_mem hlater
  have suffix : later.clause :: rest.map SolvedClause.clause <:+ program.clauses := by
    refine ⟨(before ++ one :: between).map SolvedClause.clause, ?_⟩
    rw [← hclauses]
    simp
  obtain ⟨clause, hclause, hagain⟩ :=
    Node.mem_nodesOf.mp (outlasts _ _ suffix other hchild hother)
  obtain ⟨final, hfinal, rfl⟩ := List.mem_map.mp
    (show clause ∈ (later :: rest).map SolvedClause.clause from hclause)
  exact last final (List.mem_append_right _ hfinal) hagain

/-- The sides of a comparison have sets of types that are bound by each other. -/
theorem typesOf_compared (hcontext : Context.ofProgram program = .ok context)
    (acyclic : context.env.Acyclic) (identified : program.Identified)
    (hsolved : solveClauses context program resolutions program.clauses = (solved, none))
    (hnode : node ∈ Node.nodesOf program.clauses) (outlasts : node.OutlastsChildren program)
    {op : ComparisonOp} (compares : node.Compares op left right) :
    ∃ types others, (program.knowledge context resolutions).typesOf left = .ok types ∧
      (program.knowledge context resolutions).typesOf right = .ok others ∧
      types.Mutual context.env others ∧ types.Known context.env ∧ others.Known context.env := by
  obtain ⟨before, one, after, rfl, hin, last⟩ :=
    exists_last_solved identified hsolved hnode outlasts
  obtain ⟨clause, -, hsolves⟩ := exists_mem_of_forall₂ (solveClauses_eq_iff.mp hsolved).flip
    (show one ∈ before ++ one :: after by simp)
  obtain ⟨rfl, satisfies⟩ := solveClause_satisfies hcontext acyclic hsolves
  have known := solveClause_known hcontext acyclic hsolves
  have argument : ∀ side ∈ node.children, side.IsPlain → side ∈ one.clause.arguments :=
    fun side hside plain => List.mem_filter.mpr ⟨Node.child_mem_nodes hin hside, plain.isArgument⟩
  have isLeft : left ∈ node.children := by simp [compares.children]
  have isRight : right ∈ node.children := by simp [compares.children]
  have hleft := argument left isLeft compares.left
  have hright := argument right isRight compares.right
  have mutually := satisfies.literalRules.comparisons node hin op left right _ _ compares.label
    (ComparisonOp.not_isSymbolic compares.overloaded) compares.children
    (SolvedClause.mem_entries.mpr ⟨left, hleft, rfl⟩)
    (SolvedClause.mem_entries.mpr ⟨right, hright, rfl⟩)
  exact ⟨_, _, typesOf_last identified hsolved hleft (last left isLeft),
    typesOf_last identified hsolved hright (last right isRight), mutually, known _, known _⟩

end Program

namespace Analysis

variable {context : Context} {program : Program}

/-- What is known after the clauses are solved goes by the resolutions they are solved
with. -/
theorem known_of_solve {analysis after : Analysis} {account : Bool}
    (h : analysis.solve context program account = (after, none)) :
    ∃ solved, solveClauses context program analysis.resolutions program.clauses =
        (solved, none) ∧
      after.known context = program.knowledge context analysis.resolutions := by
  rw [solve_eq] at h
  obtain ⟨rfl, fault⟩ := Prod.mk.inj h
  exact ⟨_, Prod.ext rfl fault, rfl⟩

/-- After the clauses of a program are solved, in whatever round, the sides of a comparison
that outlasts them have the same kinds. The comparison gets the variant for the first of the
other kinds that they have, and that for signed numbers only if they have none of these. -/
theorem compared_kinds_agree (hcontext : Context.ofProgram program = .ok context)
    (acyclic : context.env.Acyclic) (kinded : context.env.Kinded)
    (identified : program.Identified) {analysis after : Analysis} {account : Bool}
    (hsolve : analysis.solve context program account = (after, none)) {node left right : Node}
    (hnode : node ∈ Node.nodesOf program.clauses) (outlasts : node.OutlastsChildren program)
    {op : ComparisonOp} (compares : node.Compares op left right) :
    ∃ leftKinds rightKinds kind variant,
      (after.known context).kindsPresent left = .ok leftKinds ∧
      (after.known context).kindsPresent right = .ok rightKinds ∧
      (∀ kind, kind ∈ leftKinds ↔ kind ∈ rightKinds) ∧
      IsFirst (· ∈ leftKinds) [.float, .unsigned, .symbol] kind ∧
      (kind = .signed ↔ ∀ other ∈ [.float, .unsigned, .symbol],
        other ∉ leftKinds ∧ other ∉ rightKinds) ∧
      op.convert kind = .ok variant ∧
      ∀ resolutions, ∃ refined changed,
        Pass.comparisons.step { after.known context with resolutions } node =
            .ok (refined, changed) ∧
          refined.comparisons.get? node.id = some variant := by
  have builtIns := (Context.wellFormed_of_ofProgram hcontext).builtIns
  obtain ⟨solved, hsolved, hknown⟩ := known_of_solve hsolve
  obtain ⟨types, others, htypes, hothers, mutually, known, known'⟩ :=
    Program.typesOf_compared hcontext acyclic identified hsolved hnode outlasts compares
  obtain ⟨leftKinds, rightKinds, same, present⟩ := Knowledge.kindsPresent_agree acyclic builtIns
    kinded compares.left compares.right htypes hothers mutually known known'
  have first : IsFirst (· ∈ leftKinds) [.float, .unsigned, .symbol]
      (firstOr [.float, .unsigned, .symbol] leftKinds.contains) :=
    isFirst_firstOr (fun kind => List.contains_iff_mem) _
  obtain ⟨variant, hvariant⟩ :=
    ComparisonOp.exists_convert compares.overloaded leftKinds.contains
  refine ⟨leftKinds, rightKinds, _, variant, ?_, ?_, same, first, ?_, hvariant, ?_⟩
  · rw [hknown]
    exact (present _).1
  · rw [hknown]
    exact (present _).2
  · simpa [← same] using first.eq_signed_iff (by decide)
  · intro resolutions
    rw [hknown]
    exact Knowledge.comparison_step compares (present resolutions).1 (present resolutions).2 same
      hvariant

/-- A union of numbers, and the clause `A(x) :- D(x), x < 1, F(y), y != z.` -/
def limitedProgram : Program where
  types := [
    .mk 0 none (.subsetDecl "Id" "number") [],
    .mk 1 none (.subsetDecl "Age" "number") [],
    .mk 2 none (.unionDecl "Num" ["Id", "Age"]) []]
  relations := [
    .mk 3 none (.relationDecl "D") [.mk 4 none (.field "x" "Num") []],
    .mk 5 none (.relationDecl "F") [.mk 6 none (.field "y" "float") []]]
  clauses := [.mk 7 none .clause [
    .mk 8 none (.atom "A") [.mk 9 none (.var "x") []],
    .mk 10 none (.atom "D") [.mk 11 none (.var "x") []],
    .mk 12 none (.comparison .lt) [.mk 13 none (.var "x") [], .mk 14 none (.numeral "1" none) []],
    .mk 15 none (.atom "F") [.mk 16 none (.var "y") []],
    .mk 17 none (.comparison .ne) [.mk 18 none (.var "y") [], .mk 19 none (.var "z") []]]]

def limitedContext : Context where
  env := ⟨TypeEnv.builtIn.entries ++ [("Num", .union ["Id", "Age"]), ("Id", .subset "number"),
    ("Age", .subset "number")]⟩
  owners := []
  signatures := []

/-- The numeral ends up with the union for its type, and `z` with `float`. -/
theorem compared_kinds_agree_limitedProgram :
    Context.ofProgram limitedProgram = .ok limitedContext ∧ limitedContext.env.Acyclic ∧
    limitedContext.env.Kinded ∧
    ∃ after, ({} : Analysis).solve limitedContext limitedProgram false = (after, none) ∧
      (let kindsOf := fun id label =>
        (after.known limitedContext).kindsPresent (.mk id none label [])
      (∃ kinds others, kindsOf 13 (.var "x") = .ok kinds ∧
        kindsOf 14 (.numeral "1" none) = .ok others ∧ ∀ kind, kind ∈ kinds ↔ kind ∈ others) ∧
      (∃ kinds others, kindsOf 18 (.var "y") = .ok kinds ∧
        kindsOf 19 (.var "z") = .ok others ∧ ∀ kind, kind ∈ kinds ↔ kind ∈ others) ∧
      (kindsOf 14 (.numeral "1" none)).toOption = some [.signed] ∧
      (kindsOf 19 (.var "z")).toOption = some [.float]) := by
  have hcontext : Context.ofProgram limitedProgram = .ok limitedContext := by rfl
  have acyclic : limitedContext.env.Acyclic :=
    TypeEnv.acyclic_of_order (limitedContext.env.names.erase "Num" ++ ["Num"]) (by decide)
  have kinded : limitedContext.env.Kinded := TypeEnv.kinded_of_names (by decide +kernel)
  have identified : limitedProgram.Identified := Program.identified_of_nodup (by decide)
  have apart : limitedProgram.ClausesApart := Program.clausesApart_of_nodup (by decide)
  have solves : (({} : Analysis).solve limitedContext limitedProgram false).2 = none := by
    decide +kernel
  have hsolve : ({} : Analysis).solve limitedContext limitedProgram false =
      ((({} : Analysis).solve limitedContext limitedProgram false).1, none) := Prod.ext rfl solves
  have plain : ∀ id, ∀ label ∈ [Label.var "x", .numeral "1" none, .var "y", .var "z"],
      (Node.mk id none label []).IsPlain := by
    intro id label hlabel
    simp only [List.mem_cons, List.not_mem_nil, or_false] at hlabel
    rcases hlabel with rfl | rfl | rfl | rfl <;>
      exact ⟨rfl, by simp [Node.label], by simp [Node.label]⟩
  have less : ∃ node ∈ Node.nodesOf limitedProgram.clauses,
      node.Compares .lt (.mk 13 none (.var "x") []) (.mk 14 none (.numeral "1" none) []) :=
    ⟨.mk 12 none (.comparison .lt) [.mk 13 none (.var "x") [], .mk 14 none (.numeral "1" none) []],
      by simp [limitedProgram, Node.nodesOf, Node.nodes],
      ⟨rfl, rfl, rfl, plain 13 _ (by simp), plain 14 _ (by simp)⟩⟩
  have unequal : ∃ node ∈ Node.nodesOf limitedProgram.clauses,
      node.Compares .ne (.mk 18 none (.var "y") []) (.mk 19 none (.var "z") []) :=
    ⟨.mk 17 none (.comparison .ne) [.mk 18 none (.var "y") [], .mk 19 none (.var "z") []],
      by simp [limitedProgram, Node.nodesOf, Node.nodes],
      ⟨rfl, rfl, rfl, plain 18 _ (by simp), plain 19 _ (by simp)⟩⟩
  refine ⟨hcontext, acyclic, kinded, _, hsolve, ?_, ?_, by decide +kernel, by decide +kernel⟩
  · obtain ⟨node, hnode, compares⟩ := less
    obtain ⟨kinds, others, _, _, hkinds, hothers, same, -⟩ := compared_kinds_agree hcontext acyclic
      kinded identified hsolve hnode (Program.outlastsChildren_of_apart apart hnode) compares
    exact ⟨kinds, others, hkinds, hothers, same⟩
  · obtain ⟨node, hnode, compares⟩ := unequal
    obtain ⟨kinds, others, _, _, hkinds, hothers, same, -⟩ := compared_kinds_agree hcontext acyclic
      kinded identified hsolve hnode (Program.outlastsChildren_of_apart apart hnode) compares
    exact ⟨kinds, others, hkinds, hothers, same⟩

/-- The node for `x` in `x < y`, which occurs in another clause, too. -/
def sharedSide : Node := .mk 10 none (.var "x") []

/-- The comparison `x < y`. -/
def sharingComparison : Node :=
  .mk 9 none (.comparison .lt) [sharedSide, .mk 11 none (.var "y") []]

/-- The clause `A(y) :- n(x), x < y.` -/
def sharingClause : Node :=
  .mk 4 none .clause [
    .mk 5 none (.atom "A") [.mk 6 none (.var "y") []],
    .mk 7 none (.atom "n") [.mk 8 none (.var "x") []],
    sharingComparison]

/-- The clause `f(x).` -/
def sharingFact : Node := .mk 12 none .clause [.mk 13 none (.atom "f") [sharedSide]]

/-- The two clauses, with a relation of numbers and one of floats. -/
def sharingProgram : Program where
  relations := [
    .mk 0 none (.relationDecl "n") [.mk 1 none (.field "a" "number") []],
    .mk 2 none (.relationDecl "f") [.mk 3 none (.field "a" "float") []]]
  clauses := [sharingClause, sharingFact]

theorem sharingProgram_identified : sharingProgram.Identified := by
  -- without its last node the fact has no node of the other clause
  have distinct : ((sharingClause.nodes ++ sharingFact.nodes.dropLast).map Node.id).Nodup := by
    decide
  have covers : ∀ node ∈ Node.nodesOf sharingProgram.clauses,
      node ∈ sharingClause.nodes ++ sharingFact.nodes.dropLast := by
    simp [sharingProgram, sharingClause, sharingFact, sharingComparison, sharedSide,
      Node.nodesOf, Node.nodes]
  exact fun node hnode other hother =>
    List.inj_on_of_nodup_map distinct (covers node hnode) (covers other hother)

/-- The fact is solved after the clause with the comparison, and the table has for `x` what
the fact says about it. So the sides differ, and the comparison gets the variant for signed
numbers although `x` is a float. -/
theorem sharedSide_kinds_differ :
    Context.ofProgram sharingProgram = .ok bareContext ∧ bareContext.env.Acyclic ∧
    bareContext.env.Kinded ∧ sharingProgram.Identified ∧
    sharingComparison ∈ Node.nodesOf sharingProgram.clauses ∧
    sharingComparison.Compares .lt sharedSide (.mk 11 none (.var "y") []) ∧
    ∃ after, ({} : Analysis).solve bareContext sharingProgram false = (after, none) ∧
      (after.known bareContext).kindsPresent sharedSide = .ok [.float] ∧
      (after.known bareContext).kindsPresent (.mk 11 none (.var "y") []) = .ok [.signed] ∧
      ((Pass.comparisons.step (after.known bareContext) sharingComparison).toOption.bind
        fun result => result.1.comparisons.get? sharingComparison.id) = some .lt := by
  have solves : (({} : Analysis).solve bareContext sharingProgram false).2 = none := by
    decide +kernel
  have plain : ∀ id name, (Node.mk id none (.var name) []).IsPlain :=
    fun id name => ⟨rfl, by simp [Node.label], by simp [Node.label]⟩
  have hnode : sharingComparison ∈ Node.nodesOf sharingProgram.clauses := by
    simp [sharingProgram, sharingClause, sharingComparison, Node.nodesOf, Node.nodes]
  exact ⟨by rfl, TypeEnv.acyclic_of_ordered (by decide),
    TypeEnv.kinded_of_names (by decide +kernel), sharingProgram_identified, hnode,
    ⟨rfl, rfl, rfl, plain _ _, plain _ _⟩, _, Prod.ext rfl solves, by decide +kernel,
    by decide +kernel, by decide +kernel⟩

end Analysis

end DatalogTyping

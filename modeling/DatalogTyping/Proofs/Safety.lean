import DatalogTyping.Proofs.Accounts
import DatalogTyping.Proofs.FunctorFree
import DatalogTyping.Proofs.Questions

/-!
# Safety of the analysis

What is asked of a program for its analysis not to trip over itself is stated in
`Program.Orderly`: names are declared once, unions have kinds, and its nodes are as they
should be. Then in whatever state a round starts that rounds can lead to
(`Program.Reached`), all questions it asks have answers (`Program.Answers`), and it is
completed if solving the clauses comes to an end. So the analysis returns, with an
account if one is wanted, or reports that it did not settle (`analyse_faultless`).

The invariants come from all over: declarations decide that the owner of a branch has
it; kinds of unions, that every type has a kind; the table of overloads, that what is
recorded for a functor can be applied, since it fitted when it was chosen.
-/

namespace DatalogTyping

/-! ### Declarations -/

/-- If names are declared once, all declarations count. -/
theorem TypeDecl.first?_eq_self {decls : List TypeDecl} (names : (decls.map TypeDecl.name).Nodup)
    (fresh : ∀ decl ∈ decls, TypeEnv.builtIn.isType decl.name = false) {decl : TypeDecl}
    (hdecl : decl ∈ decls) : TypeDecl.first? decls decl.name = some decl := by
  rw [TypeDecl.first?, fresh decl hdecl]
  exact (TypeDecl.find?_eq_some_iff names).mpr ⟨hdecl, rfl⟩

/-! ### Constraints -/

section Constraints

variable {context : Context} {program : Program} {resolutions : Resolutions} {node : Node}
  {constraints : List Constraint}

theorem functorConstraints_fromTable (symbol : String) (arguments : List Node) :
    ∀ constraint ∈ functorConstraints resolutions node symbol arguments, constraint.FromTable := by
  intro constraint h
  have ofBounds : ∀ {argument kind}, constraint ∈ boundKind argument kind →
      constraint.FromTable := by
    intro argument kind h
    obtain ⟨var, bound, rfl⟩ := bounds_of_boundKind constraint h
    trivial
  have pending : ∀ {result args subtypeResult},
      (Constraint.anyOverload symbol result args subtypeResult).FromTable := fun choice hchoice =>
    (Overload.mem_ofSymbol.mp hchoice).1
  unfold functorConstraints at h
  cases hresolved : resolutions.functors.get? node.id with
  | none =>
      simp only [hresolved] at h
      split at h
      · rcases List.mem_append.mp h with h | h
        · exact List.mem_singleton.mp h ▸ pending
        · obtain ⟨argument, -, rfl⟩ := List.mem_map.mp h
          trivial
      · exact List.mem_singleton.mp h ▸ pending
  | some overload =>
      simp only [hresolved, List.nil_append] at h
      split at h
      · obtain ⟨argument, -, rfl⟩ := List.mem_map.mp h
        trivial
      · rcases List.mem_append.mp h with h | h
        · exact ofBounds h
        · split at h
          · cases h
          · obtain ⟨⟨argument, index⟩, -, h⟩ := List.mem_flatMap.mp h
            dsimp only at h
            split at h
            · exact ofBounds h
            · cases h

/-- The overloads in the constraints of a node are from the table. -/
theorem nodeConstraints_fromTable {negated : List NodeId}
    (h : nodeConstraints context program resolutions negated node = .ok constraints) :
    ∀ constraint ∈ constraints, constraint.FromTable := by
  by_cases functor : ∃ symbol, node.label = .functor symbol
  · obtain ⟨symbol, hlabel⟩ := functor
    simp only [nodeConstraints, hlabel] at h
    obtain rfl := Except.ok.inj h
    exact functorConstraints_fromTable symbol node.children
  · intro constraint hconstraint
    have mirrored := (nodeConstraints_plain (fun symbol hlabel => functor ⟨symbol, hlabel⟩) h
      constraint hconstraint).2
    cases constraint with
    | overload => exact mirrored.elim
    | _ => trivial

theorem clauseProblem_fromTable {clause : Node} {problem : Problem}
    (h : clauseProblem context program resolutions clause = .ok problem) :
    ∀ constraint ∈ problem.constraints, constraint.FromTable := by
  intro constraint hconstraint
  rcases exists_visit_of_posed h constraint hconstraint with
    hstart | ⟨visit, -, constraints, hconstraints, hmem⟩
  · cases hstart
  · exact nodeConstraints_fromTable hconstraints constraint hmem

end Constraints

/-! ### Orderly programs -/

namespace Program

/-- What is asked of a program for its analysis not to trip over itself. -/
structure Orderly (context : Context) (program : Program) : Prop where
  declared : Context.ofProgram program = .ok context
  /-- No two types are declared under one name. -/
  names : (program.typeDecls.map TypeDecl.name).Nodup
  named : ∀ decl ∈ program.typeDecls, decl.name ≠ ""
  /-- No type is declared under the name of a built-in one. -/
  fresh : ∀ decl ∈ program.typeDecls, TypeEnv.builtIn.isType decl.name = false
  acyclic : context.env.Acyclic
  unions : context.env.UnionsShareKinds
  /-- A node may occur more than once, but no two nodes have one identity. -/
  identified : program.Identified
  /-- Functors and comparisons apply to arguments, and no clause holds a declaration. -/
  shaped : ∀ node ∈ Node.nodesOf program.clauses, node.IsShaped
  /-- An aggregate that has variants has a target. -/
  targets : ∀ node ∈ Node.nodesOf program.clauses, ∀ op targeted,
    node.label = .aggregate op targeted → op.isOverloaded →
      ∃ target, node.target? = some target ∧ target.isArgument

/-- Some number of rounds leads to the resolutions. -/
def Reached (context : Context) (program : Program) (resolutions : Resolutions) : Prop :=
  ∃ count, program.resolvedAfter? context {} count = some resolutions

/-- All questions that a round asks have answers: the overloads that are recorded can be
applied, every clause poses a problem, and those of the solver have answers. -/
structure Answers (context : Context) (program : Program) (resolutions : Resolutions) : Prop where
  overloads : resolutions.AllRecorded program fun node _ overload =>
    overload.Applicable node.children.length
  clauses : ∀ clause ∈ program.clauses, ∃ problem,
    clauseProblem context program resolutions clause = .ok problem ∧ problem.Answers context.env

variable {context : Context} {program : Program} {resolutions after : Resolutions} {changed : Bool}

theorem Reached.round (reached : program.Reached context resolutions)
    (h : program.round? context resolutions = some (after, changed)) :
    program.Reached context after := by
  obtain ⟨count, hcount⟩ := reached
  exact ⟨count + 1, by rw [resolvedAfter?_succ hcount, h]; rfl⟩

theorem Reached.lawful (reached : program.Reached context resolutions)
    (identified : program.Identified) : resolutions.Lawful program := by
  obtain ⟨count, hcount⟩ := reached
  refine resolvedAfter?_preserves (fun hnode hstep lawful other hother => ?_) hcount
    (Resolutions.lawful_empty program)
  exact (lawful other hother).step hstep (identified other hother _ hnode)

namespace Orderly

variable (orderly : program.Orderly context)

include orderly

theorem wellFormed : context.env.WellFormed := Context.wellFormed_of_ofProgram orderly.declared

theorem kinded : context.env.Kinded := orderly.wellFormed.kinded orderly.acyclic orderly.unions

theorem realises : context.env.Realises program.typeDecls :=
  Context.realises_of_ofProgram orderly.declared

theorem wellShaped : program.WellShaped context where
  identified := orderly.identified
  shaped := orderly.shaped
  targets := orderly.targets
  branches := fun _ _ branch owner _ howner =>
    Context.branchOwned_of_counts orderly.declared
      (fun _ _ hdecl => TypeDecl.first?_eq_self orderly.names orderly.fresh hdecl)
      branch owner howner

/-- All questions that a round asks have answers. -/
theorem answers (reached : program.Reached context resolutions) :
    program.Answers context resolutions where
  overloads := by
    intro node hnode symbol overload hlabel hrecorded
    obtain ⟨count, hcount⟩ := reached
    have hmem := goBySymbol_of_resolvedAfter? orderly.identified hcount node hnode symbol overload
      hlabel hrecorded
    have accepts := acceptsArity_of_resolvedAfter? orderly.identified hcount node hnode symbol
      overload hlabel hrecorded
    exact Overload.applicable_of_mem_table (Overload.mem_ofSymbol.mp hmem).1 accepts
  clauses := by
    intro clause hclause
    obtain ⟨problem, hproblem⟩ := clauseProblem_eq_ok orderly.wellShaped resolutions hclause
    have posed := clauseProblem_wellPosed orderly.declared hproblem
    exact ⟨problem, hproblem, posed.answers orderly.acyclic orderly.wellFormed
      (orderly.realises.not_isType_noType orderly.named) (clauseProblem_fromTable hproblem)⟩

/-- A round is completed if solving the clauses comes to an end. -/
theorem round?_eq_some (reached : program.Reached context resolutions)
    (stops : program.Stops context resolutions) :
    ∃ solved after changed,
      solveClauses context program resolutions program.clauses = (solved, none) ∧
      program.round? context resolutions = some (after, changed) := by
  obtain ⟨solved, hsolved, -⟩ := solveClauses_eq_ok orderly.declared orderly.acyclic
    orderly.wellShaped stops fun _ hclause => hclause
  obtain ⟨after, changed, hrefined, -⟩ := refined_eq_ok orderly.declared orderly.acyclic
    orderly.kinded orderly.wellShaped stops (reached.lawful orderly.identified)
  exact ⟨solved, after, changed, hsolved, Program.round?_eq_some.mpr ⟨solved, hsolved, hrefined⟩⟩

variable (stops : ∀ resolutions, program.Reached context resolutions →
  program.Stops context resolutions)

include stops

/-- A run returns, or else its rounds are used up. -/
theorem runFrom_fault (account : Bool) (limit remaining done : Nat) {analysis : Analysis}
    (reached : program.Reached context analysis.resolutions) :
    (Analysis.runFrom context program account limit remaining done analysis).fault = none ∨
      (Analysis.runFrom context program account limit remaining done analysis).fault =
        some (.unsettled limit) := by
  induction remaining generalizing done analysis with
  | zero => exact .inr rfl
  | succ remaining ih =>
      obtain ⟨solved, after, changed, hsolved, hround⟩ :=
        orderly.round?_eq_some reached (stops _ reached)
      have hcompleted : Analysis.round { analysis with iterations := done + 1 } context program
          account = _ := Analysis.round_of_round? hsolved hround
      rw [Analysis.runFrom, hcompleted]
      dsimp only
      split
      · exact ih (done + 1) (reached.round hround)
      · exact .inl rfl

end Orderly

end Program

/-! ### Sessions -/

namespace SessionM

open Session

/-- The analysis of an orderly program does not trip over itself. In whatever state a
round starts that rounds can lead to, all questions it asks have answers, and it is
completed if solving the clauses comes to an end. So if that is always so, to analyse a
session with the program either returns, its account shown if it is wanted, or reports
that the resolutions did not settle within the rounds allowed. -/
theorem analyse_faultless {context : Context} {program : Program}
    (orderly : program.Orderly context) :
    (∀ resolutions, program.Reached context resolutions →
      program.Answers context resolutions ∧
      (program.Stops context resolutions →
        ∃ after changed, program.round? context resolutions = some (after, changed))) ∧
    ((∀ resolutions, program.Reached context resolutions → program.Stops context resolutions) →
      ∀ session : Session, session.program = program → session.context = context →
        program.Reached context session.analysis.resolutions →
        ((begun session).fault = none ∧
          ∃ after, analyse session = (.ok (begun session).analysis.iterations, after)) ∨
        ((begun session).fault = some (.unsettled session.options.maxIterations) ∧
          analyse session =
            (.error (.unsettled session.options.maxIterations), concluded session))) := by
  refine ⟨fun resolutions reached => ⟨orderly.answers reached, fun stops => ?_⟩, ?_⟩
  · obtain ⟨-, after, changed, -, hround⟩ := orderly.round?_eq_some reached stops
    exact ⟨after, changed, hround⟩
  · intro stops session hprogram hcontext reached
    subst hprogram hcontext
    have outcome : (begun session).fault = none ∨
        (begun session).fault = some (.unsettled session.options.maxIterations) :=
      orderly.runFrom_fault stops _ _ _ 0 reached
    rcases outcome with returns | unsettled
    · obtain ⟨out, hanalyse⟩ := analyse_eq_ok returns (canRecount returns)
      exact .inl ⟨returns, _, hanalyse⟩
    · refine .inr ⟨unsettled, ?_⟩
      rw [analyse_eq, unsettled]
      rfl

/-- A union, a sum type with a branch for its values, and the clause
`A($B(x)) :- D(x), (y+1) < sum z : { E(z) }.` -/
def unitedProgram : Program where
  types := [
    .mk 0 none (.subsetDecl "Id" "number") [],
    .mk 1 none (.subsetDecl "Age" "number") [],
    .mk 2 none (.unionDecl "Num" ["Id", "Age"]) [],
    .mk 3 none (.adtDecl "T") [.mk 4 none (.branchDecl "B") [.mk 5 none (.field "x" "Num") []]]]
  relations := [.mk 6 none (.relationDecl "D") [.mk 7 none (.field "x" "Num") []]]
  clauses := [.mk 8 none .clause [
    .mk 9 none (.atom "A") [.mk 10 none (.branch "B") [.mk 11 none (.var "x") []]],
    .mk 12 none (.atom "D") [.mk 13 none (.var "x") []],
    .mk 14 none (.comparison .lt) [
      .mk 15 none (.functor "+") [.mk 16 none (.var "y") [], .mk 17 none (.numeral "1" none) []],
      .mk 18 none (.aggregate .sum true) [.mk 19 none (.var "z") [],
        .mk 20 none (.atom "E") [.mk 21 none (.var "z") []]]]]]

def unitedContext : Context where
  env := ⟨TypeEnv.builtIn.entries ++ [("Num", .union ["Id", "Age"]),
    ("T", .adt [{ name := "B", types := ["Num"] }]), ("Id", .subset "number"),
    ("Age", .subset "number")]⟩
  owners := [("B", "T")]
  signatures := []

def unitedSession : Session where
  program := unitedProgram
  context := unitedContext
  options := { shows := [some "type-analysis"] }
  report := {}
  files := {}
  next := 22

theorem unitedProgram_orderly : unitedProgram.Orderly unitedContext where
  declared := by rfl
  names := by decide
  named := by decide
  fresh := by decide
  acyclic := TypeEnv.acyclic_of_order (unitedContext.env.names.erase "Num" ++ ["Num"]) (by decide)
  unions := TypeEnv.unionsShareKinds_of_names (by decide)
  identified := Program.identified_of_nodup (by decide)
  shaped := by
    simp [unitedProgram, Node.nodesOf, Node.nodes, Node.IsShaped, Node.label, Node.children,
      Node.isArgument, Label.isArgument]
  targets := by
    simp [unitedProgram, Node.nodesOf, Node.nodes, Node.label, Node.target?, Node.children,
      Node.isArgument, Label.isArgument]

/-- There are no records, so the clause can always be solved. The analysis returns after
three rounds, and its account is shown. -/
theorem analyse_faultless_unitedSession :
    (begun unitedSession).fault = none ∧
    (∃ after, analyse unitedSession = (.ok 3, after)) ∧
    ∃ after changed, unitedProgram.round? unitedContext {} = some (after, changed) := by
  have start : unitedProgram.Reached unitedContext {} := ⟨0, rfl⟩
  have flat : unitedContext.env.NothingBelowRecords :=
    TypeEnv.nothingBelowRecords_of_names (by decide)
  have stops : ∀ resolutions, unitedProgram.Reached unitedContext resolutions →
      unitedProgram.Stops unitedContext resolutions := by
    intro resolutions _ clause _ problem hproblem
    have posed := clauseProblem_wellPosed unitedProgram_orderly.declared hproblem
    exact posed.stops_of_nothingBelowRecords unitedProgram_orderly.acyclic
      unitedProgram_orderly.wellFormed flat
  obtain ⟨rounds, sessions⟩ := analyse_faultless unitedProgram_orderly
  have returns : (begun unitedSession).fault = none ∧
      (begun unitedSession).analysis.iterations = 3 := by decide +kernel
  refine ⟨returns.1, ?_, (rounds {} start).2 (stops {} start)⟩
  rcases sessions stops unitedSession rfl rfl start with ⟨-, analysed⟩ | ⟨unsettled, -⟩
  · rwa [returns.2] at analysed
  · cases returns.1.symm.trans unsettled

end SessionM

end DatalogTyping

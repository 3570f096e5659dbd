import DatalogTyping.Proofs.BranchOwners
import DatalogTyping.Proofs.Completeness
import DatalogTyping.Proofs.TypingRules

/-!
# Record constructors and defective records

A record one of whose fields has a type that does not exist is defective. Building the
environment leaves it without fields (`Realises.recordFields?_eq_some_iff`), and nothing tells
it from a record that is declared without fields. So a constructor with arguments never has a
defective record among its types, but a constructor without arguments has all of them unless
something else speaks against it (`Context.record_constructors`).

That a constructor has only records with as many fields as it has arguments is so in any
environment, as the constraint that says so does not ask what is below what
(`Problem.consists_of_recordOf`). For the other part there is a clause whose only constraint
is that of a constructor without arguments (`solveClause_emptyFact`).
-/

namespace DatalogTyping

/-! ### Declared records -/

namespace TypeEnv

variable {env : TypeEnv} {decls : List TypeDecl} {name : String} {fields : List String}

/-- The type is a record, seen through aliases, and the declaration that counts for it has
these types for its fields. -/
def IsRecordWith (env : TypeEnv) (decls : List TypeDecl) (name : String) (fields : List String) :
    Prop :=
  ∃ root, env.StandsFor name root ∧ TypeDecl.first? decls root = some (.record root fields)

/-- The type is a record, and one of its fields has a type that does not exist. -/
def IsDefective (env : TypeEnv) (decls : List TypeDecl) (name : String) : Prop :=
  ∃ fields, env.IsRecordWith decls name fields ∧ ∃ field ∈ fields, env.isType field = false

theorem Realises.find?_record (realises : env.Realises decls)
    (hfirst : TypeDecl.first? decls name = some (.record name fields)) :
    env.find? name = some (.record (TypeDecl.fieldsAmong env.isType fields)) :=
  realises.find?_eq hfirst ((realises.isType_iff name).mpr (.composite hfirst rfl))

theorem Realises.first?_of_record (realises : env.Realises decls)
    (hfind : env.find? name = some (.record fields)) :
    ∃ declared, TypeDecl.first? decls name = some (.record name declared) ∧
      fields = TypeDecl.fieldsAmong env.isType declared := by
  have htype : env.isType name := by simp [isType, hfind]
  have derived : ¬ builtIn.isType name := by
    intro hbuiltIn
    obtain ⟨definition, hdefinition, plain⟩ := realises.find?_builtIn hbuiltIn
    rw [Option.some.inj (hdefinition.symm.trans hfind)] at plain
    cases plain
  obtain ⟨decl, hfirst⟩ := realises.exists_first? htype derived
  have hdecl := hfind.symm.trans (realises.find?_eq hfirst htype)
  have hname := TypeDecl.name_of_first? hfirst
  cases decl with
  | record own declared =>
      obtain rfl : own = name := hname
      exact ⟨declared, hfirst, by simpa [TypeDecl.definition] using hdecl⟩
  | _ => simp [TypeDecl.definition] at hdecl

/-- A record has the fields it was declared with, or none if it is defective. -/
theorem Realises.recordFields?_eq_some_iff (realises : env.Realises decls) :
    env.recordFields? name = some fields ↔
      ∃ declared, env.IsRecordWith decls name declared ∧
        fields = TypeDecl.fieldsAmong env.isType declared := by
  rw [recordFields?_eq_some]
  constructor
  · rintro ⟨root, path, hfind⟩
    obtain ⟨declared, hfirst, rfl⟩ := realises.first?_of_record hfind
    exact ⟨declared, ⟨root, path, hfirst⟩, rfl⟩
  · rintro ⟨declared, ⟨root, path, hfirst⟩, rfl⟩
    exact ⟨root, path, realises.find?_record hfirst⟩

theorem Realises.recordFields?_of_defective (realises : env.Realises decls)
    (defective : env.IsDefective decls name) : env.recordFields? name = some [] := by
  obtain ⟨declared, hrecord, field, hfield, missing⟩ := defective
  have some : ¬ declared.all env.isType := by
    rw [List.all_eq_true]
    exact fun all => Bool.false_ne_true (missing.symm.trans (all field hfield))
  exact realises.recordFields?_eq_some_iff.mpr ⟨declared, hrecord, (if_neg some).symm⟩

theorem Realises.isRecordWith_of_sound (realises : env.Realises decls)
    (sound : ¬ env.IsDefective decls name) (h : env.recordFields? name = some fields) :
    env.IsRecordWith decls name fields := by
  obtain ⟨declared, hrecord, rfl⟩ := realises.recordFields?_eq_some_iff.mp h
  have all : declared.all env.isType := by
    rw [List.all_eq_true]
    intro field hfield
    by_contra missing
    exact sound ⟨declared, hrecord, field, hfield, Bool.eq_false_iff.mpr missing⟩
  rwa [TypeDecl.fieldsAmong, if_pos all]

end TypeEnv

/-! ### Constructors have as many arguments as there are fields -/

/-- What a solution says about a constructor are records with the right number of fields. -/
theorem Problem.consists_of_recordOf {env : TypeEnv} {problem : Problem} {solution : Round}
    (h : problem.solve env = .ok solution) {var : TypeVar} {arity : Int} {candidates : TypeSet}
    (finite : candidates ≠ .all) (hmem : .recordOf var arity candidates ∈ problem.constraints) :
    (solution.assignment var).Consists fun name => env.isRecordOf arity name := by
  obtain ⟨current, evolves, unchanged⟩ := exists_unchanged_of_solve h hmem
  cases evolves
  simp only [Constraint.update_recordOf, decide_eq_false_iff_not, not_not] at unchanged
  exact Constraint.consists_of_filter (Constraint.filter_ne_all finite) unchanged

theorem SolvedClause.consists_of_record {context : Context} {program : Program}
    {resolutions : Resolutions} {clause : Node} {solved : SolvedClause}
    (h : solveClause context program resolutions clause = .ok solved) {node : Node}
    {types : TypeSet} (hassigns : solved.typing.Assigns node types)
    (hlabel : node.label = .record) :
    types.Consists fun name => context.env.isRecordOf node.children.length name := by
  obtain ⟨hnode, rfl⟩ := SolvedClause.of_assigns hassigns
  obtain ⟨rfl, hsolution, poses⟩ := solveClause_poses h
  obtain ⟨visit, hvisit, rfl⟩ := Node.exists_visit hnode
  obtain ⟨constraints, hconstraints, posed⟩ := poses visit hvisit
  simp only [nodeConstraints, hlabel, Except.ok.injEq] at hconstraints
  rw [← hconstraints, recordConstraints] at posed
  exact Problem.consists_of_recordOf hsolution (known_recordTypes context.env).1
    (posed _ List.mem_cons_self)

/-! ### A constructor and nothing else -/

theorem round_recordOf (env : TypeEnv) (A : Assignment) (var : TypeVar) (arity : Int)
    (candidates : TypeSet) :
    let types := (A var).filter (env.isRecordOf arity)
      (candidates.filter (env.isRecordOf arity) .all)
    round env [.recordOf var arity candidates] A =
      .ok ⟨[.recordOf var arity candidates], A.set var types, decide (A var ≠ types)⟩ := by
  simp [round, Constraint.fault?, Constraint.update_recordOf]

/-- A constructor that is all there is to go by has all records with the right number of
fields. -/
theorem Problem.solve_recordOf (env : TypeEnv) {problem : Problem} {var : TypeVar} {arity : Int}
    {candidates : Names}
    (h : problem.constraints = [.recordOf var arity (.only candidates)]) :
    ∃ solution, problem.solve env = .ok solution ∧
      solution.assignment var = .only (candidates.filter (env.isRecordOf arity)) := by
  obtain ⟨more, hmore⟩ : ∃ more, problem.stateBound env = more + 1 := by
    refine Nat.exists_eq_succ_of_ne_zero (Nat.pos_iff_ne_zero.mp ?_)
    simp [stateBound, h, memories, Nat.pow_eq]
  have found : (candidates.filter (env.isRecordOf arity)).filter (env.isRecordOf arity) =
      candidates.filter (env.isRecordOf arity) :=
    Names.filter_eq_self.mpr fun name hname => (Names.mem_filter.mp hname).2
  -- the first round finds the records, the second leaves them as they are
  refine ⟨⟨[.recordOf var arity (.only candidates)],
    Assignment.start.set var (.only (candidates.filter (env.isRecordOf arity))), false⟩, ?_,
    by simp⟩
  rw [solve, h, hmore, settle, round_recordOf]
  simp only [Assignment.start, TypeSet.filter, ne_eq, reduceCtorEq, not_false_eq_true, decide_true,
    ↓reduceIte]
  rw [settle, round_recordOf]
  simp [TypeSet.filter, found]

/-- The constructor `[]`. -/
def emptyConstructor : Node := .mk 2 none .record []

/-- The clause `A([]).`, or one with further arguments. -/
def emptyFact (others : List Node) : Node :=
  .mk 0 none .clause [.mk 1 none (.atom "A") (emptyConstructor :: others)]

theorem emptyConstructor_mem_arguments (others : List Node) :
    emptyConstructor ∈ (emptyFact others).arguments := by
  refine List.mem_filter.mpr ⟨?_, rfl⟩
  exact Node.mem_nodes_of_child List.mem_cons_self
    (Node.mem_nodes_of_child List.mem_cons_self emptyConstructor.mem_nodes_self)

section EmptyFact

variable (context : Context) (program : Program) (resolutions : Resolutions)

/-- With one argument or with two, the fact does not match the declaration of its relation. -/
theorem exists_unbound_emptyFact :
    ∃ others, (others = [] ∨ others = [.mk 3 none .wildcard []]) ∧ ∀ negated,
      atomConstraints context program negated "A" (emptyConstructor :: others) = [] := by
  by_cases one : ∃ relation, program.relation? "A" = some relation ∧ relation.children.length = 1
  · obtain ⟨relation, hrelation, hlength⟩ := one
    exact ⟨_, .inr rfl, by simp [atomConstraints, hrelation, hlength]⟩
  · refine ⟨_, .inl rfl, ?_⟩
    cases hrelation : program.relation? "A" with
    | none => simp [atomConstraints, hrelation]
    | some relation =>
        have hlength : relation.children.length ≠ 1 := fun h => one ⟨relation, hrelation, h⟩
        simp [atomConstraints, hrelation, hlength]

/-- The constraints of the nodes, one after another, are those of the problem they pose. -/
theorem visitsProblem_of_forall₂ {visits : List NodeVisit} {lists : List (List Constraint)}
    (h : List.Forall₂ (fun visit constraints =>
      nodeConstraints context program resolutions visit.negated visit.node = .ok constraints)
      visits lists) (start : Problem) :
    ∃ problem, visitsProblem context program resolutions visits start = .ok problem ∧
      problem.constraints = start.constraints ++ lists.flatten := by
  induction h generalizing start with
  | nil => exact ⟨start, rfl, by simp⟩
  | @cons visit constraints _ _ hvisit _ ih =>
      obtain ⟨problem, hproblem, hconstraints⟩ := ih (start.addNode visit.node constraints)
      refine ⟨problem, by simp only [visitsProblem, hvisit, hproblem], ?_⟩
      rw [hconstraints, Problem.constraints_addNode, List.append_assoc, List.flatten_cons]

/-- The constructor `[]` can have any record without fields. -/
theorem solveClause_emptyFact :
    ∃ others, ∀ resolutions, ∃ solved types,
      solveClause context program resolutions (emptyFact others) = .ok solved ∧
        solved.typing.Assigns emptyConstructor types ∧
        ∀ name, context.env.recordFields? name = some [] → name ∈ types := by
  obtain ⟨others, shape, unbound⟩ := exists_unbound_emptyFact context program
  refine ⟨others, fun resolutions => ?_⟩
  have posed : ∃ lists, List.Forall₂ (fun visit constraints =>
      nodeConstraints context program resolutions visit.negated visit.node =
        .ok constraints) (emptyFact others).visits lists ∧
      lists.flatten = [.recordOf emptyConstructor.typeVar 0 context.env.recordTypes] := by
    have atom : nodeConstraints context program resolutions []
        (.mk 1 none (.atom "A") (emptyConstructor :: others)) = .ok [] :=
      congrArg Except.ok (unbound _)
    rcases shape with rfl | rfl
    · exact ⟨_, .cons rfl (.cons atom (.cons rfl .nil)), rfl⟩
    · exact ⟨_, .cons rfl (.cons atom (.cons rfl (.cons rfl .nil))), rfl⟩
  obtain ⟨lists, posed, hlists⟩ := posed
  obtain ⟨problem, hproblem, hconstraints⟩ :=
    visitsProblem_of_forall₂ context program resolutions posed {}
  obtain ⟨solution, hsolution, htypes⟩ :=
    Problem.solve_recordOf context.env (hconstraints.trans hlists)
  have hsolved : solveClause context program resolutions (emptyFact others) =
      .ok ⟨emptyFact others, problem, solution⟩ := by
    simp only [solveClause, clauseProblem, hproblem, hsolution]
  refine ⟨_, _, hsolved, SolvedClause.mem_entries.mpr
    ⟨_, emptyConstructor_mem_arguments others, rfl⟩, fun name hfields => ?_⟩
  have fits : context.env.isRecordOf 0 name := TypeEnv.isRecordOf_iff.mpr ⟨[], hfields, rfl⟩
  rw [htypes, TypeSet.mem_only, Names.mem_filter]
  exact ⟨TypeSet.mem_only.mp (TypeEnv.mem_recordTypes_iff.mpr ⟨[], hfields⟩), fits⟩

end EmptyFact

namespace Context

variable {context : Context} {program : Program}

/-- All types of a record constructor are declared records. A defective record is among them
only if the constructor has no arguments, any other record only if it has as many fields as
there are arguments. And there is a clause with a constructor without arguments that has all
defective records among its types, whatever has been resolved. -/
theorem record_constructors (hcontext : Context.ofProgram program = .ok context) :
    (∀ clause resolutions solved, solveClause context program resolutions clause = .ok solved →
      ∀ node types, solved.typing.Assigns node types → node.label = .record →
        types.Consists fun name => ∃ fields,
          context.env.IsRecordWith program.typeDecls name fields ∧
          (context.env.IsDefective program.typeDecls name → node.children = []) ∧
          (¬ context.env.IsDefective program.typeDecls name →
            node.children.length = fields.length)) ∧
    ∃ clause node, node.label = .record ∧ node.children = [] ∧
      ∀ resolutions, ∃ solved types,
        solveClause context program resolutions clause = .ok solved ∧
        solved.typing.Assigns node types ∧
        ∀ name, context.env.IsDefective program.typeDecls name → name ∈ types := by
  have realises := realises_of_ofProgram hcontext
  refine ⟨fun clause resolutions solved hsolved node types hassigns hlabel => ?_, ?_⟩
  · obtain ⟨names, rfl, each⟩ := SolvedClause.consists_of_record hsolved hassigns hlabel
    refine ⟨names, rfl, fun name hname => ?_⟩
    obtain ⟨fields, hfields, harity⟩ := TypeEnv.isRecordOf_iff.mp (each name hname)
    have harity : node.children.length = fields.length := (Int.ofNat_inj.mp harity).symm
    by_cases defective : context.env.IsDefective program.typeDecls name
    · obtain ⟨declared, hrecord, -⟩ := id defective
      have none := realises.recordFields?_of_defective defective
      obtain rfl : [] = fields := Option.some.inj (none.symm.trans hfields)
      exact ⟨declared, hrecord, fun _ => List.length_eq_zero_iff.mp harity,
        fun sound => absurd defective sound⟩
    · exact ⟨fields, realises.isRecordWith_of_sound defective hfields,
        fun h => absurd h defective, fun _ => harity⟩
  · obtain ⟨others, solves⟩ := solveClause_emptyFact context program
    refine ⟨emptyFact others, emptyConstructor, rfl, rfl, fun resolutions => ?_⟩
    obtain ⟨solved, types, hsolved, hassigns, hollow⟩ := solves resolutions
    exact ⟨solved, types, hsolved, hassigns, fun name defective =>
      hollow name (realises.recordFields?_of_defective defective)⟩

/-- A record `R` with a field of a type that does not exist, an alias `Q` of it, and a record
`P` with a field for a number. -/
def partsProgram : Program where
  types := [
    .mk 10 none (.recordDecl "R") [.mk 11 none (.field "a" "missing") []],
    .mk 12 none (.aliasDecl "Q" "R") [],
    .mk 13 none (.recordDecl "P") [.mk 14 none (.field "x" "number") []]]

def partsContext : Context where
  env := ⟨TypeEnv.builtIn.entries ++ [("R", .record []), ("P", .record ["number"]),
    ("Q", .synonym "R")]⟩
  owners := []
  signatures := []

/-- The clause `A([_]).` -/
def singleFact : Node :=
  .mk 0 none .clause [.mk 1 none (.atom "A") [.mk 2 none .record [.mk 3 none .wildcard []]]]

theorem partsProgram_defective {name : String} (h : partsContext.env.StandsFor name "R") :
    partsContext.env.IsDefective partsProgram.typeDecls name :=
  ⟨["missing"], ⟨"R", h, rfl⟩, "missing", List.mem_cons_self, by decide⟩

/-- No type of the constructor in `A([_]).` is defective. In another clause there is a
constructor that has both names of the defective record. -/
theorem record_constructors_partsProgram :
    Context.ofProgram partsProgram = .ok partsContext ∧
    (∃ solved, solveClause partsContext partsProgram {} singleFact = .ok solved ∧
      ∀ node types, solved.typing.Assigns node types → node.label = .record →
        node.children ≠ [] → types.Consists fun name =>
          ¬ partsContext.env.IsDefective partsProgram.typeDecls name) ∧
    ∃ clause node solved types, node.label = .record ∧
      solveClause partsContext partsProgram {} clause = .ok solved ∧
      solved.typing.Assigns node types ∧ "R" ∈ types ∧ "Q" ∈ types := by
  have hcontext : Context.ofProgram partsProgram = .ok partsContext := rfl
  obtain ⟨each, clause, node, hlabel, -, solves⟩ := record_constructors hcontext
  refine ⟨hcontext, ?_, ?_⟩
  · have solvable : (solveClause partsContext partsProgram {} singleFact).isOk := by decide +kernel
    cases hsolved : solveClause partsContext partsProgram {} singleFact with
    | error fault =>
        rw [hsolved] at solvable
        cases solvable
    | ok solved =>
        refine ⟨solved, rfl, fun node types hassigns hlabel some => ?_⟩
        obtain ⟨names, rfl, all⟩ := each _ _ _ hsolved _ _ hassigns hlabel
        refine ⟨names, rfl, fun name hname defective => ?_⟩
        obtain ⟨fields, -, none, -⟩ := all name hname
        exact some (none defective)
  · obtain ⟨solved, types, hsolved, hassigns, all⟩ := solves {}
    exact ⟨clause, node, solved, types, hlabel, hsolved, hassigns,
      all "R" (partsProgram_defective .refl), all "Q" (partsProgram_defective (.single rfl))⟩

/-- A record `R` with a field of a type that does not exist, and the clause `A([]).` -/
def hollowProgram : Program where
  types := [.mk 10 none (.recordDecl "R") [.mk 11 none (.field "a" "missing") []]]
  clauses := [emptyFact []]

def hollowContext : Context where
  env := ⟨TypeEnv.builtIn.entries ++ [("R", .record [])]⟩
  owners := []
  signatures := []

/-- The constructor `[]` has the defective record for its type. -/
theorem emptyConstructor_hollowProgram :
    Context.ofProgram hollowProgram = .ok hollowContext ∧
    hollowContext.env.IsDefective hollowProgram.typeDecls "R" ∧
    ∃ solved, solveClause hollowContext hollowProgram {} (emptyFact []) = .ok solved ∧
      solved.typing.Assigns emptyConstructor (.single "R") := by
  have defective : hollowContext.env.IsDefective hollowProgram.typeDecls "R" :=
    ⟨["missing"], ⟨"R", .refl, rfl⟩, "missing", List.mem_cons_self, by decide⟩
  obtain ⟨problem, hproblem, hconstraints⟩ : ∃ problem,
      clauseProblem hollowContext hollowProgram {} (emptyFact []) = .ok problem ∧
        problem.constraints =
          [.recordOf emptyConstructor.typeVar 0 hollowContext.env.recordTypes] := ⟨_, rfl, rfl⟩
  obtain ⟨solution, hsolution, htypes⟩ := Problem.solve_recordOf hollowContext.env hconstraints
  have found : solution.assignment emptyConstructor.typeVar = .single "R" :=
    htypes.trans (by decide)
  refine ⟨rfl, defective, ⟨emptyFact [], problem, solution⟩, ?_, ?_⟩
  · simp only [solveClause, hproblem, hsolution]
  · rw [← found]
    exact SolvedClause.mem_entries.mpr ⟨_, emptyConstructor_mem_arguments [], rfl⟩

end Context

end DatalogTyping

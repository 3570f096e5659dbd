import DatalogTyping.Proofs.FunctorFree

/-!
# What nodes may be resolved to

Whatever an analysis has recorded for a node is something that the node allows
(`Node.Allows`): an overload of its own symbol, a representation that its text can be
read as, its own operator or a variant of it. This is so at every moment, in between
the passes and when a run fails, too (`Analysis.Reachable.legal`).

For numerals this depends on the sets of types. A numeral starts with the kinds that
its text can be read as, and later it is bound to the one it has been resolved to. A
set found by solving never leaves these kinds, and a type is of one kind at most, so
what is chosen from a set is one of them again. The invariant is about both, the
tables and the sets (`Analysis.Legal`).

An operator without variants is recorded as itself or not at all. So no pass ever
finds one that has changed.
-/

namespace DatalogTyping

/-! ### Faults that are not about operators -/

/-- The outcome is not that an operator without variants is recorded as another one. -/
def KeepsOperators {α : Type} (outcome : Except Fault α) : Prop :=
  ∀ text, outcome ≠ .error (.fixedOperatorChanged text)

namespace KeepsOperators

variable {α β : Type} {outcome : Except Fault α}

theorem ok (value : α) : KeepsOperators (.ok value) := by
  intro text heq
  cases heq

theorem error {fault : Fault} (other : ∀ text, fault ≠ .fixedOperatorChanged text) :
    KeepsOperators (.error fault : Except Fault α) := by
  intro text heq
  exact other text (Except.error.inj heq)

theorem bind {next : α → Except Fault β} (h : KeepsOperators outcome)
    (hnext : ∀ value, KeepsOperators (next value)) : KeepsOperators (outcome >>= next) := by
  intro text heq
  cases outcome with
  | error fault =>
      cases heq
      exact h text rfl
  | ok value => exact hnext value text heq

theorem map (h : KeepsOperators outcome) (f : α → β) : KeepsOperators (outcome.map f) := by
  intro text heq
  cases outcome with
  | error fault =>
      cases heq
      exact h text rfl
  | ok value => cases heq

theorem mapM {f : α → Except Fault β} (h : ∀ x, KeepsOperators (f x)) (xs : List α) :
    KeepsOperators (xs.mapM f) := by
  induction xs with
  | nil => exact .ok []
  | cons x rest ih =>
      rw [List.mapM_cons]
      exact (h x).bind fun first => ih.bind fun others => .ok (first :: others)

end KeepsOperators

theorem requireVariant_keepsOperators {α : Type} {name : String} {overloaded : Bool}
    {missing : Fault} {variant? : Option α}
    (h : ∀ text, missing ≠ .fixedOperatorChanged text) :
    KeepsOperators (requireVariant name overloaded missing variant?) := by
  unfold requireVariant
  split
  · split
    · exact .ok _
    · exact .error h
  · exact .error (by simp)

section Faults

variable (env : TypeEnv) (known : Knowledge) (node : Node)

theorem TypeEnv.skipFrom_keepsOperators (seen : List String) (bound : Nat) (name : String) :
    KeepsOperators (env.skipFrom seen bound name) := by
  induction bound generalizing seen name with
  | zero => exact .error (by simp)
  | succ bound ih =>
      rw [skipFrom]
      split
      · split
        · exact .error (by simp)
        · exact ih _ _
      · exact .ok _

theorem TypeEnv.baseFrom_keepsOperators (bound : Nat) (name : String) :
    KeepsOperators (env.baseFrom bound name) := by
  induction bound generalizing name with
  | zero => exact .ok _
  | succ bound ih =>
      rw [baseFrom]
      refine (env.skipFrom_keepsOperators _ _ _).bind fun root => ?_
      split
      · exact ih _
      · exact .ok _

theorem TypeEnv.kindOf_keepsOperators (name : String) : KeepsOperators (env.kindOf name) := by
  refine (env.baseFrom_keepsOperators _ _).bind fun root => ?_
  split
  · exact .ok _
  · exact .ok _
  · split
    · exact .ok _
    · exact .error (by simp)

namespace Knowledge

theorem returnKind_keepsOperators : KeepsOperators (known.returnKind node) := by
  have overload : KeepsOperators (known.overloadOf node) := by
    unfold overloadOf
    split
    · split
      · exact .ok _
      · exact .error (by simp)
    · exact .error (by simp)
  have signature : KeepsOperators (known.signatureOf node) := by
    unfold signatureOf
    split
    · split
      · exact .ok _
      · exact .error (by simp)
    · exact .error (by simp)
  have result : KeepsOperators (known.returnType node) := by
    refine signature.bind fun signature => KeepsOperators.map ?_ _
    unfold TypeEnv.get
    split
    · exact .ok _
    · exact .error (by simp)
  unfold returnKind
  split
  · exact overload.bind fun overload => .ok overload.result
  · exact result.bind fun result => TypeEnv.kindOf_keepsOperators _ _

theorem kindsOf_keepsOperators : KeepsOperators (known.kindsOf node) := by
  unfold kindsOf
  extract_lets isApplied
  by_cases applied : (isApplied && known.isSettled node) = true
  · rw [if_pos applied]
    exact (known.returnKind_keepsOperators node).map _
  · rw [if_neg applied]
    unfold typesOf
    cases known.types.get? node.id with
    | none => exact .error (by simp)
    | some types =>
        cases types with
        | all => exact .ok Kind.unconstrained
        | only names => exact KeepsOperators.mapM (TypeEnv.kindOf_keepsOperators _) _

theorem kindsPresent_keepsOperators : KeepsOperators (known.kindsPresent node) := by
  unfold kindsPresent typesOf
  cases known.types.get? node.id with
  | none => exact .error (by simp)
  | some types =>
      cases types with
      | all => exact .ok []
      | only names => exact known.kindsOf_keepsOperators node

end Knowledge

theorem solveClause_keepsOperators {context : Context} {program : Program}
    (hcontext : Context.ofProgram program = .ok context) (acyclic : context.env.Acyclic)
    (resolutions : Resolutions) (clause : Node) :
    KeepsOperators (solveClause context program resolutions clause) := by
  intro text heq
  cases hproblem : clauseProblem context program resolutions clause with
  | error fault =>
      simp only [solveClause, hproblem] at heq
      cases heq
      cases visitsProblem_fault hproblem
  | ok problem =>
      by_cases stops : problem.Stops context.env
      · obtain ⟨solved, hsolved, -⟩ := solveClause_eq_ok hcontext acyclic hproblem stops
        cases hsolved.symm.trans heq
      · cases (solveClause_eq_endless hcontext acyclic hproblem stops).symm.trans heq

end Faults

/-! ### Values that a node allows -/

/-- What a node may be resolved to. -/
inductive Node.Allows (node : Node) : (pass : Pass) → pass.Value → Prop
  /-- A functor may have any overload of its symbol that takes as many arguments. -/
  | overload {symbol : String} {overload : Overload} (hlabel : node.label = .functor symbol)
      (mem : overload ∈ Overload.ofSymbol symbol)
      (arity : overload.acceptsArity node.children.length) : node.Allows .functors overload
  /-- A numeral has the representation that is fixed. -/
  | fixed {text : String} {kind : NumericKind} (hlabel : node.label = .numeral text (some kind)) :
      node.Allows .numerals kind
  /-- If none is, it may have any that its text can be read as. -/
  | reading {text : String} {kind : NumericKind} (hlabel : node.label = .numeral text none)
      (reads : Numeral.parsesAs text kind) : node.Allows .numerals kind
  /-- An aggregate may have its own operator. -/
  | aggregate {op : AggregateOp} {targeted : Bool} (hlabel : node.label = .aggregate op targeted) :
      node.Allows .aggregates op
  /-- If that is overloaded, it may have a variant. -/
  | aggregateVariant {op variant : AggregateOp} {targeted : Bool} {kind : Kind}
      (hlabel : node.label = .aggregate op targeted) (hvariant : op.convert kind = .ok variant) :
      node.Allows .aggregates variant
  /-- A comparison may have its own operator. -/
  | comparison {op : ComparisonOp} (hlabel : node.label = .comparison op) :
      node.Allows .comparisons op
  /-- If that is overloaded, it may have a variant. -/
  | comparisonVariant {op variant : ComparisonOp} {kind : Kind}
      (hlabel : node.label = .comparison op) (hvariant : op.convert kind = .ok variant) :
      node.Allows .comparisons variant

/-- Everything that is recorded is recorded for a node of the program, which allows it. -/
def Resolutions.Legal (program : Program) (resolutions : Resolutions) : Prop :=
  ∀ pass id value, (resolutions.table pass).get? id = some value →
    ∃ node ∈ Node.nodesOf program.clauses, node.id = id ∧ node.Allows pass value

theorem Resolutions.legal_empty (program : Program) : Resolutions.Legal program {} := by
  intro pass id value h
  cases pass <;> cases h

theorem Resolutions.Legal.allows {program : Program} {resolutions : Resolutions}
    (legal : resolutions.Legal program) (identified : program.Identified) {node : Node}
    (hnode : node ∈ Node.nodesOf program.clauses) {pass : Pass} {value : pass.Value}
    (h : (resolutions.table pass).get? node.id = some value) : node.Allows pass value := by
  obtain ⟨other, hother, hid, allows⟩ := legal pass node.id value h
  exact identified other hother node hnode hid ▸ allows

/-- A numeral is resolved to a representation that its text can be read as. -/
theorem Resolutions.Legal.readable {program : Program} {resolutions : Resolutions}
    (legal : resolutions.Legal program) (identified : program.Identified) {node : Node}
    (hnode : node ∈ Node.nodesOf program.clauses) {text : String}
    (hlabel : node.label = .numeral text none) {kind : NumericKind}
    (h : resolutions.numerals.get? node.id = some kind) : Numeral.parsesAs text kind := by
  have allowed : node.Allows .numerals kind := legal.allows identified hnode h
  cases allowed with
  | fixed hlabel' => cases hlabel.symm.trans hlabel'
  | reading hlabel' reads =>
      obtain ⟨rfl, -⟩ := Label.numeral.inj (hlabel.symm.trans hlabel')
      exact reads

/-! ### Choices -/

/-- The sets of types of numerals consist of types that are of kinds which the texts of
the numerals can be read as, unless a representation is fixed. -/
def Program.NumeralsRead (context : Context) (program : Program) (types : Table TypeSet) : Prop :=
  ∀ node ∈ Node.nodesOf program.clauses, ∀ text set, node.label = .numeral text none →
    types.get? node.id = some set → set.Consists fun name =>
      ∃ kind : NumericKind, Numeral.parsesAs text kind ∧ context.env.isOfKind name kind.kind

namespace Knowledge

variable {program : Program} {known : Knowledge} {node : Node}

theorem parsesAs_of_numeralChoice (acyclic : known.context.env.Acyclic)
    (builtIns : known.context.env.HasBuiltIns)
    (reads : program.NumeralsRead known.context known.types)
    (hnode : node ∈ Node.nodesOf program.clauses) {text : String}
    (hlabel : node.label = .numeral text none) {kinds : List Kind}
    (hkinds : known.kindsOf node = .ok kinds) {kind : NumericKind}
    (h : numeralChoice kinds = some kind) : Numeral.parsesAs text kind := by
  have hmem : kind.kind ∈ kinds := by simpa using List.find?_some h
  obtain ⟨types, htypes, hkinds⟩ : ∃ types, known.typesOf node = .ok types ∧
      known.kindsIn types = .ok kinds := by
    rcases kindsOf_cases hkinds with ⟨_, _, other, -⟩ | ⟨_, _, _, other, -⟩ | found
    · cases hlabel.symm.trans other
    · cases hlabel.symm.trans other
    · exact found
  unfold typesOf at htypes
  split at htypes
  · rename_i set hset
    obtain rfl := Except.ok.inj htypes
    obtain ⟨names, rfl, each⟩ := reads node hnode text set hlabel hset
    -- the kind was found for some type of the set, which is also of a kind of the text
    obtain ⟨name, hname, hkind⟩ := exists_mem_of_mapM_ok hkinds hmem
    obtain ⟨own, parses, hown⟩ := each name (Names.mem_toList.mp hname)
    have same := acyclic.isOfKind_unique builtIns (TypeEnv.isOfKind_of_kindOf hkind) hown
    rwa [NumericKind.kind_injective same]
  · cases htypes

theorem allows_of_aggregateChoice {op : AggregateOp} {targeted : Bool}
    (hlabel : node.label = .aggregate op targeted) {value : AggregateOp}
    (h : known.aggregateChoice node op = .ok (some value)) : node.Allows .aggregates value := by
  unfold aggregateChoice at h
  split at h
  · split at h
    · cases h
    · obtain ⟨kinds, -, h⟩ := bind_eq_ok.mp h
      obtain ⟨variant, hvariant, h⟩ := bind_eq_ok.mp h
      obtain rfl := Option.some.inj (Except.ok.inj h)
      exact .aggregateVariant hlabel hvariant
  · obtain rfl := Option.some.inj (fixedChoice_eq_ok h)
    exact .aggregate hlabel

theorem allows_of_comparisonChoice {op : ComparisonOp} (hlabel : node.label = .comparison op)
    {value : ComparisonOp} (h : known.comparisonChoice node op = .ok (some value)) :
    node.Allows .comparisons value := by
  unfold comparisonChoice at h
  split at h
  · split at h
    · obtain ⟨left, -, h⟩ := bind_eq_ok.mp h
      obtain ⟨right, -, h⟩ := bind_eq_ok.mp h
      obtain ⟨variant, hvariant, h⟩ := bind_eq_ok.mp h
      obtain rfl := Option.some.inj (Except.ok.inj h)
      exact .comparisonVariant hlabel hvariant
    · cases h
  · obtain rfl := Option.some.inj (fixedChoice_eq_ok h)
    exact .comparison hlabel

/-- What a pass wants to record for a node, the node allows. -/
theorem allows_of_choice (acyclic : known.context.env.Acyclic)
    (builtIns : known.context.env.HasBuiltIns) (identified : program.Identified)
    (legal : known.resolutions.Legal program)
    (reads : program.NumeralsRead known.context known.types)
    (hnode : node ∈ Node.nodesOf program.clauses) {pass : Pass} {value : pass.Value}
    (h : known.choice node pass = .ok (some value)) : node.Allows pass value := by
  -- a node that the pass is not about keeps what it has
  have kept : known.choice node pass = .ok ((known.resolutions.table pass).get? node.id) →
      node.Allows pass value := fun same =>
    legal.allows identified hnode (Except.ok.inj (same.symm.trans h))
  by_cases concerned : pass.concerns node
  swap
  · exact kept (choice_of_not_concerns (by simpa using concerned))
  cases pass with
  | functors =>
      cases hlabel : node.label with
      | functor symbol =>
          obtain ⟨fits, source⟩ := of_choice_functors hlabel h
          refine .overload hlabel ?_ fits.arity
          rcases source with ⟨recorded, hrecorded, hop⟩ | hsymbol
          · -- it keeps to the operation recorded, which belongs to the symbol
            have allowed : node.Allows .functors recorded := legal.allows identified hnode hrecorded
            obtain ⟨hlabel', mem, -⟩ := allowed
            obtain rfl := Label.functor.inj (hlabel.symm.trans hlabel')
            exact Overload.mem_ofSymbol_of_ofOp mem hop
          · exact hsymbol
      | _ => simp [Pass.concerns, hlabel] at concerned
  | numerals =>
      cases hlabel : node.label with
      | numeral text fixed =>
          simp only [choice, hlabel] at h
          cases fixed with
          | some kind =>
              obtain rfl := Option.some.inj (Except.ok.inj h)
              exact .fixed hlabel
          | none =>
              cases hkinds : known.kindsOf node with
              | error fault => simp [hkinds, Except.map] at h
              | ok kinds =>
                  simp only [hkinds, Except.map] at h
                  exact .reading hlabel (parsesAs_of_numeralChoice acyclic builtIns reads hnode
                    hlabel hkinds (Except.ok.inj h))
      | _ => simp [Pass.concerns, hlabel] at concerned
  | aggregates =>
      cases hlabel : node.label with
      | aggregate op targeted =>
          simp only [choice, hlabel] at h
          exact allows_of_aggregateChoice hlabel h
      | _ => simp [Pass.concerns, hlabel] at concerned
  | comparisons =>
      cases hlabel : node.label with
      | comparison op =>
          simp only [choice, hlabel] at h
          exact allows_of_comparisonChoice hlabel h
      | _ => simp [Pass.concerns, hlabel] at concerned

/-- No choice fails because an operator without variants has changed. -/
theorem choice_keepsOperators (identified : program.Identified)
    (legal : known.resolutions.Legal program) (hnode : node ∈ Node.nodesOf program.clauses)
    (pass : Pass) : KeepsOperators (known.choice node pass) := by
  by_cases concerned : pass.concerns node
  swap
  · rw [choice_of_not_concerns (by simpa using concerned)]
    exact .ok _
  cases pass with
  | functors =>
      cases hlabel : node.label with
      | functor symbol =>
          simp only [choice, validOverloads, hlabel]
          refine KeepsOperators.map ?_ _
          refine (KeepsOperators.mapM known.kindsOf_keepsOperators _).bind fun argKinds => ?_
          exact (known.kindsOf_keepsOperators node).bind fun ownKinds => .ok _
      | _ => simp [Pass.concerns, hlabel] at concerned
  | numerals =>
      cases hlabel : node.label with
      | numeral text fixed =>
          simp only [choice, hlabel]
          cases fixed with
          | some kind => exact .ok _
          | none => exact (known.kindsOf_keepsOperators node).map _
      | _ => simp [Pass.concerns, hlabel] at concerned
  | aggregates =>
      cases hlabel : node.label with
      | aggregate op targeted =>
          simp only [choice, hlabel, aggregateChoice]
          split
          · split
            · exact .error (by simp)
            · refine (known.kindsPresent_keepsOperators _).bind fun kinds => ?_
              exact (requireVariant_keepsOperators (by simp)).bind fun variant => .ok _
          · rename_i plain
            rw [fixedChoice_eq_ok_of_recorded]
            · exact .ok _
            · intro recorded hrecorded
              have allowed : node.Allows .aggregates recorded :=
                legal.allows identified hnode hrecorded
              cases allowed with
              | aggregate hlabel' => exact (Label.aggregate.inj (hlabel'.symm.trans hlabel)).1
              | aggregateVariant hlabel' hvariant =>
                  obtain ⟨rfl, -⟩ := Label.aggregate.inj (hlabel'.symm.trans hlabel)
                  exact absurd (requireVariant_eq_ok_iff.mp hvariant).1 plain
      | _ => simp [Pass.concerns, hlabel] at concerned
  | comparisons =>
      cases hlabel : node.label with
      | comparison op =>
          simp only [choice, hlabel, comparisonChoice]
          split
          · split
            · refine (known.kindsPresent_keepsOperators _).bind fun left => ?_
              refine (known.kindsPresent_keepsOperators _).bind fun right => ?_
              exact (requireVariant_keepsOperators (by simp)).bind fun variant => .ok _
            · exact .error (by simp)
          · rename_i plain
            rw [fixedChoice_eq_ok_of_recorded]
            · exact .ok _
            · intro recorded hrecorded
              have allowed : node.Allows .comparisons recorded :=
                legal.allows identified hnode hrecorded
              cases allowed with
              | comparison hlabel' => exact Label.comparison.inj (hlabel'.symm.trans hlabel)
              | comparisonVariant hlabel' hvariant =>
                  obtain rfl := Label.comparison.inj (hlabel'.symm.trans hlabel)
                  exact absurd (requireVariant_eq_ok_iff.mp hvariant).1 plain
      | _ => simp [Pass.concerns, hlabel] at concerned

end Knowledge

/-! ### Passes -/

namespace Pass

variable {known : Knowledge} {nodes : List Node} {resolutions : Resolutions} {fault : Fault}

/-- A pass that fails does so at a node, with what it leaves behind. -/
theorem run_eq_error {pass : Pass} (h : pass.run known nodes = (resolutions, .error fault)) :
    ∃ node ∈ nodes, pass.step { known with resolutions } node = .error fault := by
  obtain ⟨before, node, hnode, hattempt⟩ := Knowledge.refineEach_eq_error h
  obtain ⟨hstep, rfl⟩ := attempt_eq_error.mp hattempt
  exact ⟨node, hnode, hstep⟩

theorem runAll_eq_error {passes : List Pass}
    (h : runAll known nodes passes = (resolutions, .error fault)) :
    ∃ pass ∈ passes, ∃ node ∈ nodes, pass.step { known with resolutions } node = .error fault := by
  obtain ⟨before, pass, hpass, hrun⟩ := Knowledge.refineEach_eq_error h
  obtain ⟨node, hnode, hstep⟩ := run_eq_error hrun
  exact ⟨pass, hpass, node, hnode, hstep⟩

end Pass

/-- A step records what the node allows and leaves everything else alone. -/
theorem Resolutions.Legal.step {program : Program} {known : Knowledge} {node : Node} {pass : Pass}
    {resolutions : Resolutions} {changed : Bool} (legal : known.resolutions.Legal program)
    (acyclic : known.context.env.Acyclic) (builtIns : known.context.env.HasBuiltIns)
    (identified : program.Identified) (reads : program.NumeralsRead known.context known.types)
    (hnode : node ∈ Node.nodesOf program.clauses)
    (h : pass.step known node = .ok (resolutions, changed)) : resolutions.Legal program := by
  obtain ⟨value, hchoice, others, entries, -, -⟩ := Pass.step_eq_ok h
  intro other id entry hentry
  by_cases hpass : other = pass
  · subst hpass
    rw [entries] at hentry
    split at hentry
    · rename_i hid
      subst hentry
      exact ⟨node, hnode, hid.symm,
        known.allows_of_choice acyclic builtIns identified legal reads hnode hchoice⟩
    · exact legal other id entry hentry
  · rw [others other hpass] at hentry
    exact legal other id entry hentry

/-! ### Moments of an analysis -/

namespace Analysis

variable {context : Context} {program : Program} {analysis : Analysis}

/-- What holds of an analysis at every moment: its tables hold what the nodes allow, and
its sets of types have the kinds that numerals can be read as. -/
structure Legal (context : Context) (program : Program) (analysis : Analysis) : Prop where
  resolutions : analysis.resolutions.Legal program
  reads : program.NumeralsRead context analysis.types

/-- An analysis that can come about: a fresh one, or one after the number of the round is
set, the clauses are solved or a pass is run, whether or not this fails on the way. These
are the steps that runs are made of. -/
inductive Reachable (context : Context) (program : Program) : Analysis → Prop
  | fresh : Reachable context program {}
  | begun {analysis : Analysis} (reachable : Reachable context program analysis)
      (iterations : Nat) : Reachable context program { analysis with iterations }
  | solved {analysis : Analysis} (reachable : Reachable context program analysis)
      (account : Bool) : Reachable context program (analysis.solve context program account).1
  | refined {analysis : Analysis} (reachable : Reachable context program analysis)
      (pass : Pass) : Reachable context program (analysis.refine context program [pass]).1

section Legal

variable (hcontext : Context.ofProgram program = .ok context) (acyclic : context.env.Acyclic)
  (identified : program.Identified)

include hcontext acyclic identified

/-- Solving finds, for a numeral, types of the kind that it is resolved to or else of any
that its text can be read as. -/
theorem Legal.solve (legal : analysis.Legal context program) (account : Bool) :
    (analysis.solve context program account).1.Legal context program := by
  rw [solve_eq]
  refine ⟨legal.resolutions, ?_⟩
  intro node hnode text set hlabel hset
  obtain ⟨names, hnames, each⟩ :=
    Program.consists_of_numeral hcontext acyclic identified hnode hlabel hset
  refine ⟨names, hnames, fun name hname => ?_⟩
  obtain ⟨kind, represents, hof⟩ := each name hname
  refine ⟨kind, ?_, hof⟩
  rcases represents with ⟨h, -⟩ | ⟨-, hrecorded⟩ | ⟨-, -, hmem⟩
  · cases h
  · exact legal.resolutions.readable identified hnode hlabel hrecorded
  · exact (List.mem_filter.mp hmem).2

theorem Legal.refine (legal : analysis.Legal context program) (passes : List Pass) :
    (analysis.refine context program passes).1.Legal context program ∧
      KeepsOperators (analysis.refine context program passes).2 := by
  have builtIns := (Context.wellFormed_of_ofProgram hcontext).builtIns
  cases hrun : Pass.runAll (analysis.known context) (Node.nodesOf program.clauses) passes with
  | mk resolutions outcome =>
      have after : resolutions.Legal program := by
        refine Pass.runAll_preserves (fun hnode hstep legal' => ?_) hrun legal.resolutions
        exact legal'.step acyclic builtIns identified legal.reads hnode hstep
      simp only [Analysis.refine, hrun]
      refine ⟨⟨after, legal.reads⟩, ?_⟩
      intro text heq
      obtain ⟨pass, -, node, hnode, hstep⟩ := Pass.runAll_eq_error (heq ▸ hrun)
      rw [Pass.step_eq] at hstep
      exact (Knowledge.choice_keepsOperators identified after hnode pass).map _ text hstep

theorem Legal.round (legal : analysis.Legal context program) (account : Bool) :
    (analysis.round context program account).1.Legal context program ∧
      KeepsOperators (analysis.round context program account).2 := by
  have solved := legal.solve hcontext acyclic identified account
  unfold Analysis.round
  split
  · rename_i next fault hsolve
    rw [hsolve] at solved
    refine ⟨solved, ?_⟩
    intro text heq
    cases heq
    rw [solve_eq, Prod.mk.injEq] at hsolve
    obtain ⟨clause, -, hclause⟩ := solveClauses_fault hsolve.2
    exact solveClause_keepsOperators hcontext acyclic _ clause text hclause
  · rename_i next hsolve
    rw [hsolve] at solved
    exact solved.refine hcontext acyclic identified Pass.all

/-- A run does not fail because an operator without variants has changed. -/
theorem Legal.runFrom_fault (legal : analysis.Legal context program) (account : Bool)
    (limit remaining done : Nat) (text : String) :
    (runFrom context program account limit remaining done analysis).fault ≠
      some (.fixedOperatorChanged text) := by
  induction remaining generalizing done analysis with
  | zero => simp [runFrom]
  | succ remaining ih =>
      have begun : Legal context program { analysis with iterations := done + 1 } :=
        ⟨legal.resolutions, legal.reads⟩
      obtain ⟨after, keeps⟩ := begun.round hcontext acyclic identified account
      rw [runFrom]
      split
      · rename_i next fault hround
        rw [hround] at keeps
        intro heq
        exact keeps text (congrArg Except.error (Option.some.inj heq))
      · rename_i next changed hround
        rw [hround] at after
        split
        · exact ih after (done + 1)
        · simp

theorem Reachable.legal (reachable : analysis.Reachable context program) :
    analysis.Legal context program := by
  induction reachable with
  | fresh => exact ⟨Resolutions.legal_empty program, fun _ _ _ _ _ h => nomatch h⟩
  | begun _ iterations ih => exact ⟨ih.resolutions, ih.reads⟩
  | solved _ account ih => exact ih.solve hcontext acyclic identified account
  | refined _ pass ih => exact (ih.refine hcontext acyclic identified [pass]).1

end Legal

/-! ### Runs -/

theorem Reachable.refine (reachable : analysis.Reachable context program) (passes : List Pass) :
    (analysis.refine context program passes).1.Reachable context program := by
  induction passes generalizing analysis with
  | nil => exact reachable
  | cons pass rest ih =>
      have first := reachable.refined pass
      rcases hrun : pass.run (analysis.known context) (Node.nodesOf program.clauses) with
        ⟨between, fault | here⟩
      · -- the pass fails, and the others are not run
        simpa [Analysis.refine, Pass.runAll, Knowledge.refineEach, hrun] using first
      · have next : Reachable context program { analysis with resolutions := between } := by
          simpa [Analysis.refine, Pass.runAll, Knowledge.refineEach, hrun] using first
        have others := ih next
        simp only [Analysis.refine, Pass.runAll, Knowledge.refineEach, hrun] at others ⊢
        split <;> simp_all [known]

theorem Reachable.round (reachable : analysis.Reachable context program) (account : Bool) :
    (analysis.round context program account).1.Reachable context program := by
  have solved := reachable.solved account
  unfold Analysis.round
  split
  · rename_i hsolve
    rwa [hsolve] at solved
  · rename_i hsolve
    rw [hsolve] at solved
    exact solved.refine Pass.all

theorem Reachable.runFrom (reachable : analysis.Reachable context program) (account : Bool)
    (limit remaining done : Nat) :
    (runFrom context program account limit remaining done analysis).analysis.Reachable context
      program := by
  induction remaining generalizing done analysis with
  | zero => exact reachable
  | succ remaining ih =>
      have after := (reachable.begun (done + 1)).round account
      rw [Analysis.runFrom]
      split
      · rename_i hround
        rwa [hround] at after
      · rename_i hround
        rw [hround] at after
        split
        · exact ih after (done + 1)
        · exact after

/-- Whatever is recorded at any moment of an analysis is recorded for a node of the
program that allows it, and no pass finds that an operator without variants has changed.
Runs only ever lead to such moments, whether they return, fail or use up their rounds. -/
theorem reachable_legal (hcontext : Context.ofProgram program = .ok context)
    (acyclic : context.env.Acyclic) (identified : program.Identified)
    (reachable : analysis.Reachable context program) :
    analysis.resolutions.Legal program ∧
    (∀ pass, KeepsOperators (analysis.refine context program [pass]).2) ∧
    ∀ account limit,
      (analysis.run context program account limit).analysis.Reachable context program ∧
      ∀ text, (analysis.run context program account limit).fault ≠
        some (.fixedOperatorChanged text) := by
  have legal := reachable.legal hcontext acyclic identified
  refine ⟨legal.resolutions, fun pass => ?_, fun account limit => ⟨?_, ?_⟩⟩
  · exact (legal.refine hcontext acyclic identified [pass]).2
  · exact reachable.runFrom account limit limit 0
  · exact legal.runFrom_fault hcontext acyclic identified account limit limit 0

/-- The clause `A(to_string(x),to_number(x)) :- 1 < max z : { B(z) }, match(y, _),
2u = count : { C(y) }.` -/
def restlessProgram : Program where
  clauses := [.mk 0 none .clause [
    .mk 1 none (.atom "A") [
      .mk 2 none (.functor "to_string") [.mk 3 none (.var "x") []],
      .mk 4 none (.functor "to_number") [.mk 5 none (.var "x") []]],
    .mk 6 none (.comparison .lt) [
      .mk 7 none (.numeral "1" none) [],
      .mk 8 none (.aggregate .max true) [.mk 9 none (.var "z") [],
        .mk 10 none (.atom "B") [.mk 11 none (.var "z") []]]],
    .mk 12 none (.comparison .matching) [.mk 13 none (.var "y") [], .mk 14 none .wildcard []],
    .mk 15 none (.comparison .eq) [
      .mk 16 none (.numeral "2" (some .uint)) [],
      .mk 17 none (.aggregate .count false) [.mk 18 none (.atom "C") [.mk 19 none (.var "y") []]]]]]

/-- The analysis of the clause never settles. Its first round resolves the functors, which
the second one takes back, and the two have different variants of the aggregate and of
the first comparison. All of it is legal. -/
theorem reachable_legal_restlessProgram :
    Context.ofProgram restlessProgram = .ok bareContext ∧ bareContext.env.Acyclic ∧
    restlessProgram.Identified ∧
    (∀ limit, (restlessProgram.run bareContext false limit).analysis.resolutions.Legal
      restlessProgram) ∧
    (restlessProgram.run bareContext false 1).fault = some (.unsettled 1) ∧
    (restlessProgram.run bareContext false 2).fault = some (.unsettled 2) ∧
    (let first := (restlessProgram.run bareContext false 1).analysis.resolutions;
      (first.functors.get? 2).isSome ∧ first.numerals.get? 7 = some .int ∧
        first.numerals.get? 16 = some .uint ∧ first.aggregates.get? 8 = some .fmax ∧
        first.aggregates.get? 17 = some .count ∧ first.comparisons.get? 6 = some .flt) ∧
    (let second := (restlessProgram.run bareContext false 2).analysis.resolutions;
      second.functors.get? 2 = none ∧ second.aggregates.get? 8 = some .max ∧
        second.comparisons.get? 6 = some .lt) := by
  have hcontext : Context.ofProgram restlessProgram = .ok bareContext := by rfl
  have acyclic : bareContext.env.Acyclic := TypeEnv.acyclic_of_ordered (by decide)
  have identified : restlessProgram.Identified := Program.identified_of_nodup (by decide)
  refine ⟨hcontext, acyclic, identified, fun limit => ?_, by decide +kernel, by decide +kernel,
    by decide +kernel, by decide +kernel⟩
  obtain ⟨-, -, runs⟩ := reachable_legal hcontext acyclic identified .fresh
  exact (reachable_legal hcontext acyclic identified (runs false limit).1).1

end Analysis

end DatalogTyping

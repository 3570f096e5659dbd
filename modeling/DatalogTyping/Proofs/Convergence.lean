import DatalogTyping.Proofs.Faultless

/-!
# When the analysis of a program ends

A run ends before its limit if a round, the first one apart, changes nothing.
Whether there is such a round depends on functors and numerals alone: the solver
looks at what these are resolved to, and aggregates and comparisons follow
(`settledAfter_or_fewer`). As long as no functor or numeral loses the resolution
it has or gets another, each round resolves one more of them or the next changes
nothing, so their number bounds the rounds (`run_returns_iff`).

They may lose it, and then a run need not end however high the limit is. In
`clashingProgram_never_returns` two functors share an argument. Each alone fits
some kinds of it, so both are resolved, but not to overloads that fit the same
kind: the next round finds no type for the argument and takes both back.
-/

namespace DatalogTyping

/-! ### Retained resolutions -/

/-- No functor and no numeral loses its resolution, or gets another instead. -/
def Resolutions.Retains (before after : Resolutions) : Prop :=
  (∀ id overload, before.functors.get? id = some overload →
    after.functors.get? id = some overload) ∧
  ∀ id kind, before.numerals.get? id = some kind → after.numerals.get? id = some kind

theorem Resolutions.Retains.refl (resolutions : Resolutions) : resolutions.Retains resolutions :=
  ⟨fun _ _ h => h, fun _ _ h => h⟩

theorem Resolutions.Retains.get? {before after : Resolutions} (retains : before.Retains after)
    {pass : Pass} (hpass : pass.feedsBack) {id : NodeId} {value : pass.Value}
    (h : (before.table pass).get? id = some value) :
    (after.table pass).get? id = some value := by
  cases pass with
  | functors => exact retains.1 id value h
  | numerals => exact retains.2 id value h
  | _ => cases hpass

/-- The functors and numerals of a program. -/
def Program.feedbackNodes (program : Program) : List Node :=
  (Node.nodesOf program.clauses).filter fun node =>
    Pass.functors.concerns node || Pass.numerals.concerns node

/-- Is the node a functor or a numeral that is not resolved? -/
def Resolutions.isOpen (resolutions : Resolutions) (node : Node) : Bool :=
  (Pass.functors.concerns node && !resolutions.functors.contains node.id) ||
    (Pass.numerals.concerns node && !resolutions.numerals.contains node.id)

theorem Resolutions.isOpen_iff {resolutions : Resolutions} {node : Node} :
    resolutions.isOpen node ↔ ∃ pass : Pass, pass.feedsBack ∧ pass.concerns node ∧
      (resolutions.table pass).get? node.id = none := by
  simp only [isOpen, Bool.or_eq_true, Bool.and_eq_true, Bool.not_eq_true', Table.contains,
    Option.isSome_eq_false_iff, Option.isNone_iff_eq_none]
  constructor
  · rintro (⟨concerned, hnone⟩ | ⟨concerned, hnone⟩)
    · exact ⟨.functors, rfl, concerned, hnone⟩
    · exact ⟨.numerals, rfl, concerned, hnone⟩
  · rintro ⟨pass, hpass, concerned, hnone⟩
    cases pass with
    | functors => exact .inl ⟨concerned, hnone⟩
    | numerals => exact .inr ⟨concerned, hnone⟩
    | _ => cases hpass

theorem Resolutions.length_open_le (resolutions : Resolutions) (program : Program) :
    ((Node.nodesOf program.clauses).filter resolutions.isOpen).length ≤
      program.feedbackNodes.length := by
  refine (List.monotone_filter_right _ fun node hopen => ?_).length_le
  obtain ⟨pass, hpass, concerned, -⟩ := isOpen_iff.mp hopen
  cases pass with
  | functors => simp [concerned]
  | numerals => simp [concerned]
  | _ => cases hpass

/-- No two passes are about the same node. -/
theorem Pass.eq_of_concerns {pass other : Pass} {node : Node} (h : pass.concerns node)
    (h' : other.concerns node) : pass = other := by
  obtain ⟨id, span, label, children⟩ := node
  cases pass <;> cases label <;> cases h <;> cases other <;> first | rfl | cases h'

/-- If a functor or numeral has another entry while none is lost, fewer are open. -/
theorem Resolutions.Retains.fewer_open {before after : Resolutions} (retains : before.Retains after)
    {nodes : List Node} {pass : Pass} (hpass : pass.feedsBack) {node : Node} (hnode : node ∈ nodes)
    (concerned : pass.concerns node)
    (differs : (after.table pass).get? node.id ≠ (before.table pass).get? node.id) :
    (nodes.filter after.isOpen).length < (nodes.filter before.isOpen).length := by
  have stays : ∀ other, after.isOpen other → before.isOpen other := by
    intro other hopen
    obtain ⟨kind, hkind, concerned, hnone⟩ := isOpen_iff.mp hopen
    refine isOpen_iff.mpr ⟨kind, hkind, concerned, Option.eq_none_iff_forall_ne_some.mpr ?_⟩
    intro value hvalue
    rw [retains.get? hkind hvalue] at hnone
    cases hnone
  have before_none : (before.table pass).get? node.id = none := by
    refine Option.eq_none_iff_forall_ne_some.mpr fun value hvalue => differs ?_
    rw [hvalue, retains.get? hpass hvalue]
  have closed : ¬ after.isOpen node := by
    intro hopen
    obtain ⟨other, -, hother, hnone⟩ := isOpen_iff.mp hopen
    obtain rfl := Pass.eq_of_concerns hother concerned
    exact differs (hnone.trans before_none.symm)
  have refined : nodes.filter after.isOpen = (nodes.filter before.isOpen).filter after.isOpen := by
    rw [List.filter_filter]
    refine List.filter_congr fun other _ => ?_
    cases hopen : after.isOpen other with
    | false => rfl
    | true => simp [stays other hopen]
  rw [refined, List.length_filter_lt_length_iff_exists]
  exact ⟨node, List.mem_filter.mpr ⟨hnode, isOpen_iff.mpr ⟨pass, hpass, concerned, before_none⟩⟩,
    closed⟩

/-! ### Rounds -/

section Congruence

variable {context : Context} {program : Program} {resolutions other : Resolutions}

theorem visitsProblem_congr {otherProgram : Program} {visits : List NodeVisit}
    (same : ∀ visit ∈ visits,
      nodeConstraints context program resolutions visit.negated visit.node =
        nodeConstraints context otherProgram other visit.negated visit.node) (problem : Problem) :
    visitsProblem context program resolutions visits problem =
      visitsProblem context otherProgram other visits problem := by
  induction visits generalizing problem with
  | nil => rfl
  | cons visit rest ih =>
      obtain ⟨hvisit, hrest⟩ := List.forall_mem_cons.mp same
      simp only [visitsProblem, hvisit, ih hrest]

/-- How a clause is solved depends on the constraints of its nodes. -/
theorem solveClause_congr {otherProgram : Program} {clause : Node}
    (same : ∀ node ∈ clause.nodes, ∀ negated,
      nodeConstraints context program resolutions negated node =
        nodeConstraints context otherProgram other negated node) :
    solveClause context program resolutions clause =
      solveClause context otherProgram other clause := by
  have problem : clauseProblem context program resolutions clause =
      clauseProblem context otherProgram other clause :=
    visitsProblem_congr (fun _ hvisit => same _ (Node.mem_nodes_of_visit hvisit) _) {}
  simp only [solveClause, problem]

/-- The solver looks at the resolutions of functors and numerals only. -/
theorem solveClauses_congr (functors : resolutions.functors = other.functors)
    (numerals : resolutions.numerals = other.numerals) (clauses : List Node) :
    solveClauses context program resolutions clauses =
      solveClauses context program other clauses := by
  have same : ∀ clause : Node, solveClause context program resolutions clause =
      solveClause context program other clause := by
    refine fun clause => solveClause_congr fun node _ negated => ?_
    simp only [nodeConstraints, functorConstraints, numeralConstraint, functors, numerals]
  induction clauses with
  | nil => rfl
  | cons clause rest ih => simp only [solveClauses, same, ih]

end Congruence

namespace Program

/-- The resolutions after a number of rounds. -/
def resolutionsAfter (context : Context) (program : Program) : Nat → Resolutions
  | 0 => {}
  | count + 1 => (program.refined context (program.resolutionsAfter context count)).1

/-- The next round takes no resolution back from a functor or numeral. -/
def RetainsAfter (context : Context) (program : Program) (count : Nat) : Prop :=
  (program.resolutionsAfter context count).Retains (program.resolutionsAfter context (count + 1))

/-- The next round changes nothing. -/
def SettledAfter (context : Context) (program : Program) (count : Nat) : Prop :=
  program.refined context (program.resolutionsAfter context count) =
    (program.resolutionsAfter context count, .ok false)

variable {context : Context} {program : Program}

theorem SettledAfter.resolutionsAfter_eq {count : Nat}
    (settled : program.SettledAfter context count) (more : Nat) :
    program.resolutionsAfter context (count + more) = program.resolutionsAfter context count := by
  induction more with
  | zero => rfl
  | succ more ih =>
      rw [← Nat.add_assoc, resolutionsAfter, ih, show program.refined context _ = _ from settled]

theorem SettledAfter.retainsAfter {count : Nat} (settled : program.SettledAfter context count)
    {later : Nat} (hle : count ≤ later) : program.RetainsAfter context later := by
  obtain ⟨more, rfl⟩ := Nat.exists_eq_add_of_le hle
  rw [RetainsAfter, Nat.add_assoc, settled.resolutionsAfter_eq, settled.resolutionsAfter_eq]
  exact .refl _

section Class

variable (hcontext : Context.ofProgram program = .ok context) (unionFree : context.env.UnionFree)
  (flat : context.env.NothingBelowRecords) (shaped : program.WellShaped context)

include hcontext unionFree flat shaped

theorem lawful_resolutionsAfter (count : Nat) :
    (program.resolutionsAfter context count).Lawful program := by
  obtain ⟨acyclic, kinded, stops⟩ := conditions_of_unionFree hcontext unionFree flat
  induction count with
  | zero => exact Resolutions.lawful_empty program
  | succ count ih =>
      obtain ⟨after, changed, hrefined, lawful⟩ :=
        refined_eq_ok hcontext acyclic kinded shaped (stops _) ih
      rwa [resolutionsAfter, hrefined]

theorem refined_resolutionsAfter (count : Nat) :
    ∃ changed, program.refined context (program.resolutionsAfter context count) =
      (program.resolutionsAfter context (count + 1), .ok changed) := by
  obtain ⟨acyclic, kinded, stops⟩ := conditions_of_unionFree hcontext unionFree flat
  obtain ⟨after, changed, hrefined, -⟩ := refined_eq_ok hcontext acyclic kinded shaped (stops _)
    (lawful_resolutionsAfter hcontext unionFree flat shaped count)
  exact ⟨changed, by rw [resolutionsAfter, hrefined]⟩

section Distinct

variable (distinct : ((Node.nodesOf program.clauses).map Node.id).Nodup)

include distinct

/-- If a round leaves all functors and numerals with their entries, it leaves the
tables of both as they are, and the next round changes nothing. -/
theorem settledAfter_of_same {count : Nat}
    (same : ∀ pass : Pass, pass.feedsBack → ∀ node ∈ Node.nodesOf program.clauses,
      pass.concerns node →
        ((program.resolutionsAfter context (count + 1)).table pass).get? node.id =
          ((program.resolutionsAfter context count).table pass).get? node.id) :
    (program.resolutionsAfter context (count + 1)).numerals =
        (program.resolutionsAfter context count).numerals ∧
      program.SettledAfter context (count + 1) := by
  obtain ⟨changed, hrefined⟩ := refined_resolutionsAfter hcontext unionFree flat shaped count
  -- the clauses pose the same problems again, and all nodes are stable
  obtain ⟨functors, numerals, stable⟩ := Pass.runAll_stable distinct hrefined same
  refine ⟨numerals, Pass.runAll_of_stable fun pass _ node hnode => ?_⟩
  rw [knowledge, solveClauses_congr functors numerals]
  exact stable pass node hnode

/-- A round that takes nothing back resolves a functor or numeral, or the next one
changes nothing. -/
theorem settledAfter_or_fewer {count : Nat} (retains : program.RetainsAfter context count) :
    program.SettledAfter context (count + 1) ∨
      ((Node.nodesOf program.clauses).filter
          (program.resolutionsAfter context (count + 1)).isOpen).length <
        ((Node.nodesOf program.clauses).filter
          (program.resolutionsAfter context count).isOpen).length := by
  by_cases same : ∀ pass : Pass, pass.feedsBack → ∀ node ∈ Node.nodesOf program.clauses,
      pass.concerns node →
        ((program.resolutionsAfter context (count + 1)).table pass).get? node.id =
          ((program.resolutionsAfter context count).table pass).get? node.id
  · exact .inl (settledAfter_of_same hcontext unionFree flat shaped distinct same).2
  · push Not at same
    obtain ⟨pass, hpass, node, hnode, concerned, differs⟩ := same
    exact .inr (Resolutions.Retains.fewer_open retains hpass hnode concerned differs)

/-- If no round from some on takes anything back, one that is not much later changes
nothing. -/
theorem exists_settledAfter {start : Nat}
    (retains : ∀ count ≥ start, program.RetainsAfter context count) :
    ∃ count, 0 < count ∧ count < start + program.feedbackNodes.length + 2 ∧
      program.SettledAfter context count := by
  by_contra unsettled
  -- otherwise each of these rounds resolves one more, and there are not that many
  have falls : ∀ count ≤ program.feedbackNodes.length + 1,
      ((Node.nodesOf program.clauses).filter
          (program.resolutionsAfter context (start + count)).isOpen).length + count ≤
        program.feedbackNodes.length := by
    intro count hcount
    induction count with
    | zero => exact Resolutions.length_open_le _ program
    | succ count ih =>
        rcases settledAfter_or_fewer hcontext unionFree flat shaped distinct
          (retains (start + count) (Nat.le_add_right _ _)) with settled | fewer
        · exact absurd ⟨start + count + 1, by omega, by omega, settled⟩ unsettled
        · have earlier := ih (by omega)
          rw [← Nat.add_assoc start count 1]
          omega
  have all := falls _ le_rfl
  omega

end Distinct

/-- A run returns exactly if some round before the limit, the first one apart,
changes nothing. -/
theorem runFrom_fault (account : Bool) (limit remaining done : Nat) (analysis : Analysis)
    (hanalysis : analysis.resolutions = program.resolutionsAfter context done) :
    (∃ count, done ≤ count ∧ 0 < count ∧ count < done + remaining ∧
        program.SettledAfter context count) ∧
      (Analysis.runFrom context program account limit remaining done analysis).fault = none ∨
    (∀ count, done ≤ count → 0 < count → count < done + remaining →
        ¬ program.SettledAfter context count) ∧
      (Analysis.runFrom context program account limit remaining done analysis).fault =
        some (.unsettled limit) := by
  obtain ⟨acyclic, -, stops⟩ := conditions_of_unionFree hcontext unionFree flat
  induction remaining generalizing done analysis with
  | zero => exact .inr ⟨fun count hle _ hlt => by omega, rfl⟩
  | succ remaining ih =>
      obtain ⟨changed, hrefined⟩ := refined_resolutionsAfter hcontext unionFree flat shaped done
      obtain ⟨hresolutions, hflag⟩ := round_eq hcontext acyclic shaped
        { analysis with iterations := done + 1 } (stops _) account
      rcases hround : Analysis.round { analysis with iterations := done + 1 } context program
        account with ⟨next, flag⟩
      rw [hround, hanalysis, hrefined] at hresolutions hflag
      obtain rfl : flag = .ok changed := hflag
      simp only [Analysis.runFrom, hround]
      -- the first round is never the last, whatever it changes
      by_cases goesOn : (decide (done = 0) || changed) = true
      · rw [if_pos goesOn]
        rcases ih (done + 1) next hresolutions with
          ⟨⟨count, hle, hpos, hlt, settled⟩, hfault⟩ | ⟨unsettled, hfault⟩
        · exact .inl ⟨⟨count, by omega, hpos, by omega, settled⟩, hfault⟩
        · refine .inr ⟨fun count hle hpos hlt settled => ?_, hfault⟩
          rcases Nat.lt_or_ge done count with later | now
          · exact unsettled count later hpos (by omega) settled
          · obtain rfl : count = done := by omega
            obtain rfl : changed = true := by simpa [hpos.ne'] using goesOn
            rw [SettledAfter, hrefined] at settled
            cases congrArg Prod.snd settled
      · rw [if_neg goesOn]
        obtain ⟨hdone, rfl⟩ : done ≠ 0 ∧ changed = false := by simpa using goesOn
        have settled : program.SettledAfter context done := by
          rw [SettledAfter, hrefined, Pass.runAll_unchanged hrefined]
          rfl
        exact .inl ⟨⟨done, le_rfl, by omega, by omega, settled⟩, rfl⟩

theorem run_fault (account : Bool) (limit : Nat) :
    (∃ count, 0 < count ∧ count < limit ∧ program.SettledAfter context count) ∧
      (Analysis.run {} context program account limit).fault = none ∨
    (∀ count, 0 < count → count < limit → ¬ program.SettledAfter context count) ∧
      (Analysis.run {} context program account limit).fault = some (.unsettled limit) := by
  rcases runFrom_fault hcontext unionFree flat shaped account limit limit 0 {} rfl with
    ⟨⟨count, -, hpos, hlt, settled⟩, hfault⟩ | ⟨unsettled, hfault⟩
  · exact .inl ⟨⟨count, hpos, by omega, settled⟩, hfault⟩
  · exact .inr ⟨fun count hpos hlt => unsettled count (Nat.zero_le _) hpos (by omega), hfault⟩

end Class

/-- Without unions and subset types of records, the analysis of a program returns
under every limit that is high enough exactly if, from some round on, no functor or
numeral loses its resolution or gets another. It does then under every limit that
leaves two rounds more than that and one for each functor and numeral. If there is
no such round, it fails to converge under every limit. -/
theorem run_returns_iff (hcontext : Context.ofProgram program = .ok context)
    (unionFree : context.env.UnionFree) (noSubrecords : context.env.NoSubrecords)
    (shaped : program.WellShaped context)
    (distinct : ((Node.nodesOf program.clauses).map Node.id).Nodup) (account : Bool) :
    ((∃ bound, ∀ limit ≥ bound, (Analysis.run {} context program account limit).fault = none) ↔
      ∃ start, ∀ count ≥ start, program.RetainsAfter context count) ∧
    (∀ start, (∀ count ≥ start, program.RetainsAfter context count) →
      ∀ limit ≥ start + program.feedbackNodes.length + 2,
        (Analysis.run {} context program account limit).fault = none) ∧
    ((∀ start, ∃ count ≥ start, ¬ program.RetainsAfter context count) →
      ∀ limit, (Analysis.run {} context program account limit).fault =
        some (.unsettled limit)) := by
  have flat := unionFree.nothingBelowRecords noSubrecords
  have outcome := run_fault hcontext unionFree flat shaped account
  have returns : ∀ start, (∀ count ≥ start, program.RetainsAfter context count) →
      ∀ limit ≥ start + program.feedbackNodes.length + 2,
        (Analysis.run {} context program account limit).fault = none := by
    intro start retains limit hlimit
    obtain ⟨count, hpos, hlt, settled⟩ :=
      exists_settledAfter hcontext unionFree flat shaped distinct retains
    rcases outcome limit with ⟨-, hfault⟩ | ⟨unsettled, -⟩
    · exact hfault
    · exact absurd settled (unsettled count hpos (by omega))
  have retains : ∀ limit, (Analysis.run {} context program account limit).fault = none →
      ∃ start, ∀ count ≥ start, program.RetainsAfter context count := by
    intro limit hfault
    rcases outcome limit with ⟨⟨count, -, -, settled⟩, -⟩ | ⟨-, hunsettled⟩
    · exact ⟨count, fun later hle => settled.retainsAfter hle⟩
    · rw [hfault] at hunsettled
      cases hunsettled
  refine ⟨⟨?_, ?_⟩, returns, ?_⟩
  · rintro ⟨bound, hbound⟩
    exact retains bound (hbound bound le_rfl)
  · rintro ⟨start, hstart⟩
    exact ⟨_, returns start hstart⟩
  · intro withdraws limit
    rcases outcome limit with ⟨-, hfault⟩ | ⟨-, hfault⟩
    · obtain ⟨start, hstart⟩ := retains limit hfault
      obtain ⟨count, hcount, hwithdraws⟩ := withdraws start
      exact absurd (hstart count hcount) hwithdraws
    · exact hfault

end Program

/-! ### Two functors that share an argument -/

/-- A context without declarations. -/
def bareContext : Context := ⟨.builtIn, [], []⟩

/-- The clause `A(to_string((x+1))).` -/
def steadyProgram : Program where
  clauses := [.mk 0 none .clause [.mk 1 none (.atom "A") [.mk 2 none (.functor "to_string")
    [.mk 3 none (.functor "+") [.mk 4 none (.var "x") [], .mk 5 none (.numeral "1" none) []]]]]]

/-- The clause `A(to_string(x),to_number(x)).` -/
def clashingProgram : Program where
  clauses := [.mk 0 none .clause [.mk 1 none (.atom "A") [
    .mk 2 none (.functor "to_string") [.mk 3 none (.var "x") []],
    .mk 4 none (.functor "to_number") [.mk 5 none (.var "x") []]]]]

theorem bareContext_unionFree : bareContext.env.UnionFree := TypeEnv.unionFree_of_names (by decide)

theorem bareContext_noSubrecords : bareContext.env.NoSubrecords :=
  TypeEnv.noSubrecords_of_names (by decide)

theorem steadyProgram_wellShaped : steadyProgram.WellShaped bareContext where
  identified := Program.identified_of_nodup (by decide)
  shaped := by
    simp [steadyProgram, Node.nodesOf, Node.nodes, Node.IsShaped, Node.label, Node.children,
      Node.isArgument, Label.isArgument]
  targets := by simp [steadyProgram, Node.nodesOf, Node.nodes, Node.label]
  branches := by simp [steadyProgram, Node.nodesOf, Node.nodes, Node.label]

theorem clashingProgram_wellShaped : clashingProgram.WellShaped bareContext where
  identified := Program.identified_of_nodup (by decide)
  shaped := by
    simp [clashingProgram, Node.nodesOf, Node.nodes, Node.IsShaped, Node.label, Node.children,
      Node.isArgument, Label.isArgument]
  targets := by simp [clashingProgram, Node.nodesOf, Node.nodes, Node.label]
  branches := by simp [clashingProgram, Node.nodesOf, Node.nodes, Node.label]

/-- The first round resolves both functors and the numeral, and the second changes
nothing. -/
theorem run_returns_steadyProgram :
    Context.ofProgram steadyProgram = .ok bareContext ∧ bareContext.env.UnionFree ∧
      bareContext.env.NoSubrecords ∧ steadyProgram.WellShaped bareContext ∧
      ((Node.nodesOf steadyProgram.clauses).map Node.id).Nodup ∧
      (∀ count, steadyProgram.RetainsAfter bareContext count) ∧
      ∀ limit ≥ 5, (Analysis.run {} bareContext steadyProgram false limit).fault = none := by
  have hcontext : Context.ofProgram steadyProgram = .ok bareContext := by rfl
  have settled : steadyProgram.SettledAfter bareContext 1 := by
    unfold Program.SettledAfter
    decide +kernel
  have retains : ∀ count, steadyProgram.RetainsAfter bareContext count := by
    intro count
    cases count with
    | zero => exact ⟨fun id overload h => (by cases h), fun id kind h => (by cases h)⟩
    | succ count => exact settled.retainsAfter (Nat.le_add_left _ _)
  obtain ⟨-, returns, -⟩ := Program.run_returns_iff hcontext bareContext_unionFree
    bareContext_noSubrecords steadyProgram_wellShaped (by decide) false
  exact ⟨hcontext, bareContext_unionFree, bareContext_noSubrecords, steadyProgram_wellShaped,
    by decide, retains, returns 0 fun count _ => retains count⟩

/-- Every odd round resolves the two functors and every even one takes that back. -/
theorem clashingProgram_never_returns :
    Context.ofProgram clashingProgram = .ok bareContext ∧ bareContext.env.UnionFree ∧
      bareContext.env.NoSubrecords ∧ clashingProgram.WellShaped bareContext ∧
      ((Node.nodesOf clashingProgram.clauses).map Node.id).Nodup ∧
      ∀ account limit, (Analysis.run {} bareContext clashingProgram account limit).fault =
        some (.unsettled limit) := by
  have hcontext : Context.ofProgram clashingProgram = .ok bareContext := by rfl
  have period : ∀ count, clashingProgram.resolutionsAfter bareContext (count + 2) =
      clashingProgram.resolutionsAfter bareContext count := by
    intro count
    induction count with
    | zero => decide +kernel
    | succ count ih =>
        rw [Nat.add_right_comm, Program.resolutionsAfter, ih, Program.resolutionsAfter]
  have changes : ∀ count, clashingProgram.resolutionsAfter bareContext (count + 1) ≠
      clashingProgram.resolutionsAfter bareContext count := by
    intro count
    induction count with
    | zero => decide +kernel
    | succ count ih =>
        rw [period]
        exact ih.symm
  refine ⟨hcontext, bareContext_unionFree, bareContext_noSubrecords, clashingProgram_wellShaped,
    by decide, fun account limit => ?_⟩
  rcases Program.run_fault hcontext bareContext_unionFree
      (bareContext_unionFree.nothingBelowRecords bareContext_noSubrecords)
      clashingProgram_wellShaped account limit with ⟨⟨count, -, -, settled⟩, -⟩ | ⟨-, hfault⟩
  · exact absurd (settled.resolutionsAfter_eq 1) (changes count)
  · exact hfault

end DatalogTyping

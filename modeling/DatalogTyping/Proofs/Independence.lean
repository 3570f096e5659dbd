import Mathlib.Data.List.MinMax
import DatalogTyping.Proofs.Locality

/-!
# Clauses are analysed independently

The tables, the test for the end of a run and the number of its rounds are global to
a program. But if its clauses have no nodes in common, each round does to the entries
of a clause what the round of the program with only that clause does
(`Program.round?_composes`), and so do any number of rounds. A clause that settles
early is settled from then on, so a run takes as long as that of its slowest clause
and leaves for each clause what its own run leaves (`Program.run_independent`).

Outcomes of a program and of its clauses are compared by `Composes`: the program
fails if a clause does, reports a change if a clause does, and has the entries of
each clause.
-/

namespace DatalogTyping

/-! ### One thing after another -/

/-- What happens first and what happens next, with what the first leaves behind. There
is a change if either makes one. -/
def andThen (first : Option (Resolutions × Bool))
    (next : Resolutions → Option (Resolutions × Bool)) : Option (Resolutions × Bool) :=
  first.bind fun before => (next before.1).map fun after => (after.1, before.2 || after.2)

@[simp] theorem andThen_some (before : Resolutions × Bool)
    (next : Resolutions → Option (Resolutions × Bool)) :
    andThen (some before) next =
      (next before.1).map fun after => (after.1, before.2 || after.2) := rfl

theorem andThen_assoc (first : Option (Resolutions × Bool))
    (second third : Resolutions → Option (Resolutions × Bool)) :
    andThen (andThen first second) third =
      andThen first fun resolutions => andThen (second resolutions) third := by
  rcases first with _ | before
  · rfl
  · rcases hsecond : second before.1 with _ | between
    · simp [andThen, hsecond]
    · simp [andThen, hsecond, Function.comp_def, Bool.or_assoc]

/-- What changes nothing adds nothing to what follows it. -/
theorem andThen_quiet (first : Option Resolutions)
    (next : Resolutions → Option (Resolutions × Bool)) :
    andThen (first.map (·, false)) next = first.bind next := by
  rcases first with _ | resolutions
  · rfl
  · simp [andThen]

namespace Knowledge

variable {α : Type} {refine : Knowledge → α → Resolutions × Except Fault Bool} {known : Knowledge}

theorem completed?_refineEach_cons (item : α) (items : List α) :
    completed? (known.refineEach refine (item :: items)) =
      andThen (completed? (refine known item)) fun resolutions =>
        completed? (refineEach refine { known with resolutions } items) := by
  rw [refineEach]
  rcases refine known item with ⟨between, fault | here⟩
  · rfl
  · simp only [completed?, andThen_some]
    rcases refineEach refine { known with resolutions := between } items with ⟨after, _ | there⟩ <;>
      rfl

theorem completed?_refineEach_append (items more : List α) :
    completed? (known.refineEach refine (items ++ more)) =
      andThen (completed? (known.refineEach refine items)) fun resolutions =>
        completed? (refineEach refine { known with resolutions } more) := by
  induction items generalizing known with
  | nil =>
      rw [List.nil_append, refineEach, completed?]
      exact (andThen_quiet (some known.resolutions) fun resolutions =>
        completed? (refineEach refine { known with resolutions } more)).symm
  | cons item rest ih =>
      rw [List.cons_append, completed?_refineEach_cons, completed?_refineEach_cons, andThen_assoc]
      simp only [ih]

end Knowledge

namespace Pass

variable {pass : Pass} {known : Knowledge}

theorem completed?_run_append (nodes more : List Node) :
    completed? (pass.run known (nodes ++ more)) =
      andThen (completed? (pass.run known nodes)) fun resolutions =>
        completed? (pass.run { known with resolutions } more) :=
  Knowledge.completed?_refineEach_append nodes more

theorem completed?_runAll_cons (nodes : List Node) (passes : List Pass) :
    completed? (runAll known nodes (pass :: passes)) =
      andThen (completed? (pass.run known nodes)) fun resolutions =>
        completed? (runAll { known with resolutions } nodes passes) :=
  Knowledge.completed?_refineEach_cons pass passes

end Pass

/-! ### Outcomes of clauses -/

/-- The outcome for a program is made up of outcomes for its clauses. -/
structure Composes (clauses : List Node) (whole : Option (Resolutions × Bool))
    (part : Node → Option (Resolutions × Bool)) : Prop where
  fails : whole = none ↔ ∃ clause ∈ clauses, part clause = none
  agrees : ∀ {outcome}, whole = some outcome → ∀ clause ∈ clauses, ∀ {own},
    part clause = some own → outcome.1.AgreeOn clause.ids own.1
  changes : ∀ {outcome}, whole = some outcome →
    (outcome.2 = false ↔ ∀ clause ∈ clauses, ∀ {own}, part clause = some own → own.2 = false)

namespace Composes

variable {clauses : List Node} {whole : Option (Resolutions × Bool)}
  {part : Node → Option (Resolutions × Bool)} {outcome : Resolutions × Bool} {clause : Node}

theorem of_failure (hclause : clause ∈ clauses) (h : part clause = none) :
    Composes clauses none part :=
  ⟨⟨fun _ => ⟨clause, hclause, h⟩, fun _ => rfl⟩, nofun, nofun⟩

theorem of_quiet {resolutions : Resolutions} {own : Node → Resolutions}
    (agree : ∀ clause ∈ clauses, resolutions.AgreeOn clause.ids (own clause)) :
    Composes clauses (some (resolutions, false)) fun clause => some (own clause, false) := by
  refine ⟨by simp, ?_, ?_⟩
  · rintro _ ⟨⟩ clause hclause _ ⟨⟩
    exact agree clause hclause
  · rintro _ ⟨⟩
    exact ⟨fun _ clause _ own hown => by cases hown; rfl, fun _ => rfl⟩

/-- If the program does not fail, neither does a clause. -/
theorem exists_part (composes : Composes clauses (some outcome) part) (hclause : clause ∈ clauses) :
    ∃ own, part clause = some own := by
  refine Option.ne_none_iff_exists'.mp fun h => ?_
  cases composes.fails.mpr ⟨clause, hclause, h⟩

theorem congr {other : Node → Option (Resolutions × Bool)} (composes : Composes clauses whole part)
    (same : ∀ clause ∈ clauses, part clause = other clause) : Composes clauses whole other := by
  refine ⟨composes.fails.trans ?_, fun h clause hclause own hown => ?_, fun h => ?_⟩
  · exact exists_congr fun clause => and_congr_right fun hclause => by rw [same clause hclause]
  · exact composes.agrees h clause hclause ((same clause hclause).trans hown)
  · refine (composes.changes h).trans (forall₂_congr fun clause hclause => ?_)
    rw [same clause hclause]

/-- What is reported can be replaced by anything else that is reported likewise. -/
theorem mapFlag (composes : Composes clauses whole part) (flag : Bool → Bool)
    (flags : Node → Bool → Bool)
    (h : ∀ {outcome}, whole = some outcome → (flag outcome.2 = false ↔
      ∀ clause ∈ clauses, ∀ {own}, part clause = some own → flags clause own.2 = false)) :
    Composes clauses (whole.map fun outcome => (outcome.1, flag outcome.2))
      fun clause => (part clause).map fun own => (own.1, flags clause own.2) := by
  refine ⟨by simpa using composes.fails, ?_, ?_⟩
  · intro outcome houtcome clause hclause own hown
    obtain ⟨before, hbefore, rfl⟩ := Option.map_eq_some_iff.mp houtcome
    obtain ⟨first, hfirst, rfl⟩ := Option.map_eq_some_iff.mp hown
    have agrees := composes.agrees hbefore clause hclause hfirst
    exact agrees
  · intro outcome houtcome
    obtain ⟨before, hbefore, rfl⟩ := Option.map_eq_some_iff.mp houtcome
    refine (h hbefore).trans (forall₂_congr fun clause hclause => ⟨fun quiet own hown => ?_, ?_⟩)
    · obtain ⟨first, hfirst, rfl⟩ := Option.map_eq_some_iff.mp hown
      exact quiet hfirst
    · intro quiet own hown
      exact quiet (Option.map_eq_some_iff.mpr ⟨own, hown, rfl⟩)

/-- What is made up of outcomes for clauses stays so if something happens to these that
is made up likewise. -/
theorem andThen {next : Resolutions → Option (Resolutions × Bool)}
    {nextPart : Node → Resolutions → Option (Resolutions × Bool)}
    (composes : Composes clauses whole part)
    (h : ∀ (resolutions : Resolutions) (own : Node → Resolutions),
      (∀ clause ∈ clauses, resolutions.AgreeOn clause.ids (own clause)) →
        Composes clauses (next resolutions) fun clause => nextPart clause (own clause)) :
    Composes clauses (DatalogTyping.andThen whole next)
      fun clause => DatalogTyping.andThen (part clause) (nextPart clause) := by
  cases whole with
  | none =>
      obtain ⟨clause, hclause, hpart⟩ := composes.fails.mp rfl
      exact of_failure hclause (by rw [hpart]; rfl)
  | some before =>
      have parts : ∀ clause : Node, ∃ own, clause ∈ clauses → part clause = some own := by
        intro clause
        by_cases hclause : clause ∈ clauses
        · obtain ⟨own, hown⟩ := composes.exists_part hclause
          exact ⟨own, fun _ => hown⟩
        · exact ⟨before, fun h => absurd h hclause⟩
      choose own hown using parts
      have later := h before.1 (fun clause => (own clause).1) fun clause hclause =>
        composes.agrees rfl clause hclause (hown clause hclause)
      have both := later.mapFlag (before.2 || ·) (fun clause => ((own clause).2 || ·)) <| by
        intro outcome houtcome
        rw [Bool.or_eq_false_iff, composes.changes rfl, later.changes houtcome]
        constructor
        · rintro ⟨quiet, quietLater⟩ clause hclause after hafter
          rw [quiet clause hclause (hown clause hclause), quietLater clause hclause hafter]
          rfl
        · intro quiet
          refine ⟨fun clause hclause first hfirst => ?_, fun clause hclause after hafter => ?_⟩
          · rw [houtcome] at later
            obtain ⟨after, hafter⟩ := later.exists_part hclause
            obtain rfl := Option.some.inj ((hown clause hclause).symm.trans hfirst)
            exact (Bool.or_eq_false_iff.mp (quiet clause hclause hafter)).1
          · exact (Bool.or_eq_false_iff.mp (quiet clause hclause hafter)).2
      refine both.congr fun clause hclause => ?_
      rw [hown clause hclause, andThen_some]

/-- One clause more, with something done to it that leaves the others alone, and then
something done to the others that leaves it alone. -/
theorem cons {first own : Resolutions × Bool} (hown : part clause = some own)
    (same : first.2 = own.2) (rest : Composes clauses whole part)
    (kept : ∀ {outcome}, whole = some outcome → outcome.1.AgreeOn clause.ids own.1) :
    Composes (clause :: clauses) (whole.map fun after => (after.1, first.2 || after.2)) part := by
  refine ⟨?_, ?_, ?_⟩
  · simpa [hown] using rest.fails
  · intro outcome houtcome
    obtain ⟨after, hafter, rfl⟩ := Option.map_eq_some_iff.mp houtcome
    refine List.forall_mem_cons.mpr ⟨fun {own'} hown' => ?_, fun other hother {own'} hown' => ?_⟩
    · obtain rfl := Option.some.inj (hown.symm.trans hown')
      have agrees := kept hafter
      exact agrees
    · have agrees := rest.agrees hafter other hother hown'
      exact agrees
  · intro outcome houtcome
    obtain ⟨after, hafter, rfl⟩ := Option.map_eq_some_iff.mp houtcome
    rw [List.forall_mem_cons, ← rest.changes hafter, Bool.or_eq_false_iff, same]
    refine and_congr_left fun _ => ⟨fun quiet own' hown' => ?_, fun quiet => quiet hown⟩
    obtain rfl := Option.some.inj (hown.symm.trans hown')
    exact quiet

end Composes

/-! ### Passes over the nodes of clauses -/

namespace Pass

variable {clauses : List Node} {known : Knowledge} {part : Node → Knowledge}

/-- A pass over the nodes of one clause does not depend on what is known of others. -/
theorem run_clause {clause : Node} {pass : Pass} {other : Knowledge}
    (agree : known.AgreeOn clause.ids other) {outcome : Resolutions × Bool}
    (h : completed? (pass.run known clause.nodes) = some outcome) :
    ∃ own, completed? (pass.run other clause.nodes) = some own ∧ outcome.2 = own.2 ∧
      outcome.1.AgreeOn clause.ids own.1 := by
  have closed : ∀ node ∈ clause.nodes,
      node.id ∈ clause.ids ∧ ∀ child ∈ node.children, child.id ∈ clause.ids :=
    fun node hnode => ⟨Node.id_mem_ids hnode,
      fun child hchild => Node.id_mem_ids (Node.child_mem_nodes hnode hchild)⟩
  obtain ⟨others, hothers, agrees⟩ := run_local agree closed (completed?_eq_some.mp h)
  exact ⟨(others, outcome.2), completed?_eq_some.mpr hothers, rfl, agrees⟩

/-- A pass over other nodes leaves the entries of a clause alone. -/
theorem run_agreeOn {pass : Pass} {nodes : List Node} {ids : List NodeId}
    (elsewhere : ∀ id ∈ ids, id ∉ nodes.map Node.id) {outcome : Resolutions × Bool}
    (h : completed? (pass.run known nodes) = some outcome) :
    outcome.1.AgreeOn ids known.resolutions := by
  obtain ⟨untouched, entries⟩ := run_frame (completed?_eq_some.mp h)
  intro kind id hid
  by_cases hkind : kind = pass
  · subst hkind
    exact entries id (elsewhere id hid)
  · rw [untouched kind hkind]

theorem run_composes (apart : clauses.Pairwise Node.Apart)
    (agree : ∀ clause ∈ clauses, known.AgreeOn clause.ids (part clause)) (pass : Pass) :
    Composes clauses (completed? (pass.run known (Node.nodesOf clauses)))
      fun clause => completed? (pass.run (part clause) clause.nodes) := by
  induction clauses generalizing known with
  | nil => exact ⟨by simp [Node.nodesOf, run, Knowledge.refineEach, completed?], by simp,
      by simp [Node.nodesOf, run, Knowledge.refineEach, completed?]⟩
  | cons clause rest ih =>
      obtain ⟨hclause, hrest⟩ := List.pairwise_cons.mp apart
      obtain ⟨agreeHere, agreeThere⟩ := List.forall_mem_cons.mp agree
      rw [Node.nodesOf, completed?_run_append]
      cases hfirst : completed? (pass.run known clause.nodes) with
      | none =>
          refine .of_failure List.mem_cons_self (Option.eq_none_iff_forall_ne_some.mpr ?_)
          intro own hown
          obtain ⟨outcome, houtcome, -⟩ := run_clause agreeHere.symm hown
          cases hfirst.symm.trans houtcome
      | some first =>
          obtain ⟨own, hown, same, agrees⟩ := run_clause agreeHere hfirst
          have agreeLater : ∀ other ∈ rest,
              Knowledge.AgreeOn other.ids { known with resolutions := first.1 } (part other) := by
            intro other hother
            refine ⟨(agreeThere other hother).context, (agreeThere other hother).types, ?_⟩
            have untouched := run_agreeOn (fun id hid h => hclause other hother id h hid) hfirst
            exact untouched.trans (agreeThere other hother).resolutions
          rw [andThen_some]
          refine (ih hrest agreeLater).cons hown same fun {outcome} houtcome => ?_
          refine (run_agreeOn (fun id hid h => ?_) houtcome).trans agrees
          obtain ⟨node, hnode, rfl⟩ := List.mem_map.mp h
          obtain ⟨other, hother, hnode⟩ := Node.mem_nodesOf.mp hnode
          exact hclause other hother _ hid (Node.id_mem_ids hnode)

theorem runAll_composes (apart : clauses.Pairwise Node.Apart)
    (agree : ∀ clause ∈ clauses, known.AgreeOn clause.ids (part clause)) (passes : List Pass) :
    Composes clauses (completed? (runAll known (Node.nodesOf clauses) passes))
      fun clause => completed? (runAll (part clause) clause.nodes passes) := by
  induction passes generalizing known part with
  | nil => exact .of_quiet fun clause hclause => (agree clause hclause).resolutions
  | cons pass rest ih =>
      simp only [completed?_runAll_cons]
      exact (run_composes apart agree pass).andThen fun resolutions own h =>
        ih fun clause hclause => (agree clause hclause).with_resolutions (h clause hclause)

end Pass

/-! ### Rounds -/

namespace Program

/-- The program with a clause as its only one. -/
def only (program : Program) (clause : Node) : Program :=
  { program with clauses := [clause] }

variable {context : Context} {program : Program} {resolutions : Resolutions}

theorem nodesOf_only (clause : Node) :
    Node.nodesOf (program.only clause).clauses = clause.nodes := by
  simp [only, Node.nodesOf]

/-- The clause is solved as the only one as it is among others. -/
theorem solveClauses_only {clause : Node} {own : Resolutions}
    (agree : resolutions.AgreeOn clause.ids own) {solved : List SolvedClause} :
    solveClauses context (program.only clause) own (program.only clause).clauses = (solved, none) ↔
      ∃ one, solved = [one] ∧ solveClause context program resolutions clause = .ok one := by
  have same : solveClause context program resolutions clause =
      solveClause context (program.only clause) own clause := solveClause_local rfl agree
  rw [solveClauses_eq_iff, same]
  constructor
  · rintro (_ | ⟨hone, ⟨⟩⟩)
    exact ⟨_, rfl, hone⟩
  · rintro ⟨one, rfl, hone⟩
    exact .cons hone .nil

/-- What is known about the nodes of a clause is what is known if it is the only one. -/
theorem knowledge_agreeOn (apart : program.ClausesApart) {solved : List SolvedClause}
    (hsolved : solveClauses context program resolutions program.clauses = (solved, none))
    {clause : Node} (hclause : clause ∈ program.clauses) {own : Resolutions}
    (agree : resolutions.AgreeOn clause.ids own) :
    (program.knowledge context resolutions).AgreeOn clause.ids
      ((program.only clause).knowledge context own) := by
  obtain ⟨one, hmem, hone⟩ := exists_mem_of_forall₂ (solveClauses_eq_iff.mp hsolved) hclause
  refine ⟨rfl, fun id hid => ?_, agree⟩
  have apart' : (solved.map SolvedClause.clause).Pairwise Node.Apart := by
    rwa [solveClauses_clauses hsolved]
  rw [knowledge, hsolved, knowledge, (solveClauses_only agree).mpr ⟨one, rfl, hone⟩]
  rw [← solveClause_clause hone] at hid
  exact get?_tabulate_solved apart' hmem hid

/-- A round does to each clause what its own round does. -/
theorem round?_composes (context : Context) (apart : program.ClausesApart)
    {own : Node → Resolutions}
    (agree : ∀ clause ∈ program.clauses, resolutions.AgreeOn clause.ids (own clause)) :
    Composes program.clauses (program.round? context resolutions)
      fun clause => (program.only clause).round? context (own clause) := by
  by_cases solvable : ∃ solved,
      solveClauses context program resolutions program.clauses = (solved, none)
  · obtain ⟨solved, hsolved⟩ := solvable
    have known : ∀ clause ∈ program.clauses, (program.knowledge context resolutions).AgreeOn
        clause.ids ((program.only clause).knowledge context (own clause)) :=
      fun clause hclause => knowledge_agreeOn apart hsolved hclause (agree clause hclause)
    rw [round?, hsolved]
    refine (Pass.runAll_composes apart known Pass.all).congr fun clause hclause => ?_
    obtain ⟨one, hone⟩ := exists_solved_iff.mp ⟨solved, hsolved⟩ clause hclause
    rw [round?, (solveClauses_only (agree clause hclause)).mpr ⟨one, rfl, hone⟩, refined,
      nodesOf_only]
  · have whole : program.round? context resolutions = none := by
      refine Option.eq_none_iff_forall_ne_some.mpr fun outcome houtcome => solvable ?_
      obtain ⟨solved, hsolved, -⟩ := round?_eq_some.mp houtcome
      exact ⟨solved, hsolved⟩
    simp only [exists_solved_iff, not_forall, not_exists] at solvable
    obtain ⟨clause, hclause, unsolved⟩ := solvable
    rw [whole]
    refine .of_failure hclause (Option.eq_none_iff_forall_ne_some.mpr fun outcome houtcome => ?_)
    obtain ⟨solved, hsolved, -⟩ := round?_eq_some.mp houtcome
    obtain ⟨one, -, hone⟩ := (solveClauses_only (agree clause hclause)).mp hsolved
    exact unsolved one hone

/-- The outcome of the round after a number of them. -/
def roundAfter? (context : Context) (program : Program) (start : Resolutions) (count : Nat) :
    Option (Resolutions × Bool) :=
  (program.resolvedAfter? context start count).bind (program.round? context)

theorem resolvedAfter?_succ_eq (start : Resolutions) (count : Nat) :
    program.resolvedAfter? context start (count + 1) =
      (program.roundAfter? context start count).map Prod.fst := by
  rw [resolvedAfter?, roundAfter?, Option.map_bind]
  rfl

theorem settlesAt_iff {start : Resolutions} {count : Nat} :
    program.SettlesAt context start count ↔
      ∃ after, program.roundAfter? context start count = some (after, false) := by
  simp only [SettlesAt, roundAfter?, Option.bind_eq_some_iff]
  constructor
  · rintro ⟨resolutions, h, settled⟩
    exact ⟨resolutions, resolutions, h, settled⟩
  · rintro ⟨after, resolutions, h, hround⟩
    exact ⟨resolutions, h, (round?_unchanged hround).2⟩

/-- Any number of rounds do to each clause what as many of its own do, and so does the
round after them. -/
theorem roundAfter?_composes (context : Context) (apart : program.ClausesApart)
    (start : Resolutions) (count : Nat) :
    Composes program.clauses ((program.resolvedAfter? context start count).map (·, false))
        (fun clause => ((program.only clause).resolvedAfter? context start count).map (·, false)) ∧
      Composes program.clauses (program.roundAfter? context start count)
        (fun clause => (program.only clause).roundAfter? context start count) := by
  have next : ∀ {count}, Composes program.clauses
        ((program.resolvedAfter? context start count).map (·, false))
        (fun clause => ((program.only clause).resolvedAfter? context start count).map (·, false)) →
      Composes program.clauses (program.roundAfter? context start count)
        (fun clause => (program.only clause).roundAfter? context start count) := by
    intro count composes
    have later := composes.andThen fun resolutions own h => round?_composes context apart h
    simp only [andThen_quiet] at later
    exact later
  induction count with
  | zero =>
      have begin : Composes program.clauses (some (start, false)) fun _ => some (start, false) :=
        .of_quiet fun _ _ _ _ _ => rfl
      exact ⟨begin, next begin⟩
  | succ count ih =>
      have composes : Composes program.clauses
          ((program.resolvedAfter? context start (count + 1)).map (·, false))
          (fun clause =>
            ((program.only clause).resolvedAfter? context start (count + 1)).map (·, false)) := by
        simp only [resolvedAfter?_succ_eq, Option.map_map]
        exact ih.2.mapFlag (fun _ => false) (fun _ _ => false) (by simp)
      exact ⟨composes, next composes⟩

/-- A program is settled once all its clauses are. -/
theorem settlesAt_iff_forall (apart : program.ClausesApart) {start : Resolutions} {count : Nat} :
    program.SettlesAt context start count ↔
      ∀ clause ∈ program.clauses, (program.only clause).SettlesAt context start count := by
  have composes := (roundAfter?_composes context apart start count).2
  simp only [settlesAt_iff]
  constructor
  · rintro ⟨after, hafter⟩ clause hclause
    have quiet := (composes.changes hafter).mp rfl
    rw [hafter] at composes
    obtain ⟨own, hown⟩ := composes.exists_part hclause
    exact ⟨own.1, hown.trans (congrArg some (Prod.ext rfl (quiet clause hclause hown)))⟩
  · intro settles
    cases hwhole : program.roundAfter? context start count with
    | none =>
        obtain ⟨clause, hclause, hnone⟩ := composes.fails.mp hwhole
        obtain ⟨after, hafter⟩ := settles clause hclause
        cases hnone.symm.trans hafter
    | some outcome =>
        have quiet : outcome.2 = false := by
          refine (composes.changes hwhole).mpr fun clause hclause own hown => ?_
          obtain ⟨after, hafter⟩ := settles clause hclause
          cases hown.symm.trans hafter
          rfl
        exact ⟨outcome.1, congrArg some (Prod.ext rfl quiet)⟩

end Program

/-! ### Runs -/

namespace Analysis

variable {context : Context} {program : Program} {account : Bool} {limit : Nat}
  {analysis : Analysis}

theorem run_returns_iff_settlesAt :
    (analysis.run context program account limit).fault = none ↔
      ∃ count, 0 < count ∧ count < limit ∧
        program.SettlesAt context analysis.resolutions count := by
  rcases run_outcome context program account analysis limit with
    ⟨count, hlt, ends⟩ | ⟨unsettled, fails⟩
  · exact iff_of_true ends.returns
      ⟨count, ends.positive, hlt, _, ends.reached, ends.final.settled⟩
  · refine iff_of_false fails ?_
    rintro ⟨count, hpos, hlt, settles⟩
    exact unsettled count hpos hlt settles

/-- A run that ends changes nothing in any round after its last. -/
theorem Run.EndsAfter.reached_later {run : Run} {start : Resolutions} {count later : Nat}
    (ends : run.EndsAfter context program account start count) (hle : count ≤ later) :
    program.resolvedAfter? context start later = some run.analysis.resolutions :=
  Program.resolvedAfter?_of_settled ends.reached ends.final.settled hle

theorem Run.EndsAfter.le_iff {run : Run} {start : Resolutions} {count other : Nat}
    (ends : run.EndsAfter context program account start count) (hpos : 0 < other) :
    count ≤ other ↔ program.SettlesAt context start other := by
  constructor
  · intro hle
    exact Program.SettlesAt.mono ⟨_, ends.reached, ends.final.settled⟩ hle
  · intro settles
    by_contra h
    exact ends.first other hpos (Nat.lt_of_not_le h) settles

end Analysis

namespace Program

variable {context : Context} {program : Program} {account : Bool} {limit : Nat} {clause : Node}

theorem run_returns_iff_forall (apart : program.ClausesApart) (hlimit : 2 ≤ limit) :
    (program.run context account limit).fault = none ↔
      ∀ clause ∈ program.clauses,
        ((program.only clause).run context account limit).fault = none := by
  simp only [run, Analysis.run_returns_iff_settlesAt]
  constructor
  · rintro ⟨count, hpos, hlt, settles⟩ clause hclause
    exact ⟨count, hpos, hlt, (settlesAt_iff_forall apart).mp settles clause hclause⟩
  · intro h
    -- the last round there could be comes after all of these
    refine ⟨limit - 1, by omega, by omega, (settlesAt_iff_forall apart).mpr ?_⟩
    intro clause hclause
    obtain ⟨count, -, hlt, settles⟩ := h clause hclause
    exact settles.mono (by omega)

/-- What a run that returns has in common with that of a clause alone. -/
structure IncludesRun (context : Context) (program : Program) (account : Bool) (limit : Nat)
    (clause : Node) : Prop where
  typing : ∃ one, solveClause context program
      (program.run context account limit).analysis.resolutions clause = .ok one ∧
    ((program.only clause).run context account limit).analysis.typings = [one.typing]
  known : Knowledge.AgreeOn clause.ids
    ((program.run context account limit).analysis.known context)
    (((program.only clause).run context account limit).analysis.known context)

theorem run_includes (apart : program.ClausesApart)
    (returns : (program.run context account limit).fault = none)
    (hclause : clause ∈ program.clauses) : program.IncludesRun context account limit clause := by
  obtain ⟨count, hlt, ends⟩ := Analysis.run_returns returns
  have settles : (program.only clause).SettlesAt context {} count :=
    (settlesAt_iff_forall apart).mp ⟨_, ends.reached, ends.final.settled⟩ clause hclause
  have returns' : ((program.only clause).run context account limit).fault = none :=
    Analysis.run_returns_iff_settlesAt.mpr ⟨count, ends.positive, hlt, settles⟩
  obtain ⟨count', -, ends'⟩ := Analysis.run_returns returns'
  have reached' := ends'.reached_later ((ends'.le_iff ends.positive).mpr settles)
  have agree := (roundAfter?_composes context apart {} count).1.agrees
    (congrArg (Option.map (·, false)) ends.reached) clause hclause
    (congrArg (Option.map (·, false)) reached')
  obtain ⟨solved, hsolved, -⟩ := ends.final.recorded
  obtain ⟨solved', hsolved', recorded'⟩ := ends'.final.recorded
  obtain ⟨one, rfl, hone⟩ := (solveClauses_only agree).mp hsolved'
  refine ⟨⟨one, hone, (congrArg Analysis.typings recorded').symm⟩, ?_⟩
  have hknown := ends.final.known_eq
  have hknown' := ends'.final.known_eq
  rw [run, run, hknown, hknown']
  exact knowledge_agreeOn apart hsolved hclause agree

/-- The typings are those of the clauses alone, in order. -/
theorem typings_run (apart : program.ClausesApart)
    (returns : (program.run context account limit).fault = none) :
    List.Forall₂ (fun clause typing =>
        ((program.only clause).run context account limit).analysis.typings = [typing])
      program.clauses (program.run context account limit).analysis.typings := by
  obtain ⟨count, -, ends⟩ := Analysis.run_returns returns
  obtain ⟨solved, hsolved, recorded⟩ := ends.final.recorded
  have solves := (List.forall₂_and_left _ _).mpr
    ⟨fun clause hclause => run_includes apart returns hclause, solveClauses_eq_iff.mp hsolved⟩
  have htypings : (program.run context account limit).analysis.typings =
      solved.map SolvedClause.typing := (congrArg Analysis.typings recorded).symm
  rw [htypings, List.forall₂_map_right_iff]
  refine solves.imp ?_
  rintro clause one ⟨includes, hone⟩
  obtain ⟨same, hsame, htyping⟩ := includes.typing
  obtain rfl := Except.ok.inj (hsame.symm.trans hone)
  exact htyping

/-- The number of rounds is that of the longest run for a clause alone, or two. -/
theorem iterations_run (apart : program.ClausesApart)
    (returns : (program.run context account limit).fault = none) :
    (program.run context account limit).analysis.iterations =
      max 2 ((program.clauses.map fun clause =>
        ((program.only clause).run context account limit).analysis.iterations).foldr max 0) := by
  obtain ⟨count, hlt, ends⟩ := Analysis.run_returns returns
  have hpos := ends.positive
  have single : ∀ clause ∈ program.clauses, ∃ own, Analysis.Run.EndsAfter context
      (program.only clause) account {} own ((program.only clause).run context account limit) := by
    intro clause hclause
    have returns' := (run_returns_iff_forall apart (by omega)).mp returns clause hclause
    obtain ⟨own, -, ends'⟩ := Analysis.run_returns returns'
    exact ⟨own, ends'⟩
  rw [show (program.run context account limit).analysis.iterations = count + 1 from ends.iterations]
  refine le_antisymm ?_ (max_le (by omega) (List.max_le_of_forall_le _ _ ?_))
  · set longest := max 2 ((program.clauses.map fun clause =>
        ((program.only clause).run context account limit).analysis.iterations).foldr max 0)
    have two : 2 ≤ longest := le_max_left _ _
    have settles : program.SettlesAt context {} (longest - 1) := by
      refine (settlesAt_iff_forall apart).mpr fun clause hclause => ?_
      obtain ⟨own, ends'⟩ := single clause hclause
      have hle : own + 1 ≤ longest := by
        rw [← ends'.iterations]
        have among := List.mem_map_of_mem (f := fun clause =>
          ((program.only clause).run context account limit).analysis.iterations) hclause
        exact (List.le_max_of_le' 0 among (Nat.le_refl _)).trans (le_max_right _ _)
      exact (ends'.le_iff (by omega)).mp (by omega)
    have := (ends.le_iff (by omega)).mpr settles
    omega
  · intro rounds hrounds
    obtain ⟨clause, hclause, rfl⟩ := List.mem_map.mp hrounds
    obtain ⟨own, ends'⟩ := single clause hclause
    rw [ends'.iterations]
    have settles := (settlesAt_iff_forall apart).mp ⟨_, ends.reached, ends.final.settled⟩
      clause hclause
    exact Nat.succ_le_succ ((ends'.le_iff hpos).mpr settles)

/-- With clauses that have no nodes in common, a run returns exactly if the run for each
clause alone does. It then has the typings of these runs, for the nodes of each clause
the same sets of types and resolutions as its own run, and takes as many rounds as the
longest of them, or two. So what it leaves for a clause does not depend on the others. -/
theorem run_independent (context : Context) (apart : program.ClausesApart) (account : Bool)
    (hlimit : 2 ≤ limit) :
    (∀ clause, Context.ofProgram (program.only clause) = Context.ofProgram program) ∧
    ((program.run context account limit).fault = none ↔ ∀ clause ∈ program.clauses,
      ((program.only clause).run context account limit).fault = none) ∧
    ((program.run context account limit).fault = none →
      List.Forall₂ (fun clause typing =>
          ((program.only clause).run context account limit).analysis.typings = [typing])
        program.clauses (program.run context account limit).analysis.typings ∧
      (∀ clause ∈ program.clauses, Knowledge.AgreeOn clause.ids
        ((program.run context account limit).analysis.known context)
        (((program.only clause).run context account limit).analysis.known context)) ∧
      (program.run context account limit).analysis.iterations =
        max 2 ((program.clauses.map fun clause =>
          ((program.only clause).run context account limit).analysis.iterations).foldr max 0)) ∧
    ∀ other : Program, other.types = program.types → other.relations = program.relations →
      other.functors = program.functors → other.ClausesApart →
      (program.run context account limit).fault = none →
      (other.run context account limit).fault = none →
      ∀ clause ∈ program.clauses, clause ∈ other.clauses → Knowledge.AgreeOn clause.ids
        ((program.run context account limit).analysis.known context)
        ((other.run context account limit).analysis.known context) := by
  refine ⟨fun _ => rfl, run_returns_iff_forall apart hlimit, fun returns => ?_, ?_⟩
  · exact ⟨typings_run apart returns,
      fun clause hclause => (run_includes apart returns hclause).known,
      iterations_run apart returns⟩
  · intro other types relations functors apart' returns returns' clause hclause hclause'
    have same : other.only clause = program.only clause := by
      simp only [only, types, relations, functors]
    have known' := (run_includes apart' returns' hclause').known
    rw [same] at known'
    exact (run_includes apart returns hclause).known.trans known'.symm

/-- The clause of `waveringProgram` and `C(1).` -/
def pairedProgram : Program where
  clauses := waveringProgram.clauses ++
    [.mk 13 none .clause [.mk 14 none (.atom "C") [.mk 15 none (.numeral "1" none) []]]]

/-- The clauses take four rounds and two, so both together take four. -/
theorem run_independent_pairedProgram :
    Context.ofProgram pairedProgram = .ok bareContext ∧ pairedProgram.ClausesApart ∧
      (pairedProgram.clauses.map fun clause =>
        ((pairedProgram.only clause).run bareContext true 5).analysis.iterations) = [4, 2] ∧
      (pairedProgram.run bareContext true 5).fault = none ∧
      (pairedProgram.run bareContext true 5).analysis.iterations = 4 := by
  have apart : pairedProgram.ClausesApart := by
    unfold ClausesApart Node.Apart
    decide
  have alone : ∀ clause ∈ pairedProgram.clauses,
      ((pairedProgram.only clause).run bareContext true 5).fault = none := by decide +kernel
  have rounds : pairedProgram.clauses.map (fun clause =>
      ((pairedProgram.only clause).run bareContext true 5).analysis.iterations) = [4, 2] := by
    decide +kernel
  obtain ⟨-, returns_iff, together, -⟩ :=
    run_independent bareContext apart true (show 2 ≤ 5 by decide)
  have returns := returns_iff.mpr alone
  have longest := (together returns).2.2
  rw [rounds] at longest
  exact ⟨by rfl, apart, rounds, returns, longest⟩

end Program

end DatalogTyping

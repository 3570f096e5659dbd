import DatalogTyping.Proofs.Convergence
import DatalogTyping.Session

/-!
# Runs of the analysis

A round solves the clauses under the resolutions so far and refines these, so what
it does depends on the resolutions alone (`Program.round?`). A run returns exactly
if a round before the limit, the first one apart, changes nothing, and it ends with
the first such round (`Analysis.run_outcome`).

The sets of types that a run ends with were found under the resolutions before its
last round, and that round changed none of them. So they are what solving under
the final resolutions finds, and to run again is to repeat a round that changes
nothing, twice (`SessionM.analyse_again`).
-/

namespace DatalogTyping

/-! ### Passes -/

/-- What passes leave behind, and whether they changed anything, unless one failed. -/
def completed? : Resolutions × Except Fault Bool → Option (Resolutions × Bool)
  | (resolutions, .ok changed) => some (resolutions, changed)
  | (_, .error _) => none

theorem completed?_eq_some {outcome : Resolutions × Except Fault Bool} {after : Resolutions}
    {changed : Bool} :
    completed? outcome = some (after, changed) ↔ outcome = (after, .ok changed) := by
  obtain ⟨resolutions, fault | flag⟩ := outcome <;> simp [completed?]

namespace Pass

variable {known : Knowledge} {nodes : List Node} {passes : List Pass} {resolutions : Resolutions}

/-- If the passes report no change together, each does so by itself. -/
theorem runAll_quiet (h : runAll known nodes passes = (resolutions, .ok false)) :
    ∀ pass ∈ passes, pass.run known nodes = (known.resolutions, .ok false) := by
  induction passes with
  | nil => simp
  | cons pass rest ih =>
      obtain ⟨between, here, there, hrun, hrest, flags⟩ := runAll_cons_eq_ok h
      obtain ⟨rfl, rfl⟩ : here = false ∧ there = false := by simpa using flags.symm
      obtain rfl := (run_unchanged hrun).1
      exact List.forall_mem_cons.mpr ⟨hrun, ih hrest⟩

end Pass

/-! ### Rounds -/

namespace Program

/-- What a round makes of the resolutions, and whether it changes them, unless it
fails. -/
def round? (context : Context) (program : Program) (resolutions : Resolutions) :
    Option (Resolutions × Bool) :=
  match (solveClauses context program resolutions program.clauses).2 with
  | some _ => none
  | none => completed? (program.refined context resolutions)

/-- A round that starts with the resolutions changes nothing. -/
def IsSettled (context : Context) (program : Program) (resolutions : Resolutions) : Prop :=
  program.round? context resolutions = some (resolutions, false)

variable {context : Context} {program : Program} {resolutions after : Resolutions} {changed : Bool}

theorem round?_eq_some :
    program.round? context resolutions = some (after, changed) ↔
      ∃ solved, solveClauses context program resolutions program.clauses = (solved, none) ∧
        program.refined context resolutions = (after, .ok changed) := by
  unfold round?
  rcases solveClauses context program resolutions program.clauses with ⟨solved, _ | fault⟩
  · simp [completed?_eq_some]
  · simp

/-- A round that reports no change leaves the resolutions as they are. -/
theorem round?_unchanged (h : program.round? context resolutions = some (after, false)) :
    after = resolutions ∧ program.IsSettled context resolutions := by
  obtain ⟨-, -, hrefined⟩ := round?_eq_some.mp h
  obtain rfl := Pass.runAll_unchanged hrefined
  exact ⟨rfl, h⟩

/-- Where nothing changes, no pass reports a change. -/
theorem IsSettled.run_eq (settled : program.IsSettled context resolutions) {pass : Pass}
    (hpass : pass ∈ Pass.all) :
    pass.run (program.knowledge context resolutions) (Node.nodesOf program.clauses) =
      (resolutions, .ok false) := by
  obtain ⟨-, -, hrefined⟩ := round?_eq_some.mp settled
  exact Pass.runAll_quiet hrefined pass hpass

/-- Where nothing changes, every node is stable for every pass. -/
theorem IsSettled.isStable (settled : program.IsSettled context resolutions) (pass : Pass)
    {node : Node} (hnode : node ∈ Node.nodesOf program.clauses) :
    (program.knowledge context resolutions).IsStable pass node :=
  (Pass.run_unchanged (settled.run_eq (by cases pass <;> decide))).2 node hnode

/-- The resolutions after a number of rounds, unless one of them fails. -/
def resolvedAfter? (context : Context) (program : Program) (start : Resolutions) :
    Nat → Option Resolutions
  | 0 => some start
  | count + 1 => (program.resolvedAfter? context start count).bind fun resolutions =>
      (program.round? context resolutions).map Prod.fst

/-- The round after the given number of them changes nothing. -/
def SettlesAt (context : Context) (program : Program) (start : Resolutions) (count : Nat) : Prop :=
  ∃ resolutions, program.resolvedAfter? context start count = some resolutions ∧
    program.IsSettled context resolutions

variable {start : Resolutions} {count : Nat}

theorem resolvedAfter?_succ
    (h : program.resolvedAfter? context start count = some resolutions) :
    program.resolvedAfter? context start (count + 1) =
      (program.round? context resolutions).map Prod.fst := by
  simp [resolvedAfter?, h]

theorem resolvedAfter?_eq_none (h : program.resolvedAfter? context start count = none) {later : Nat}
    (hle : count ≤ later) : program.resolvedAfter? context start later = none := by
  induction later, hle using Nat.le_induction with
  | base => exact h
  | succ later _ ih => simp [resolvedAfter?, ih]

/-- Once a round changes nothing, no later one does. -/
theorem resolvedAfter?_of_settled
    (h : program.resolvedAfter? context start count = some resolutions)
    (settled : program.IsSettled context resolutions) {later : Nat} (hle : count ≤ later) :
    program.resolvedAfter? context start later = some resolutions := by
  induction later, hle using Nat.le_induction with
  | base => exact h
  | succ later _ ih => rw [resolvedAfter?_succ ih, settled]; rfl

theorem SettlesAt.mono (settles : program.SettlesAt context start count) {later : Nat}
    (hle : count ≤ later) : program.SettlesAt context start later := by
  obtain ⟨resolutions, h, settled⟩ := settles
  exact ⟨resolutions, resolvedAfter?_of_settled h settled hle, settled⟩

end Program

namespace Analysis

variable {context : Context} {program : Program} {account : Bool} {analysis after : Analysis}
  {resolutions : Resolutions} {solved : List SolvedClause} {changed : Bool}

/-- A round whose clauses are solved records the solutions and refines the
resolutions. -/
theorem round_of_solved
    (hsolved : solveClauses context program analysis.resolutions program.clauses =
      (solved, none)) :
    analysis.round context program account =
      ({ analysis.record account solved with
          resolutions := (program.refined context analysis.resolutions).1 },
        (program.refined context analysis.resolutions).2) := by
  simp only [round, solve_eq, hsolved, refine, Program.refined, Program.knowledge]
  rfl

theorem round_of_round?
    (hsolved : solveClauses context program analysis.resolutions program.clauses =
      (solved, none))
    (hround : program.round? context analysis.resolutions = some (resolutions, changed)) :
    analysis.round context program account =
      ({ analysis.record account solved with resolutions }, .ok changed) := by
  obtain ⟨-, -, hrefined⟩ := Program.round?_eq_some.mp hround
  rw [round_of_solved hsolved, hrefined]

/-- All that a completed round does. -/
theorem round_eq_ok (h : analysis.round context program account = (after, .ok changed)) :
    ∃ solved resolutions,
      solveClauses context program analysis.resolutions program.clauses = (solved, none) ∧
      program.round? context analysis.resolutions = some (resolutions, changed) ∧
      after = { analysis.record account solved with resolutions } := by
  rcases hsolved : solveClauses context program analysis.resolutions program.clauses with
    ⟨solved, _ | fault⟩
  · rw [round_of_solved hsolved] at h
    obtain ⟨rfl, hflag⟩ := Prod.mk.inj h
    exact ⟨solved, _, rfl, Program.round?_eq_some.mpr ⟨solved, hsolved, Prod.ext rfl hflag⟩, rfl⟩
  · simp only [round, solve_eq, hsolved] at h
    cases (Prod.mk.inj h).2

/-- A round that fails has no outcome. -/
theorem round?_eq_none {fault : Fault}
    (h : (analysis.round context program account).2 = .error fault) :
    program.round? context analysis.resolutions = none := by
  refine Option.eq_none_iff_forall_ne_some.mpr ?_
  rintro ⟨resolutions, changed⟩ hround
  obtain ⟨solved, hsolved, -⟩ := Program.round?_eq_some.mp hround
  rw [round_of_round? hsolved hround] at h
  cases h

/-! ### Runs -/

/-- What an analysis holds at the end of a run: the resolutions are settled, and the
rest is what solving the clauses under them yields. -/
structure IsFinal (context : Context) (program : Program) (account : Bool)
    (analysis : Analysis) : Prop where
  settled : program.IsSettled context analysis.resolutions
  recorded : ∃ solved, solveClauses context program analysis.resolutions program.clauses =
    (solved, none) ∧ analysis.record account solved = analysis

theorem IsFinal.round_eq (final : analysis.IsFinal context program account) :
    analysis.round context program account = (analysis, .ok false) := by
  obtain ⟨solved, hsolved, recorded⟩ := final.recorded
  rw [round_of_round? hsolved final.settled, recorded]

theorem IsFinal.with_iterations (final : analysis.IsFinal context program account)
    (iterations : Nat) : IsFinal context program account { analysis with iterations } := by
  obtain ⟨solved, hsolved, recorded⟩ := final.recorded
  refine ⟨final.settled, solved, hsolved, ?_⟩
  rw [← recorded]
  rfl

theorem IsFinal.known_eq (final : analysis.IsFinal context program account) :
    analysis.known context = program.knowledge context analysis.resolutions := by
  obtain ⟨solved, hsolved, recorded⟩ := final.recorded
  have htypes : analysis.types = tabulate (solved.map SolvedClause.typing) :=
    (congrArg Analysis.types recorded).symm
  rw [known, htypes, Program.knowledge, hsolved]

/-- To run an analysis that is final already takes two rounds and changes nothing. -/
theorem IsFinal.run_eq (final : analysis.IsFinal context program account) {limit : Nat}
    (hlimit : 2 ≤ limit) :
    analysis.run context program account limit =
      { analysis := { analysis with iterations := 2 }
        rounds := [false, false]
        fault := none } := by
  obtain ⟨remaining, rfl⟩ := Nat.exists_eq_add_of_le' hlimit
  have first := (final.with_iterations 1).round_eq
  have second := (final.with_iterations 2).round_eq
  simp [run, runFrom, first, second]

/-- A run that returns after `count + 1` rounds, the last of which is the first to
change nothing. -/
structure Run.EndsAfter (context : Context) (program : Program) (account : Bool)
    (start : Resolutions) (count : Nat) (run : Run) : Prop where
  positive : 0 < count
  first : ∀ earlier, 0 < earlier → earlier < count → ¬ program.SettlesAt context start earlier
  returns : run.fault = none
  iterations : run.analysis.iterations = count + 1
  reached : program.resolvedAfter? context start count = some run.analysis.resolutions
  final : run.analysis.IsFinal context program account

/-- A run that has `done` rounds behind it returns if one of those it is allowed
changes nothing, the very first apart, and fails otherwise. -/
theorem runFrom_outcome {start : Resolutions} (limit remaining done : Nat)
    (reached : program.resolvedAfter? context start done = some analysis.resolutions)
    (unsettled : ∀ count, 0 < count → count < done → ¬ program.SettlesAt context start count) :
    (∃ count < done + remaining, Run.EndsAfter context program account start count
      (runFrom context program account limit remaining done analysis)) ∨
    ((∀ count, 0 < count → count < done + remaining →
        ¬ program.SettlesAt context start count) ∧
      (runFrom context program account limit remaining done analysis).fault ≠ none) := by
  induction remaining generalizing done analysis with
  | zero => exact .inr ⟨unsettled, by simp [runFrom]⟩
  | succ remaining ih =>
      rcases hround : round { analysis with iterations := done + 1 } context program account with
        ⟨next, fault | changed⟩
      · -- a round that fails leaves nothing for later ones to start with
        have failure : (round { analysis with iterations := done + 1 } context program
            account).2 = .error fault := by rw [hround]
        have fails := round?_eq_none failure
        refine .inr ⟨fun count hpos _ settles => ?_, by simp [runFrom, hround]⟩
        obtain ⟨resolutions, hresolutions, settled⟩ := settles
        rcases Nat.lt_trichotomy count done with hlt | rfl | hlt
        · exact unsettled count hpos hlt ⟨resolutions, hresolutions, settled⟩
        · obtain rfl := Option.some.inj (reached.symm.trans hresolutions)
          cases fails.symm.trans settled
        · have stuck : program.resolvedAfter? context start (done + 1) = none := by
            rw [Program.resolvedAfter?_succ reached, fails]
            rfl
          cases (Program.resolvedAfter?_eq_none stuck hlt).symm.trans hresolutions
      · obtain ⟨solved, resolutions, hsolved, hresolved, hnext⟩ := round_eq_ok hround
        have reached' : program.resolvedAfter? context start (done + 1) =
            some next.resolutions := by
          rw [Program.resolvedAfter?_succ reached, hresolved, hnext]
          rfl
        simp only [runFrom, hround]
        by_cases goesOn : (decide (done = 0) || changed) = true
        · rw [if_pos goesOn]
          have unsettled' : ∀ count, 0 < count → count < done + 1 →
              ¬ program.SettlesAt context start count := by
            intro count hpos hlt
            rcases Nat.lt_or_eq_of_le (Nat.lt_succ_iff.mp hlt) with hlt | rfl
            · exact unsettled count hpos hlt
            · -- this round is not the very first, so it goes on because of a change
              rintro ⟨other, hother, settled⟩
              obtain rfl := Option.some.inj (reached.symm.trans hother)
              obtain rfl : changed = true := by simpa [hpos.ne'] using goesOn
              cases settled.symm.trans hresolved
          rcases ih (done + 1) reached' unsettled' with ⟨count, hlt, ends⟩ | ⟨never, fails⟩
          · exact .inl ⟨count, by omega, ⟨ends.positive, ends.first, ends.returns, ends.iterations,
              ends.reached, ends.final⟩⟩
          · exact .inr ⟨fun count hpos hlt => never count hpos (by omega), fails⟩
        · rw [if_neg goesOn]
          obtain ⟨later, rfl⟩ : done ≠ 0 ∧ changed = false := by simpa using goesOn
          obtain ⟨rfl, settled⟩ := Program.round?_unchanged hresolved
          subst hnext
          exact .inl ⟨done, by omega, Nat.pos_of_ne_zero later, unsettled, rfl, rfl, reached,
            settled, solved, hsolved, rfl⟩

/-- A run returns exactly if a round before the limit, the very first apart, changes
nothing, and ends with the first such round. -/
theorem run_outcome (context : Context) (program : Program) (account : Bool) (analysis : Analysis)
    (limit : Nat) :
    (∃ count < limit, Run.EndsAfter context program account analysis.resolutions count
      (analysis.run context program account limit)) ∨
    ((∀ count, 0 < count → count < limit →
        ¬ program.SettlesAt context analysis.resolutions count) ∧
      (analysis.run context program account limit).fault ≠ none) := by
  have outcome := @runFrom_outcome context program account analysis analysis.resolutions limit
    limit 0 rfl (by omega)
  rwa [Nat.zero_add] at outcome

theorem run_returns {limit : Nat} (h : (analysis.run context program account limit).fault = none) :
    ∃ count < limit, Run.EndsAfter context program account analysis.resolutions count
      (analysis.run context program account limit) :=
  (run_outcome context program account analysis limit).resolve_right fun fails => fails.2 h

end Analysis

/-- The run of a new analysis. -/
def Program.run (program : Program) (context : Context) (account : Bool) (limit : Nat) :
    Analysis.Run :=
  Analysis.run {} context program account limit

/-! ### Runs in a session -/

/-- The clause `A(to_number(x),(x+y)) :- x = sum z : { B(z) }.` -/
def waveringProgram : Program where
  clauses := [.mk 0 none .clause [
    .mk 1 none (.atom "A") [
      .mk 2 none (.functor "to_number") [.mk 3 none (.var "x") []],
      .mk 4 none (.functor "+") [.mk 5 none (.var "x") [], .mk 6 none (.var "y") []]],
    .mk 7 none (.comparison .eq) [.mk 8 none (.var "x") [],
      .mk 9 none (.aggregate .sum true) [.mk 10 none (.var "z") [],
        .mk 11 none (.atom "B") [.mk 12 none (.var "z") []]]]]]

namespace SessionM

open Session

/-- The run that analysing a session makes. -/
def begun (session : Session) : Analysis.Run :=
  session.analysis.run session.context session.program session.options.wantsTypeAnalysis
    session.options.maxIterations

/-- The session once the run is over. -/
def concluded (session : Session) : Session :=
  { session with
    analysis := (begun session).analysis
    err := session.err ++ roundsText session.report 1 (begun session).rounds }

/-- Show the account of the run if it is wanted. Says how many rounds it took. -/
def recount (session : Session) : SessionM Nat := do
  if session.options.showsTypeAnalysis then
    let text ← attempt ((begun session).analysis.account session.context session.program)
    modify fun session => { session with out := session.out ++ text ++ "\n" }
  return (begun session).analysis.iterations

/-- The account of the run can be shown, if it is wanted at all. -/
def CanRecount (session : Session) : Prop :=
  session.options.showsTypeAnalysis →
    ∃ text, (begun session).analysis.account session.context session.program = .ok text

variable {session after : Session} {count : Nat}

theorem analyse_eq (session : Session) :
    analyse session =
      (failOn (begun session).fault >>= fun _ => recount session) (concluded session) := rfl

theorem recount_eq (session state : Session) :
    (CanRecount session ∧ ∃ out, recount session state =
      (.ok (begun session).analysis.iterations, { state with out })) ∨
    (¬ CanRecount session ∧ ∃ fault, recount session state = (.error fault, state)) := by
  by_cases shown : session.options.showsTypeAnalysis = true
  · cases haccount : (begun session).analysis.account session.context session.program with
    | ok text =>
        refine .inl ⟨fun _ => ⟨text, haccount⟩, state.out ++ text ++ "\n", ?_⟩
        simp only [recount, shown, haccount]
        rfl
    | error fault =>
        refine .inr ⟨fun can => ?_, fault, ?_⟩
        · obtain ⟨text, htext⟩ := can shown
          cases haccount.symm.trans htext
        · simp only [recount, shown, haccount]
          rfl
  · refine .inl ⟨fun h => absurd h shown, state.out, ?_⟩
    simp only [recount, shown]
    rfl

theorem analyse_eq_ok (returns : (begun session).fault = none) (can : CanRecount session) :
    ∃ out, analyse session =
      (.ok (begun session).analysis.iterations, { concluded session with out }) := by
  rw [analyse_eq, returns]
  rcases recount_eq session (concluded session) with ⟨-, hrecount⟩ | ⟨cannot, -⟩
  · exact hrecount
  · exact absurd can cannot

/-- All that analysing a session does, if it returns. -/
theorem analyse_returns (returns : analyse session = (.ok count, after)) :
    (begun session).fault = none ∧ CanRecount session ∧
      ∃ out, after = { concluded session with out } := by
  rw [analyse_eq] at returns
  cases hfault : (begun session).fault with
  | some fault =>
      rw [hfault] at returns
      cases (Prod.mk.inj returns).1
  | none =>
      rw [hfault] at returns
      rcases recount_eq session (concluded session) with ⟨can, out, hrecount⟩ | ⟨-, fault, hrecount⟩
      · exact ⟨rfl, can, out, (Prod.mk.inj (returns.symm.trans hrecount)).2⟩
      · cases (Prod.mk.inj (returns.symm.trans hrecount)).1

/-- Once the analysis of a session has returned, the sets of types are those that
solving its clauses under the resolutions yields, and no pass of refinement would
change these. To analyse the session again takes two rounds that change nothing,
and everything but the number of rounds is as it was. -/
theorem analyse_again (returns : analyse session = (.ok count, after)) :
    (∃ solved, solveClauses after.context after.program after.analysis.resolutions
        after.program.clauses = (solved, none) ∧
      after.analysis.typings = solved.map SolvedClause.typing ∧
      after.analysis.types = tabulate after.analysis.typings) ∧
    (∀ pass ∈ Pass.all, pass.run after.known (Node.nodesOf after.program.clauses) =
      (after.analysis.resolutions, .ok false)) ∧
    ∃ again, analyse after = (.ok 2, again) ∧ (begun after).rounds = [false, false] ∧
      again.analysis = { after.analysis with iterations := 2 } ∧
      ∀ node, again.known.typesOf node = after.known.typesOf node := by
  obtain ⟨hfault, can, out, rfl⟩ := analyse_returns returns
  obtain ⟨rounds, hlimit, ends⟩ := Analysis.run_returns hfault
  obtain ⟨solved, hsolved, recorded⟩ := ends.final.recorded
  have htypings : (begun session).analysis.typings = solved.map SolvedClause.typing :=
    (congrArg Analysis.typings recorded).symm
  have htypes : (begun session).analysis.types = tabulate (begun session).analysis.typings := by
    rw [htypings]
    exact (congrArg Analysis.types recorded).symm
  have hlimit : 2 ≤ session.options.maxIterations :=
    Nat.le_trans (Nat.succ_le_succ ends.positive) hlimit
  have hagain : begun { concluded session with out } =
      { analysis := { (begun session).analysis with iterations := 2 }
        rounds := [false, false]
        fault := none } := ends.final.run_eq hlimit
  refine ⟨⟨solved, hsolved, htypings, htypes⟩, fun pass hpass => ?_, ?_⟩
  · have hrun := ends.final.settled.run_eq hpass
    rwa [← ends.final.known_eq] at hrun
  · have canAgain : CanRecount { concluded session with out } := by
      unfold CanRecount
      rw [hagain]
      exact can
    obtain ⟨out', hanalyse⟩ := analyse_eq_ok (congrArg Analysis.Run.fault hagain) canAgain
    rw [congrArg (·.analysis.iterations) hagain] at hanalyse
    refine ⟨_, hanalyse, congrArg Analysis.Run.rounds hagain, ?_, fun node => ?_⟩
    · exact congrArg Analysis.Run.analysis hagain
    · exact congrArg (fun run => (run.analysis.known session.context).typesOf node) hagain

def waveringSession : Session where
  program := waveringProgram
  context := bareContext
  options := { maxIterations := 4 }
  report := {}
  files := {}
  next := 13

/-- The second round takes back what the first chose for the sum, the third chooses
afresh and the fourth changes nothing. -/
theorem analyse_again_waveringSession :
    ∃ after again, analyse waveringSession = (.ok 4, after) ∧ analyse after = (.ok 2, again) ∧
      again.analysis = { after.analysis with iterations := 2 } := by
  have returns : (begun waveringSession).fault = none ∧
      (begun waveringSession).analysis.iterations = 4 := by decide +kernel
  obtain ⟨out, hanalyse⟩ := analyse_eq_ok returns.1 fun h => (by cases h)
  rw [returns.2] at hanalyse
  obtain ⟨-, -, again, hagain, -, same, -⟩ := analyse_again hanalyse
  exact ⟨_, again, hanalyse, hagain, same⟩

end SessionM

end DatalogTyping

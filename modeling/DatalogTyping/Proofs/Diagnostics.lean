import DatalogTyping.Proofs.Accounts

/-!
# Diagnostics do not interfere

The settings of a session ask for reports, and the analysis then keeps an account of what
it does: traces of the solutions and annotated copies of the clauses. Nothing it finds
depends on that.

Take the account away from an analysis (`Analysis.findings`). A round that keeps an account
does to the rest what a round does that keeps none (`round_findings`), since the clauses
that are solved can always be annotated. By induction so does a run (`run_findings`). And
if the run returns, the account can be given, so that asking to see it does not make the
session fail (`analyse_outcome`).
-/

namespace DatalogTyping

namespace Analysis

/-- An analysis without the account it keeps. -/
def findings (analysis : Analysis) : Analysis := { analysis with annotated := [], logs := [] }

/-- Two analyses that found the same. They may differ in the account they keep. -/
structure SameFindings (analysis other : Analysis) : Prop where
  iterations : analysis.iterations = other.iterations
  resolutions : analysis.resolutions = other.resolutions
  typings : analysis.typings = other.typings
  types : analysis.types = other.types

theorem sameFindings_iff {analysis other : Analysis} :
    analysis.SameFindings other ↔ analysis.findings = other.findings := by
  obtain ⟨iterations, resolutions, typings, types, annotated, logs⟩ := analysis
  obtain ⟨iterations', resolutions', typings', types', annotated', logs'⟩ := other
  constructor
  · rintro ⟨⟨⟩, ⟨⟩, ⟨⟩, ⟨⟩⟩
    rfl
  · intro h
    obtain ⟨rfl, rfl, rfl, rfl, -, -⟩ := Analysis.mk.inj h
    exact ⟨rfl, rfl, rfl, rfl⟩

/-- An account changes nothing else about a round. -/
theorem round_findings (analysis : Analysis) (context : Context) (program : Program)
    (account : Bool) :
    analysis.findings.round context program false =
      ((analysis.round context program account).1.findings,
        (analysis.round context program account).2) := by
  have resolutions : analysis.findings.resolutions = analysis.resolutions := rfl
  simp only [round, solve_eq, resolutions]
  rcases solveClauses context program analysis.resolutions program.clauses with
    ⟨solved, _ | fault⟩
  · rfl
  · rfl

/-- A run without the account it kept. -/
def Run.findings (run : Run) : Run := { run with analysis := run.analysis.findings }

/-- An account changes nothing else about a run. -/
theorem runFrom_findings (context : Context) (program : Program) (account : Bool)
    (limit remaining done : Nat) (analysis : Analysis) :
    runFrom context program false limit remaining done analysis.findings =
      (runFrom context program account limit remaining done analysis).findings := by
  induction remaining generalizing done analysis with
  | zero => rfl
  | succ remaining ih =>
      have hround := round_findings { analysis with iterations := done + 1 } context program account
      rw [show findings { analysis with iterations := done + 1 } =
        { analysis.findings with iterations := done + 1 } from rfl] at hround
      rcases h : round { analysis with iterations := done + 1 } context program account with
        ⟨after, fault | changed⟩
      · rw [h] at hround
        simp only [runFrom, hround, h]
        rfl
      · rw [h] at hround
        simp only [runFrom, hround, h, ih]
        split <;> rfl

theorem run_findings (analysis : Analysis) (context : Context) (program : Program)
    (account : Bool) (limit : Nat) :
    analysis.findings.run context program false limit =
      (analysis.run context program account limit).findings :=
  runFrom_findings context program account limit limit 0 analysis

end Analysis

namespace Session

/-- Two sessions that are to analyse the same program, for as many rounds, and have found
the same so far. They may differ in the reports they show. -/
structure Alike (session other : Session) : Prop where
  program : session.program = other.program
  context : session.context = other.context
  limit : session.options.maxIterations = other.options.maxIterations
  findings : session.analysis.SameFindings other.analysis

theorem new_alike {program : Program} {options options' : Options} {report report' : Option Report}
    {files files' : Files} {picks picks' : List Nat} {next next' : NodeId} {session other : Session}
    (h : new program options report files picks next = .ok session)
    (h' : new program options' report' files' picks' next' = .ok other)
    (limit : options.maxIterations = options'.maxIterations) : session.Alike other := by
  obtain ⟨context, hcontext, h⟩ := bind_eq_ok.mp h
  obtain ⟨context', hcontext', h'⟩ := bind_eq_ok.mp h'
  obtain rfl := Except.ok.inj (hcontext.symm.trans hcontext')
  obtain rfl := Except.ok.inj h
  obtain rfl := Except.ok.inj h'
  exact ⟨rfl, rfl, limit, rfl, rfl, rfl, rfl⟩

end Session

namespace SessionM

open Session

variable {session other : Session}

theorem begun_findings (alike : session.Alike other) :
    (begun session).findings = (begun other).findings := by
  have findings := Analysis.sameFindings_iff.mp alike.findings
  rw [begun, begun, ← Analysis.run_findings, ← Analysis.run_findings, findings, alike.program,
    alike.context, alike.limit]

/-- Analysing a session comes out as its run does. If that returns, the account can be
given and is shown if it is wanted. -/
theorem analyse_outcome (session : Session) :
    ∃ out, analyse session =
      ((begun session).fault.elim (.ok (begun session).analysis.iterations) .error,
        { concluded session with out }) := by
  cases hfault : (begun session).fault with
  | none => exact analyse_eq_ok hfault (canRecount hfault)
  | some fault =>
      refine ⟨(concluded session).out, ?_⟩
      rw [analyse_eq, hfault]
      rfl

/-- What a session shows does not affect what it finds. Two sessions that are alike but
for their reports come out the same, with the same number of rounds or the same fault, and
are alike again: they end with the same resolutions and the same types. The program is
what it was. In any state of the resolutions, all clauses that can be solved can be
annotated, which leaves them as they are. And if a run returns, its account can be given,
whether one was asked for or not. -/
theorem analyse_alike (alike : session.Alike other) :
    (analyse session).1 = (analyse other).1 ∧
    (analyse session).2.Alike (analyse other).2 ∧
    (∀ node, (analyse session).2.known.typesOf node = (analyse other).2.known.typesOf node) ∧
    (analyse session).2.program = session.program ∧
    (∀ resolutions typings, typings = (solveClauses session.context session.program resolutions
        session.program.clauses).1.map SolvedClause.typing →
      typings.map ClauseTyping.clause <+: session.program.clauses ∧
      (ClauseTyping.annotateAll true typings).Complete typings) ∧
    ((begun session).fault = none →
      (analyse session).1 = .ok (begun session).analysis.iterations ∧
      ∃ text, (analyse session).2.analysis.account session.context session.program = .ok text) := by
  obtain ⟨out, outcome⟩ := analyse_outcome session
  obtain ⟨out', outcome'⟩ := analyse_outcome other
  have hbegun := begun_findings alike
  have sameFault := congrArg Analysis.Run.fault hbegun
  have fault : (begun session).fault = (begun other).fault := sameFault
  have findings : (begun session).analysis.SameFindings (begun other).analysis :=
    Analysis.sameFindings_iff.mpr (congrArg Analysis.Run.analysis hbegun)
  have known : (begun session).analysis.known session.context =
      (begun other).analysis.known other.context := by
    rw [Analysis.known, Analysis.known, alike.context, findings.resolutions, findings.types]
  rw [outcome, outcome']
  refine ⟨?_, ⟨alike.program, alike.context, alike.limit, findings⟩, ?_, rfl, ?_, ?_⟩
  · rw [fault, findings.iterations]
  · exact fun node => congrArg (·.typesOf node) known
  · intro resolutions typings htypings
    refine ⟨?_, annotateAll_complete _ _ resolutions htypings⟩
    rw [htypings, List.map_map]
    exact (solveClauses_first session.context session.program resolutions _).1
  · intro returns
    obtain ⟨count, -, ends⟩ := Analysis.run_returns returns
    rw [returns]
    exact ⟨rfl, ends.final.account_eq_ok⟩

/-- The clause `A(("s"+1),_) :- sum x : { B(x) } < x.`, whose addition fits no
overload. -/
def mixedProgram : Program where
  clauses := [.mk 0 none .clause [
    .mk 1 none (.atom "A") [
      .mk 2 none (.functor "+") [.mk 3 none (.string "s") [], .mk 4 none (.numeral "1" none) []],
      .mk 5 none .wildcard []],
    .mk 6 none (.comparison .lt) [
      .mk 7 none (.aggregate .sum true) [.mk 8 none (.var "x") [],
        .mk 9 none (.atom "B") [.mk 10 none (.var "x") []]],
      .mk 11 none (.var "x") []]]]

def mixedSession (options : Options) : Session where
  program := mixedProgram
  context := bareContext
  options
  report := { verbose := options.verbose }
  files := {}
  next := 12

/-- One session shows nothing, the other everything. Both return after two rounds with the
same types, the addition still unresolved, and both can give an account. -/
theorem analyse_alike_mixedProgram :
    ∃ plain shown : Session,
      Session.new mixedProgram {} none {} [] 12 = .ok plain ∧
      Session.new mixedProgram
        { shows := [some "type-analysis"], debugReport := true, verbose := 2 } none {} [] 12 =
          .ok shown ∧
      (analyse plain).1 = .ok 2 ∧ (analyse shown).1 = .ok 2 ∧
      (analyse plain).2.analysis.SameFindings (analyse shown).2.analysis ∧
      (begun plain).analysis.resolutions.functors.get? 2 = none ∧
      ∃ text, (analyse plain).2.analysis.account plain.context mixedProgram = .ok text := by
  have quiet : Session.new mixedProgram {} none {} [] 12 = .ok (mixedSession {}) := by rfl
  have loud : Session.new mixedProgram
      { shows := [some "type-analysis"], debugReport := true, verbose := 2 } none {} [] 12 =
        .ok (mixedSession
          { shows := [some "type-analysis"], debugReport := true, verbose := 2 }) := by rfl
  have returns : (begun (mixedSession {})).fault = none ∧
      (begun (mixedSession {})).analysis.iterations = 2 ∧
      (begun (mixedSession {})).analysis.resolutions.functors.get? 2 = none := by decide +kernel
  obtain ⟨same, alike, -, -, -, account⟩ := analyse_alike (Session.new_alike quiet loud rfl)
  obtain ⟨hcount, text, htext⟩ := account returns.1
  rw [returns.2.1] at hcount
  exact ⟨_, _, quiet, loud, hcount, same.symm.trans hcount, alike.findings, returns.2.2, text,
    htext⟩

end SessionM

end DatalogTyping

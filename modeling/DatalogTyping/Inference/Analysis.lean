import DatalogTyping.Inference.Annotate
import DatalogTyping.Inference.Refine

/-!
# The analysis of a program

Solving each clause and refining the resolutions alternate until the resolutions
stop changing. The first round never counts as settled, because the solutions it
was refining were found before anything was resolved.

Whatever a run gets to know stays known when it fails.
-/

namespace DatalogTyping

/-- The state of an analysis. -/
structure Analysis where
  /-- The number of the last round begun. -/
  iterations : Nat := 0
  resolutions : Resolutions := {}
  /-- The typings of the clauses that the last round solved. -/
  typings : List ClauseTyping := []
  /-- The set of types of each argument. -/
  types : Table TypeSet := .empty
  /-- The annotated clauses of the last round, if it kept an account. -/
  annotated : List Node := []
  /-- The traces of the solutions of the last round, if it kept an account. -/
  logs : List String := []

/-- Solve clauses one after another, as far as possible. -/
def solveClauses (context : Context) (program : Program) (resolutions : Resolutions) :
    List Node → List SolvedClause × Option Fault
  | [] => ([], none)
  | clause :: rest =>
    match solveClause context program resolutions clause with
    | .error fault => ([], some fault)
    | .ok solved =>
      let (others, fault) := solveClauses context program resolutions rest
      (solved :: others, fault)

/-- The sets of types of the arguments of all typings. -/
def tabulate (typings : List ClauseTyping) : Table TypeSet :=
  (typings.flatMap ClauseTyping.entries).foldl
    (fun table entry => table.insert entry.1.id entry.2) .empty

namespace Analysis

/-- What the analysis knows. -/
def known (analysis : Analysis) (context : Context) : Knowledge where
  context
  resolutions := analysis.resolutions
  types := analysis.types

/-- Replace what the last round found; `account` says whether to keep an account
of it. -/
def record (analysis : Analysis) (account : Bool) (solved : List SolvedClause) : Analysis :=
  let typings := solved.map SolvedClause.typing
  { analysis with
    typings
    types := tabulate typings
    annotated := (ClauseTyping.annotateAll account typings).twins
    logs := if account then solved.flatMap SolvedClause.trace else [] }

/-- Solve all clauses of a program under the current resolutions. If an account is
kept, a clause is annotated as soon as it is solved, and the first that cannot be is
the last one solved. -/
def solve (analysis : Analysis) (context : Context) (program : Program) (account : Bool) :
    Analysis × Option Fault :=
  let (solved, fault) := solveClauses context program analysis.resolutions program.clauses
  let annotations := ClauseTyping.annotateAll account (solved.map SolvedClause.typing)
  match annotations.fault with
  | some failure =>
    (analysis.record account (solved.take (annotations.twins.length + 1)), some failure)
  | none => (analysis.record account solved, fault)

/-- Run passes over all nodes of a program. -/
def refine (analysis : Analysis) (context : Context) (program : Program) (passes : List Pass) :
    Analysis × Except Fault Bool :=
  let (resolutions, changed) :=
    Pass.runAll (analysis.known context) (Node.nodesOf program.clauses) passes
  ({ analysis with resolutions }, changed)

/-- One round: solve, then refine. Says whether the resolutions changed. -/
def round (analysis : Analysis) (context : Context) (program : Program) (account : Bool) :
    Analysis × Except Fault Bool :=
  match analysis.solve context program account with
  | (analysis, some fault) => (analysis, .error fault)
  | (analysis, none) => analysis.refine context program Pass.all

/-- What a run leads to. -/
structure Run where
  analysis : Analysis
  /-- For each round that was completed, whether it changed the resolutions. -/
  rounds : List Bool
  fault : Option Fault

/-- Go on for at most `remaining` rounds of the `limit`, with `done` behind. -/
def runFrom (context : Context) (program : Program) (account : Bool) (limit : Nat) :
    Nat → Nat → Analysis → Run
  | 0, _, analysis => { analysis, rounds := [], fault := some (.unsettled limit) }
  | remaining + 1, done, analysis =>
    match round { analysis with iterations := done + 1 } context program account with
    | (analysis, .error fault) => { analysis, rounds := [], fault := some fault }
    | (analysis, .ok changed) =>
      if done = 0 || changed then
        let rest := runFrom context program account limit remaining (done + 1) analysis
        { rest with rounds := changed :: rest.rounds }
      else { analysis, rounds := [changed], fault := none }

/-- Run the analysis for at most `limit` rounds. -/
def run (analysis : Analysis) (context : Context) (program : Program) (account : Bool)
    (limit : Nat) : Run :=
  runFrom context program account limit limit 0 analysis

end Analysis

end DatalogTyping

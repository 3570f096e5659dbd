import DatalogTyping.Inference.Printer
import DatalogTyping.Node.Build
import DatalogTyping.Options.Parse
import DatalogTyping.Report.Check

/-!
# Sessions

A program under analysis, with everything around it: settings, a report, the
files the program came from, and what has been printed. An operation that fails
keeps what it did before it failed.
-/

namespace DatalogTyping

/-- The state of a session. -/
structure Session where
  program : Program
  context : Context
  options : Options
  report : Report
  files : Files
  analysis : Analysis := {}
  /-- The choices still to be made in outbursts. -/
  picks : List Nat := []
  /-- The first identity that no node has. -/
  next : NodeId
  /-- What has been printed. -/
  out : String := ""
  /-- What has been printed on the side. -/
  err : String := ""

/-- An operation on a session. -/
abbrev SessionM := ExceptT Fault (StateM Session)

namespace Session

/-- A new session. Without a report there is one that is as talkative as the
settings say. -/
def new (program : Program) (options : Options) (report : Option Report) (files : Files)
    (picks : List Nat) (next : NodeId) : Except Fault Session := do
  let context ← Context.ofProgram program
  let report := report.getD { verbose := options.verbose }
  return { program, context, options, report, files, picks, next }

/-- What is known at the moment. -/
def known (session : Session) : Knowledge :=
  session.analysis.known session.context

/-- Forget what has been printed. -/
def quiet (session : Session) : Session := { session with out := "", err := "" }

/-- What the report says about the completed rounds of a run, counted from
`number`. -/
def roundsText (report : Report) : Nat → List Bool → String
  | _, [] => ""
  | number, changed :: rest =>
    let word := if changed then "changed" else "stable"
    report.info 1 [s!"Type analysis round {number}: {word}"] ++
      roundsText report (number + 1) rest

end Session

namespace SessionM

open Session

/-- Something that may fail, inside a session. -/
def attempt {α : Type} (value : Except Fault α) : SessionM α := fun session => (value, session)

/-- Something that depends on the state. -/
def ask {α : Type} (question : Session → Except Fault α) : SessionM α := fun session =>
  (question session, session)

/-- Fail if there is a fault. -/
def failOn : Option Fault → SessionM Unit
  | some fault => throw fault
  | none => pure ()

/-- Run the analysis. Says how many rounds it took. -/
def analyse : SessionM Nat := do
  let session ← get
  let result := session.analysis.run session.context session.program
    session.options.wantsTypeAnalysis session.options.maxIterations
  set { session with
    analysis := result.analysis
    err := session.err ++ roundsText session.report 1 result.rounds }
  failOn result.fault
  if session.options.showsTypeAnalysis then
    let text ← attempt (result.analysis.account session.context session.program)
    modify fun session => { session with out := session.out ++ text ++ "\n" }
  return result.analysis.iterations

/-- The account of the last round. -/
def account : SessionM String :=
  ask fun session => session.analysis.account session.context session.program

/-- The annotated program. -/
def annotatedProgram : SessionM String :=
  ask fun session => session.known.annotatedProgram session.program

/-- Run one pass of refinement. Says whether it changed anything. -/
def refine (pass : Pass) : SessionM Bool := fun session =>
  let (analysis, changed) := session.analysis.refine session.context session.program [pass]
  (changed, { session with analysis })

/-- Check the analysis. Says whether the report has no issues. -/
def check : SessionM Bool := fun session =>
  let (report, ok) := session.report.check session.known session.analysis.typings
  (ok, { session with report })

/-- Make a complaint heard. -/
def voice (complaint : Report.Complaint) : SessionM Unit := do
  modify fun session => { session with
    err := session.err ++ complaint.text
    picks := complaint.picks }
  failOn complaint.fault

/-- Complain about the issues. -/
def complain : SessionM Unit := do
  let session ← get
  voice (session.report.complain session.files session.picks)

/-- Complain about the issues, and fail if there are any. -/
def insist (message : String) : SessionM Unit := do
  let session ← get
  voice (session.report.insist session.files session.picks message)

/-- The clause at a position. -/
def clause (position : Int) : SessionM Node :=
  ask fun session => elementAt session.program.clauses position

/-- The node at a position in the traversal of a clause. -/
def node (clausePosition nodePosition : Int) : SessionM Node := do
  let clause ← clause clausePosition
  attempt (elementAt clause.nodes nodePosition)

/-- The typing at a position. -/
def typing (position : Int) : SessionM ClauseTyping :=
  ask fun session => elementAt session.analysis.typings position

/-- Solve a clause, or something that looks like it, under the current
resolutions. -/
def solve (clause : Node) : SessionM SolvedClause :=
  ask fun session =>
    solveClause session.context session.program session.analysis.resolutions clause

/-- A copy of a clause, which no table knows. -/
def copy (clause : Node) : SessionM Node := fun session =>
  let (twin, next) := clause.copyFrom session.next
  (.ok twin, { session with next })

/-- Replace the set of types of a node. -/
def setTypes (node : Node) (types : TypeSet) : SessionM Unit :=
  modify fun session => { session with
    analysis := { session.analysis with types := session.analysis.types.insert node.id types } }

/-- Build nodes that are new to the session. -/
def build {α : Type} (make : Build α) : SessionM α := fun session =>
  match make.run session.next with
  | .ok (value, next) => (.ok value, { session with next })
  | .error fault => (.error fault, session)

end SessionM

end DatalogTyping

import DatalogTyping.Report.Issue

/-!
# Reports

The issues of one run, piled up rather than reported one at a time, so that a
single run shows everything that is wrong with a program. A report may have a
limit, and it knows how talkative it is.
-/

namespace DatalogTyping

/-- The issues of one run. -/
structure Report where
  /-- How much chatter is wanted. -/
  verbose : Int := 0
  /-- The number of issues at which to give up, if there is one. -/
  limit : Option Int := none
  issues : List Issue := []

namespace Report

/-- Are there no issues? -/
def isOk (report : Report) : Bool := report.issues.isEmpty

/-- Add an issue. The issue that reaches the limit is kept, but nothing goes on
after it. -/
def add (report : Report) (issue : Issue) : Report × Option Fault :=
  let report := { report with issues := report.issues ++ [issue] }
  (report, if report.limit = some (report.issues.length : Int) then some .tooManyIssues else none)

/-- Add issues one after another, until the limit is reached. -/
def addAll (report : Report) : List Issue → Report × Option Fault
  | [] => (report, none)
  | issue :: rest =>
    match report.add issue with
    | (report, none) => report.addAll rest
    | (report, some fault) => (report, some fault)

/-- What the report says about something of the given level of detail. -/
def info (report : Report) (level : Int) (words : List String) : String :=
  if level ≤ report.verbose then " ".intercalate words ++ "\n" else ""

end Report

/-! ## Complaints -/

/-- The choice that a number makes among texts. -/
def pick (texts : List String) (choice : Nat) : String :=
  texts[choice % texts.length]?.getD ""

/-- An outburst, its three parts chosen by the first three of the given numbers,
zero standing in for those that are missing; and the numbers left over. -/
def outburst (picks : List Nat) : String × List Nat :=
  let choice (index : Nat) : Nat := picks[index]?.getD 0
  let particle := pick ["Oh, ", "Well, ", "Hmm, ", "", ""] (choice 0)
  let grumble := pick ["Bother", "Blast", "Botheration", "Buzz off", "Drat", "Fiddlesticks",
    "Goodness", "Heavens", "Nuts", "Rats", "Sting and Stinger", "Waspish Whiskers"] (choice 1)
  let resignation := pick ["The types do not line up.", "I cannot make these types agree.",
    "This program does not type-check.", "Something here has no type at all."] (choice 2)
  (s!"{particle}{grumble}! {resignation}", picks.drop 3)

/-- A text some number of times over. -/
def repeated (text : String) (times : Nat) : String :=
  String.join (List.replicate times text)

namespace Report

/-- The issues in full, each after a dashed line, as far as they can be shown. -/
def listing (files : Files) : List Issue → String × Option Fault
  | [] => ("", none)
  | issue :: rest =>
    let rule := repeated "  -" 20 ++ "\n"
    match issue.text files with
    | .error fault => (rule, some fault)
    | .ok text =>
      let (others, fault) := listing files rest
      (rule ++ text ++ "\n" ++ others, fault)

/-- What a complaint leads to. -/
structure Complaint where
  /-- What it says. -/
  text : String
  /-- What cut it short, if anything did. -/
  fault : Option Fault
  /-- The choices left over. -/
  picks : List Nat

/-- Complain about the issues; say nothing if there are none. -/
def complain (report : Report) (files : Files) (picks : List Nat) : Complaint :=
  if report.isOk then { text := "", fault := none, picks }
  else
    let (burst, picks) := outburst picks
    let (listed, fault) := listing files report.issues
    { text := repeated "*" 60 ++ "\n" ++ burst ++ "\n" ++ listed, fault, picks }

/-- Complain about the issues, and fail if there are any. -/
def insist (report : Report) (files : Files) (picks : List Nat) (message : String) :
    Complaint :=
  let complaint := report.complain files picks
  if report.isOk || complaint.fault.isSome then complaint
  else
    let (burst, picks) := outburst complaint.picks
    { complaint with fault := some (.issuesRemain s!"{burst} {message}"), picks }

end Report

end DatalogTyping

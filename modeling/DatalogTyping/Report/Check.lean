import DatalogTyping.Inference.Knowledge
import DatalogTyping.Report.Basic

/-!
# Checking an analysis

Once the analysis has settled, everything that did not work out becomes an
issue. Each argument gets its own chance to explain what is wrong with it; an
argument with a more specific complaint does not also get the generic one.
-/

namespace DatalogTyping

namespace Knowledge

/-- The complaint that an argument has no type, if it has none. -/
def emptiness? (clause argument : Node) (types : TypeSet) : Option Issue :=
  if types.isEmpty then some (.noType clause argument) else none

/-- The complaint about a call, if there is one. -/
def callIssue? (known : Knowledge) (clause call : Node) (name : String) (types : TypeSet) :
    Option Issue :=
  match known.context.signature? name with
  | none => some (.undeclaredFunctor clause call name)
  | some signature =>
    if known.context.isUsable signature then emptiness? clause call types
    else some (.illDeclaredFunctor clause call signature.node name)

/-- The complaint about an argument of a clause, if there is one. -/
def issue? (known : Knowledge) (typing : ClauseTyping) (argument : Node) (types : TypeSet) :
    Option Issue :=
  let clause := typing.clause
  match argument.label with
  | .numeral text _ =>
    if (known.numeralKind? argument).isSome then emptiness? clause argument types
    else some (.unresolvedNumeral clause argument text)
  | .functor symbol =>
    if known.isSettled argument then emptiness? clause argument types
    else some (.noOverload clause argument symbol
      (argument.children.filterMap fun child => typing.get? child.id))
  | .call name | .fold name => known.callIssue? clause argument name types
  | .cast typeName =>
    if known.context.env.isType typeName then emptiness? clause argument types
    else some (.undeclaredCastType clause argument typeName)
  | _ => emptiness? clause argument types

/-- The complaints about the arguments of clauses, in the order of the
traversal. -/
def issues (known : Knowledge) (typings : List ClauseTyping) : List Issue :=
  typings.flatMap fun typing =>
    typing.entries.filterMap fun (argument, types) => known.issue? typing argument types

end Knowledge

/-- Add to a report what is wrong with the given typings. Says whether the report
has no issues. -/
def Report.check (report : Report) (known : Knowledge) (typings : List ClauseTyping) :
    Report × Except Fault Bool :=
  match report.addAll (known.issues typings) with
  | (report, none) => (report, .ok report.isOk)
  | (report, some fault) => (report, .error fault)

end DatalogTyping

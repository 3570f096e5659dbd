import DatalogTyping.Forest
import DatalogTyping.Inference.Clause

/-!
# Annotated clauses

A copy of a clause in which every variable is renamed to show its types. This is
for people to read; nothing else makes use of it.

The copy is made beside the clause, in one forest, and then changed in place. The
sets of types are those of the clause, which apply to the copy position by
position; they are looked up by the identities of its nodes.
-/

namespace DatalogTyping

/-- A variable with its types after it. -/
def annotatedName (name : String) (types : TypeSet) : String :=
  s!"{name}∈{types.text}"

namespace ClauseTyping

/-- The set of types of an argument of the clause. -/
def lookup (typing : ClauseTyping) (id : NodeId) : Except Fault TypeSet :=
  match typing.get? id with
  | some types => .ok types
  | none => .error .noEntry

/-- A variable of the given name that shows the types of an argument. -/
def typedVar (typing : ClauseTyping) (id : NodeId) (name : String) : Build Node := do
  Build.var (annotatedName name (← typing.lookup id))

/-- What stands in place of the variables, named or not. -/
def annotations (typing : ClauseTyping) : Forest.Replacement
  | id, .var name => some (typing.typedVar id name)
  | id, .wildcard => some (typing.typedVar id "_")
  | _, _ => none

end ClauseTyping

namespace Forest

/-- Make an annotated copy of the clause of a typing. -/
def annotate (forest : Forest) (typing : ClauseTyping) : Except Fault (Forest × Node) := do
  let forest := forest.clone typing.clause
  let twin ← forest.slot (-1)
  let typing ← typing.transplant twin
  match forest.rewrite twin typing.annotations with
  | (_, some fault) => throw fault
  | (forest, none) => return (forest, ← forest.slot (-1))

end Forest

/-- How far annotating the clauses of typings got. -/
structure Annotations where
  /-- The clauses, and whatever was made beside them. -/
  forest : Forest
  /-- The annotated copies. -/
  twins : List Node := []
  fault : Option Fault := none

/-- Annotate the clauses of typings one after another, as far as possible. -/
def Forest.annotateAll (forest : Forest) : List ClauseTyping → Annotations
  | [] => { forest }
  | typing :: rest =>
    match forest.annotate typing with
    | .error fault => { forest, fault }
    | .ok (forest, twin) =>
      let others := forest.annotateAll rest
      { others with twins := twin :: others.twins }

namespace ClauseTyping

/-- The clauses of typings, with room for more beside them. -/
def clauses (typings : List ClauseTyping) : Forest :=
  let trees := typings.map clause
  .ofTrees trees (Node.unused trees)

/-- Annotate the clauses of typings, if an account is kept at all. -/
def annotateAll (account : Bool) (typings : List ClauseTyping) : Annotations :=
  if account then (clauses typings).annotateAll typings else { forest := clauses typings }

/-- The annotated clause of a typing, or the clause if it cannot be annotated. -/
def annotated (typing : ClauseTyping) : Node :=
  (annotateAll true [typing]).twins.headD typing.clause

end ClauseTyping

end DatalogTyping

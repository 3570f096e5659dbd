import DatalogTyping.Program
import DatalogTyping.Types.Lattice

/-!
# The environment of a program

Declarations may refer to each other in any order, and records and sum types may
be recursive. So unions, records and sum types come into being first, without
any structure; subset types and aliases wait until something asks for them, and
then come into being after the type they refer to. A declaration that refers to
a type that does not exist makes no type, and so do declarations that only refer
to each other.

Only the first declaration of a name counts, and none that reuses the name of a
built-in type.
-/

namespace DatalogTyping

/-- The declarations that count: the first of each name that is not built
in. -/
def countingDecls : List TypeDecl → List String → List TypeDecl
  | [], _ => []
  | decl :: rest, taken =>
    if taken.contains decl.name || TypeEnv.builtIn.isType decl.name then countingDecls rest taken
    else decl :: countingDecls rest (decl.name :: taken)

/-- The state of building an environment: the types so far, and the declarations
of subset types and aliases that nothing has asked for. -/
structure Draft where
  env : TypeEnv
  waiting : List TypeDecl

namespace Draft

/-- Take note of a declaration. -/
def announce (draft : Draft) (decl : TypeDecl) : Except Fault Draft :=
  match decl with
  | .subset _ _ | .synonym _ _ => .ok { draft with waiting := draft.waiting ++ [decl] }
  | .union name _ => do return { draft with env := ← draft.env.install name (.union []) }
  | .record name _ => do return { draft with env := ← draft.env.install name (.record []) }
  | .adt name _ => do return { draft with env := ← draft.env.install name (.adt []) }

/-- Ask for a type: if its declaration is waiting, ask for the type it refers to
and, if that exists, bring the type into being. Each step takes a declaration
off the waiting list, so their number bounds the steps. -/
def demandIn : Nat → Draft → String → Except Fault Draft
  | 0, draft, _ => .ok draft
  | bound + 1, draft, name =>
    match draft.waiting.find? fun decl => decl.name = name with
    | none => .ok draft
    | some decl => do
      let rest := { draft with waiting := draft.waiting.filter fun other => other.name ≠ name }
      match decl with
      | .subset _ base =>
        let draft ← demandIn bound rest base
        if draft.env.isType base then
          return { draft with env := ← draft.env.install name (.subset base) }
        else return draft
      | .synonym _ target =>
        let draft ← demandIn bound rest target
        if draft.env.isType target then
          return { draft with env := ← draft.env.install name (.synonym target) }
        else return draft
      | _ => return rest

/-- Ask for a type. -/
def demand (draft : Draft) (name : String) : Except Fault Draft :=
  demandIn draft.waiting.length draft name

/-- Ask for several types, one after another. -/
def demandAll (draft : Draft) (names : List String) : Except Fault Draft :=
  names.foldlM demand draft

/-- The types of a list of fields: none if one of them does not exist, which
makes something that cannot be constructed with fields. -/
def fields (draft : Draft) (names : List String) : List String :=
  if names.all draft.env.isType then names else []

/-- Give the type of a declaration its structure. -/
def complete (draft : Draft) (decl : TypeDecl) : Except Fault Draft :=
  match decl with
  | .subset name _ | .synonym name _ => draft.demand name
  | .union name elements => do
    let draft ← draft.demandAll elements
    return { draft with env := draft.env.setElements name (elements.filter draft.env.isType) }
  | .record name fields => do
    let draft ← draft.demandAll fields
    return { draft with env := draft.env.setFields name (draft.fields fields) }
  | .adt name branches => do
    let draft ← draft.demandAll (branches.flatMap Prod.snd)
    return { draft with
      env := draft.env.setBranches name
        (branches.map fun branch => { name := branch.1, types := draft.fields branch.2 }) }

end Draft

/-- The environment that declarations make. -/
def TypeEnv.ofDecls (decls : List TypeDecl) : Except Fault TypeEnv := do
  let decls := countingDecls decls []
  let draft ← decls.foldlM Draft.announce { env := .builtIn, waiting := [] }
  let draft ← decls.foldlM Draft.complete draft
  return draft.env

/-- Which sum type owns each branch name. The first declaration that mentions a
branch owns it, provided its name is that of a type. -/
def branchOwners (env : TypeEnv) (decls : List TypeDecl) : List (String × String) :=
  decls.flatMap fun
    | .adt name branches => if env.isType name then branches.map fun b => (b.1, name) else []
    | _ => []

/-- What the declarations of a program say, ready for use. -/
structure Context where
  /-- The types. -/
  env : TypeEnv
  /-- The owner of each branch; of several entries for a branch the first
  counts. -/
  owners : List (String × String)
  /-- The functors; of several by one name the first counts. -/
  signatures : List Signature

namespace Context

/-- The context that declarations make. -/
def ofDecls (decls : List TypeDecl) (signatures : List Signature) : Except Fault Context := do
  let env ← TypeEnv.ofDecls decls
  return { env, owners := branchOwners env decls, signatures }

/-- The context of a program. -/
def ofProgram (program : Program) : Except Fault Context :=
  ofDecls program.typeDecls program.signatures

/-- The sum type that owns a branch. -/
def owner? (context : Context) (branch : String) : Option String :=
  context.owners.lookup branch

/-- What the declaration of a functor says. -/
def signature? (context : Context) (name : String) : Option Signature :=
  context.signatures.find? fun signature => signature.name = name

/-- Is there a declaration of the functor that says it is stateful? -/
def isStateful (context : Context) (name : String) : Bool :=
  match context.signature? name with
  | some signature => signature.stateful
  | none => false

/-- Are all the types that a functor declaration mentions types? -/
def isUsable (context : Context) (signature : Signature) : Bool :=
  signature.params.all context.env.isType && context.env.isType signature.result

end Context

end DatalogTyping

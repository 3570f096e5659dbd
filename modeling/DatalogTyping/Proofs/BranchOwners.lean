import DatalogTyping.Proofs.ClauseProblems
import DatalogTyping.Proofs.LeastTypes

/-!
# The owners of branches

Two passes over the declarations look at sum types. The one that makes the types goes by
the first declaration of each name, and leaves the built-in names alone. The one that
finds an owner for each branch goes by the first declaration that mentions the branch and
has the name of a type, whichever declaration this type was made from.

So the owner of a branch need not have it. It does exactly if the declaration that counts
for its name is that of a sum type with such a branch
(`TypeEnv.Realises.branch?_eq_some_iff`), and constructors of the branch have constraints
just then. Where sum types have names of their own this is always so. Of two sum types
with one name, the branches of the second are owned by the first
(`Context.repeatedBranch_unowned`).
-/

namespace DatalogTyping

/-! ### Branches of declared types -/

namespace TypeDecl

/-- The fields of a branch in the declaration that counts for the name of its owner. -/
def branchFields? (decls : List TypeDecl) (owner branch : String) : Option (List String) :=
  match first? decls owner with
  | some (.adt _ branches) => branches.lookup branch
  | _ => none

theorem find?_branch (isType : String → Bool) (branches : List (String × List String))
    (branch : String) :
    ((branches.map fun entry =>
        ({ name := entry.1, types := fieldsAmong isType entry.2 } : Branch)).find?
      fun entry => entry.name = branch) =
    (branches.lookup branch).map fun fields => ⟨branch, fieldsAmong isType fields⟩ := by
  induction branches with
  | nil => rfl
  | cons entry rest ih =>
      obtain ⟨name, fields⟩ := entry
      rw [List.map_cons, List.lookup_cons]
      by_cases hname : name = branch
      · subst hname
        simp
      · have hne : (branch == name) = false := by simpa using Ne.symm hname
        rw [List.find?_cons_of_neg (by simpa using hname), hne]
        exact ih

end TypeDecl

namespace TypeEnv

variable {env : TypeEnv} {decls : List TypeDecl} {owner branch : String}

/-- A built-in type is not made of other types, whatever is declared. -/
theorem Realises.find?_builtIn (realises : env.Realises decls) {name : String}
    (h : builtIn.isType name) :
    ∃ definition, env.find? name = some definition ∧ definition.isComposite = false := by
  obtain ⟨definition, hdefinition⟩ := Option.isSome_iff_exists.mp h
  have hentry := mem_entries_of_find? hdefinition
  have simple : ∀ entry ∈ builtIn.entries, entry.2.isComposite = false := by decide
  exact ⟨definition, realises.builtIns _ hentry, simple _ hentry⟩

/-- A type has the branches that the declaration says which counts for its name. -/
theorem Realises.branch?_eq_some_iff (realises : env.Realises decls) (htype : env.isType owner)
    {entry : Branch} :
    env.branch? owner branch = .ok (some entry) ↔
      ∃ fields, TypeDecl.branchFields? decls owner branch = some fields ∧
        entry = ⟨branch, TypeDecl.fieldsAmong env.isType fields⟩ := by
  unfold branch? TypeDecl.branchFields?
  by_cases hbuiltIn : builtIn.isType owner
  · obtain ⟨definition, hfind, plain⟩ := realises.find?_builtIn hbuiltIn
    have uncounted : TypeDecl.first? decls owner = none := if_pos hbuiltIn
    rw [hfind, uncounted]
    cases definition <;> simp_all [TypeDef.isComposite]
  · obtain ⟨decl, hfirst⟩ := realises.exists_first? htype hbuiltIn
    rw [realises.find?_eq hfirst htype, hfirst]
    cases decl with
    | adt name branches =>
        simp only [TypeDecl.definition, TypeDecl.find?_branch, Except.ok.injEq,
          Option.map_eq_some_iff]
        exact exists_congr fun fields => and_congr_right fun _ => eq_comm
    | _ => simp [TypeDecl.definition]

end TypeEnv

/-! ### Owners -/

namespace Context

variable {program : Program} {context : Context} {branch owner : String}

theorem realises_of_ofProgram (h : Context.ofProgram program = .ok context) :
    context.env.Realises program.typeDecls := by
  obtain ⟨env, henv, h⟩ := bind_eq_ok.mp h
  obtain rfl := Except.ok.inj h
  exact TypeEnv.realises_of_ofDecls henv

/-- The owner of the branch, if there is one, has it. -/
def BranchOwned (context : Context) (branch : String) : Prop :=
  ∀ owner, context.owner? branch = some owner →
    ∃ entry, context.env.branch? owner branch = .ok (some entry)

theorem branchOwned_iff (hcontext : Context.ofProgram program = .ok context) :
    context.BranchOwned branch ↔ ∀ owner, context.owner? branch = some owner →
      (TypeDecl.branchFields? program.typeDecls owner branch).isSome := by
  have realises := realises_of_ofProgram hcontext
  refine forall_congr' fun owner => forall_congr' fun howner => ?_
  simp only [realises.branch?_eq_some_iff (isType_of_owner? hcontext howner),
    Option.isSome_iff_exists]
  constructor
  · rintro ⟨-, fields, hfields, -⟩
    exact ⟨fields, hfields⟩
  · rintro ⟨fields, hfields⟩
    exact ⟨_, fields, hfields, rfl⟩

/-- If declarations of sum types count, the owners of branches have them. -/
theorem branchOwned_of_counts (hcontext : Context.ofProgram program = .ok context)
    (counts : ∀ name branches, .adt name branches ∈ program.typeDecls →
      TypeDecl.first? program.typeDecls name = some (.adt name branches)) (branch : String) :
    context.BranchOwned branch := by
  rw [branchOwned_iff hcontext]
  intro owner howner
  obtain ⟨-, branches, fields, hdecl, hbranch⟩ := exists_decl_of_owner? hcontext howner
  rw [TypeDecl.branchFields?, counts owner branches hdecl, List.lookup_isSome_iff]
  exact ⟨_, hbranch, by simp⟩

end Context

section Constructors

variable {context : Context} {program : Program} {resolutions : Resolutions}
  {negated : List NodeId} {node : Node} {branch : String}

theorem nodeConstraints_of_owned (hlabel : node.label = .branch branch)
    (owned : context.BranchOwned branch) :
    ∃ constraints, nodeConstraints context program resolutions negated node = .ok constraints := by
  simp only [nodeConstraints, hlabel, branchConstraints]
  cases howner : context.owner? branch with
  | none => exact ⟨[], rfl⟩
  | some owner =>
      obtain ⟨entry, hentry⟩ := owned owner howner
      simp [hentry]

theorem nodeConstraints_of_not_owned (hlabel : node.label = .branch branch)
    (unowned : ¬ context.BranchOwned branch) :
    nodeConstraints context program resolutions negated node = .error .lacksProperty := by
  simp only [Context.BranchOwned, not_forall] at unowned
  obtain ⟨owner, howner, lacks⟩ := unowned
  simp only [nodeConstraints, hlabel, branchConstraints, howner]
  split
  · rename_i entry hentry
    exact absurd ⟨entry, hentry⟩ lacks
  · rfl
  · rename_i fault hfault
    unfold TypeEnv.branch? at hfault
    split at hfault
    · cases hfault
    · exact congrArg Except.error (Except.error.inj hfault).symm

end Constructors

namespace Context

variable {program : Program} {context : Context}

/-- The owner of a branch is a type, and has the branch exactly if the declaration that
counts for its name says so; it then has the fields which are declared there. Constructors
of the branch have constraints just then, and it is so for all branches if all
declarations of sum types count. -/
theorem branch_owner_agrees (hcontext : Context.ofProgram program = .ok context)
    (branch : String) :
    (∀ owner, context.owner? branch = some owner → context.env.isType owner ∧
      ∀ entry, context.env.branch? owner branch = .ok (some entry) ↔
        ∃ fields, TypeDecl.branchFields? program.typeDecls owner branch = some fields ∧
          entry = ⟨branch, TypeDecl.fieldsAmong context.env.isType fields⟩) ∧
    (context.BranchOwned branch ↔ ∀ owner, context.owner? branch = some owner →
      (TypeDecl.branchFields? program.typeDecls owner branch).isSome) ∧
    (∀ resolutions negated node, node.label = .branch branch →
      (context.BranchOwned branch → ∃ constraints,
        nodeConstraints context program resolutions negated node = .ok constraints) ∧
      (¬ context.BranchOwned branch →
        nodeConstraints context program resolutions negated node = .error .lacksProperty)) ∧
    ((∀ name branches, .adt name branches ∈ program.typeDecls →
      TypeDecl.first? program.typeDecls name = some (.adt name branches)) →
        context.BranchOwned branch) := by
  refine ⟨fun owner howner => ?_, branchOwned_iff hcontext, fun resolutions negated node hlabel =>
    ⟨nodeConstraints_of_owned hlabel, nodeConstraints_of_not_owned hlabel⟩,
    fun counts => branchOwned_of_counts hcontext counts branch⟩
  have htype := isType_of_owner? hcontext howner
  exact ⟨htype, fun entry => (realises_of_ofProgram hcontext).branch?_eq_some_iff htype⟩

/-- Two sum types of one name, and the clause `A($B()).` with a constructor of a branch
that only the second has. -/
def repeatedProgram : Program where
  types := [
    .mk 0 none (.adtDecl "T") [.mk 1 none (.branchDecl "A") []],
    .mk 2 none (.adtDecl "T") [.mk 3 none (.branchDecl "B") []]]
  clauses := [.mk 4 none .clause [.mk 5 none (.atom "A") [.mk 6 none (.branch "B") []]]]

def repeatedContext : Context where
  env := ⟨TypeEnv.builtIn.entries ++ [("T", .adt [⟨"A", []⟩])]⟩
  owners := [("A", "T"), ("B", "T")]
  signatures := []

/-- The branch of the first declaration is owned. -/
theorem branch_owner_agrees_repeated :
    Context.ofProgram repeatedProgram = .ok repeatedContext ∧
      repeatedContext.owner? "A" = some "T" ∧ repeatedContext.BranchOwned "A" := by
  have hcontext : Context.ofProgram repeatedProgram = .ok repeatedContext := rfl
  obtain ⟨-, owned, -⟩ := branch_owner_agrees hcontext "A"
  refine ⟨hcontext, by decide, owned.mpr fun owner howner => ?_⟩
  obtain rfl : "T" = owner := Option.some.inj howner
  decide

/-- The branch of the second declaration is owned by the type of the first, which lacks
it, and the clause with its constructor is not solved. -/
theorem repeatedBranch_unowned :
    Context.ofProgram repeatedProgram = .ok repeatedContext ∧
      repeatedContext.owner? "B" = some "T" ∧
      repeatedContext.env.branch? "T" "B" = .ok none ∧
      ∀ clause ∈ repeatedProgram.clauses,
        solveClause repeatedContext repeatedProgram {} clause = .error .lacksProperty := by
  refine ⟨rfl, by decide, by decide, fun clause hclause => ?_⟩
  obtain rfl := List.mem_singleton.mp hclause
  rfl

end Context

end DatalogTyping

import DatalogTyping.Inference.Clause
import DatalogTyping.Proofs.Stopping
import DatalogTyping.Proofs.Trees

/-!
# The problems that clauses pose

Whatever a clause looks like, and whatever has been resolved so far, the
constraints that it gives rise to are proper: they only name types, because the
environment of a program is closed and everything that need not be a type is
asked for first; they only name finite sets; and the parts of a record
constructor have other type variables than the constructor itself, because its
text is longer than theirs. The problem of a clause mentions all the variables of
its constraints. So it is well-posed (`clauseProblem_wellPosed`).
-/

namespace DatalogTyping

/-! ### Visits -/

namespace NodeVisit

theorem map_node_along (negated : List NodeId) (nodes : List Node) :
    (along negated nodes).map node = nodes := by
  induction nodes generalizing negated with
  | nil => rfl
  | cons node rest ih => rw [along, List.map_cons, ih]

/-- What is known to be negated was known at the start, or is due to a node visited. -/
theorem mem_negated_along {negated : List NodeId} {nodes : List Node} {visit : NodeVisit}
    (h : visit ∈ along negated nodes) {id : NodeId} (hid : id ∈ visit.negated) :
    id ∈ negated ∨ ∃ node ∈ nodes, id ∈ node.negates := by
  induction nodes generalizing negated with
  | nil => cases h
  | cons node rest ih =>
      rcases List.mem_cons.mp h with rfl | h
      · exact .inl hid
      · rcases ih h with hid | ⟨other, hother, hid⟩
        · exact (List.mem_append.mp hid).imp_right fun hid => ⟨node, List.mem_cons_self, hid⟩
        · exact .inr ⟨other, List.mem_cons_of_mem _ hother, hid⟩

end NodeVisit

namespace Node

variable {clause node : Node} {visit : NodeVisit}

theorem map_node_visits (clause : Node) : clause.visits.map NodeVisit.node = clause.nodes :=
  NodeVisit.map_node_along [] clause.nodes

theorem mem_nodes_of_visit (h : visit ∈ clause.visits) : visit.node ∈ clause.nodes :=
  clause.map_node_visits ▸ List.mem_map_of_mem h

theorem exists_visit (h : node ∈ clause.nodes) : ∃ visit ∈ clause.visits, visit.node = node := by
  rwa [← clause.map_node_visits, List.mem_map] at h

end Node

/-! ### The texts of parts -/

theorem length_le_intercalate (separator : String) {texts : List String} {text : String}
    (h : text ∈ texts) : text.length ≤ (separator.intercalate texts).length := by
  induction texts with
  | nil => simp at h
  | cons first rest ih =>
      rcases rest with _ | ⟨second, rest⟩
      · simp_all
      · rw [String.intercalate_cons_cons]
        simp only [String.length_append]
        rcases List.mem_cons.mp h with rfl | h
        · omega
        · have := ih h
          omega

namespace Node

theorem length_text_lt_of_record {node child : Node} (hlabel : node.label = .record)
    (h : child ∈ node.children) : child.text.length < node.text.length := by
  obtain ⟨id, span, label, children⟩ := node
  obtain rfl : label = .record := hlabel
  have shorter := length_le_intercalate "," (List.mem_map_of_mem (f := text) h)
  rw [text, Label.layout, texts_eq_map]
  simp only [commas, String.length_append]
  change _ < 1 + (",".intercalate (children.map text)).length + 1
  exact Nat.lt_succ_of_le (shorter.trans (Nat.le_add_left _ _))

/-- A record constructor has another type variable than its arguments. -/
theorem typeVar_ne_of_record {node child : Node} (hlabel : node.label = .record)
    (h : child ∈ node.children) : child.typeVar ≠ node.typeVar := by
  have longer := length_text_lt_of_record hlabel h
  intro same
  -- the type variable of an argument that is no plain variable has its text
  rw [typeVar, typeVar, hlabel] at same
  split at same
  · cases same
  · rw [(TypeVar.argument.inj same).2] at longer
    exact lt_irrefl _ longer

end Node

/-! ### Contexts -/

namespace Context

variable {program : Program} {context : Context}

theorem wellFormed_of_ofProgram (h : Context.ofProgram program = .ok context) :
    context.env.WellFormed := by
  obtain ⟨env, henv, h⟩ := bind_eq_ok.mp h
  obtain rfl := Except.ok.inj h
  exact TypeEnv.ofDecls_wellFormed henv

/-- The owner of a branch has the name of a sum type that is declared with it. -/
theorem exists_decl_of_owner? (h : Context.ofProgram program = .ok context) {branch owner : String}
    (howner : context.owner? branch = some owner) :
    context.env.isType owner ∧ ∃ branches fields,
      .adt owner branches ∈ program.typeDecls ∧ (branch, fields) ∈ branches := by
  obtain ⟨env, henv, h⟩ := bind_eq_ok.mp h
  obtain rfl := Except.ok.inj h
  have hmem : (branch, owner) ∈ branchOwners env program.typeDecls :=
    mem_of_lookup_eq_some howner
  obtain ⟨decl, hin, hdecl⟩ := List.mem_flatMap.mp hmem
  split at hdecl
  · rename_i name branches
    split at hdecl
    · rename_i htype
      obtain ⟨⟨entry, fields⟩, hentry, same⟩ := List.mem_map.mp hdecl
      obtain ⟨rfl, rfl⟩ := Prod.mk.inj same
      exact ⟨htype, branches, fields, hin, hentry⟩
    · simp at hdecl
  · simp at hdecl

/-- Only types own branches. -/
theorem isType_of_owner? (h : Context.ofProgram program = .ok context) {branch owner : String}
    (howner : context.owner? branch = some owner) : context.env.isType owner :=
  (exists_decl_of_owner? h howner).1

theorem isType_of_isUsable {signature : Signature} (h : context.isUsable signature) :
    context.env.isType signature.result ∧
      ∀ param ∈ signature.params, context.env.isType param := by
  simp only [isUsable, Bool.and_eq_true, List.all_eq_true] at h
  exact ⟨h.2, h.1⟩

end Context

/-! ### Constraints of nodes -/

section Constraints

variable {context : Context} {program : Program} {resolutions : Resolutions} {node : Node}

/-- All constraints of a list are proper. -/
def AllProper (env : TypeEnv) (constraints : List Constraint) : Prop :=
  ∀ constraint ∈ constraints, constraint.Proper env

namespace AllProper

variable {env : TypeEnv} {constraints others : List Constraint}

theorem nil : AllProper env [] := by simp [AllProper]

theorem cons {constraint : Constraint} (h : constraint.Proper env)
    (h' : AllProper env constraints) : AllProper env (constraint :: constraints) :=
  List.forall_mem_cons.mpr ⟨h, h'⟩

theorem append (h : AllProper env constraints) (h' : AllProper env others) :
    AllProper env (constraints ++ others) :=
  List.forall_mem_append.mpr ⟨h, h'⟩

theorem boundAll {arguments : List Node} {typeNames : List String}
    (h : ∀ typeName ∈ typeNames, env.isType typeName) :
    AllProper env (boundAll arguments typeNames) := by
  intro constraint hconstraint
  obtain ⟨⟨argument, typeName⟩, hpair, rfl⟩ := List.mem_map.mp hconstraint
  exact h typeName (List.of_mem_zip hpair).2

theorem boundKind (builtIns : env.HasBuiltIns) (argument : Node) (kind : Kind) :
    AllProper env (boundKind argument kind) := by
  unfold DatalogTyping.boundKind
  split
  · rename_i constant hconstant
    exact cons (Constraint.isType_constant builtIns hconstant) nil
  · exact nil

theorem bothWays (left right : Node) : AllProper env (bothWays left right) :=
  cons trivial (cons trivial nil)

end AllProper

theorem proper_supertypeIn_constants {env : TypeEnv} (builtIns : env.HasBuiltIns) (var : TypeVar)
    (kinds : List Kind) :
    (Constraint.supertypeIn var (TypeEnv.constantTypes kinds)).Proper env :=
  ⟨by simp [TypeEnv.constantTypes, TypeSet.ofList], Constraint.known_constantTypes builtIns kinds⟩

theorem known_recordTypes (env : TypeEnv) : env.recordTypes ≠ .all ∧ env.recordTypes.Known env := by
  refine ⟨by simp [TypeEnv.recordTypes, TypeSet.ofList], Constraint.known_ofList ?_⟩
  intro name hname
  exact TypeEnv.mem_names_iff.mp (List.mem_filter.mp hname).1

theorem atomConstraints_proper (negated : Bool) (name : String) (arguments : List Node) :
    AllProper context.env (atomConstraints context program negated name arguments) := by
  unfold atomConstraints
  split
  · exact .nil
  · split
    · intro constraint hconstraint
      obtain ⟨⟨argument, typeName⟩, hpair, rfl⟩ := List.mem_map.mp hconstraint
      have hkept := (List.mem_filter.mp hpair).2
      exact (Bool.and_eq_true _ _ ▸ hkept).1
    · exact .nil

theorem functorConstraints_proper (builtIns : context.env.HasBuiltIns) (symbol : String)
    (arguments : List Node) :
    AllProper context.env (functorConstraints resolutions node symbol arguments) := by
  have shared : AllProper context.env
      (arguments.map fun argument => .sameBase argument.typeVar node.typeVar) := by
    intro constraint hconstraint
    obtain ⟨argument, -, rfl⟩ := List.mem_map.mp hconstraint
    trivial
  cases hresolved : resolutions.functors.get? node.id with
  | none =>
      simp only [functorConstraints, hresolved]
      split
      · exact .append (.cons trivial .nil) shared
      · exact .cons trivial .nil
  | some overload =>
      simp only [functorConstraints, hresolved]
      split
      · exact shared
      · refine (AllProper.boundKind builtIns node overload.result).append ?_
        split
        · exact .nil
        · intro constraint hconstraint
          obtain ⟨⟨argument, index⟩, -, hconstraint⟩ := List.mem_flatMap.mp hconstraint
          simp only at hconstraint
          split at hconstraint
          · exact AllProper.boundKind builtIns argument _ constraint hconstraint
          · simp at hconstraint

theorem signatureConstraints_proper (name : String) (arity : Nat) (arguments : List Node) :
    AllProper context.env (signatureConstraints context node name arity arguments) := by
  unfold signatureConstraints
  split
  · exact .nil
  · split
    · rename_i signature _ husable
      obtain ⟨hresult, hparams⟩ := Context.isType_of_isUsable (Bool.and_eq_true _ _ ▸ husable).2
      exact .cons hresult (.boundAll hparams)
    · exact .nil

theorem aggregateConstraints_proper (builtIns : context.env.HasBuiltIns) (op : AggregateOp) :
    AllProper context.env (aggregateConstraints node op) := by
  unfold aggregateConstraints
  refine AllProper.append ?_ ?_
  · split
    · exact .boundKind builtIns node _
    · exact .boundKind builtIns node _
    · exact .cons (proper_supertypeIn_constants builtIns _ _) .nil
  · split
    · exact .bothWays _ _
    · exact .nil

theorem recordConstraints_proper (hlabel : node.label = .record) :
    AllProper context.env (recordConstraints context node node.children) := by
  refine .cons (known_recordTypes context.env) fun constraint hconstraint => ?_
  obtain ⟨⟨argument, index⟩, hargument, rfl⟩ := List.mem_map.mp hconstraint
  have hchild : argument ∈ node.children :=
    List.mem_of_getElem? (List.mk_mem_zipIdx_iff_getElem?.mp hargument)
  exact ⟨Node.typeVar_ne_of_record hlabel hchild, Int.natCast_nonneg index⟩

/-- A constructor whose branch has an owner is bound by it, and its arguments by the fields
if there are as many. -/
theorem branchConstraints_eq_ok {branch : String} {arguments : List Node}
    {constraints : List Constraint}
    (h : branchConstraints context node branch arguments = .ok constraints) :
    context.owner? branch = none ∧ constraints = [] ∨
      ∃ owner entry, context.owner? branch = some owner ∧
        context.env.branch? owner branch = .ok (some entry) ∧
        constraints = bound node owner ::
          if entry.types.length = arguments.length then boundAll arguments entry.types else [] := by
  unfold branchConstraints at h
  split at h
  · rename_i unowned
    exact .inl ⟨unowned, (Except.ok.inj h).symm⟩
  · rename_i owner howner
    split at h
    · rename_i entry hentry
      exact .inr ⟨owner, entry, howner, hentry, (Except.ok.inj h).symm⟩
    · cases h
    · cases h

theorem branchConstraints_proper (hcontext : Context.ofProgram program = .ok context)
    {branch : String} {arguments : List Node} {constraints : List Constraint}
    (h : branchConstraints context node branch arguments = .ok constraints) :
    AllProper context.env constraints := by
  rcases branchConstraints_eq_ok h with ⟨-, rfl⟩ | ⟨owner, entry, howner, hentry, rfl⟩
  · exact .nil
  · refine .cons (Context.isType_of_owner? hcontext howner) ?_
    split
    · -- the types of a branch are referred to by its owner, which is closed
      refine .boundAll fun typeName htypeName => ?_
      unfold TypeEnv.branch? at hentry
      split at hentry
      · rename_i branches hfind
        have hmem := List.mem_of_find?_eq_some (Except.ok.inj hentry)
        exact (Context.wellFormed_of_ofProgram hcontext).closed _ _ hfind typeName
          (List.mem_flatMap.mpr ⟨entry, hmem, htypeName⟩)
      · cases hentry
    · exact .nil

/-- The constraints of a node are proper. -/
theorem nodeConstraints_proper (hcontext : Context.ofProgram program = .ok context)
    {negated : List NodeId} {constraints : List Constraint}
    (h : nodeConstraints context program resolutions negated node = .ok constraints) :
    AllProper context.env constraints := by
  have builtIns := (Context.wellFormed_of_ofProgram hcontext).builtIns
  unfold nodeConstraints at h
  cases hlabel : node.label with
  | atom name =>
      rw [hlabel] at h
      obtain rfl := Except.ok.inj h
      exact atomConstraints_proper _ _ _
  | comparison op =>
      simp only [hlabel] at h
      split at h
      · obtain rfl := Except.ok.inj h
        split
        · exact (AllProper.boundKind builtIns _ _).append (.boundKind builtIns _ _)
        · exact .bothWays _ _
      · obtain rfl := Except.ok.inj h
        exact .nil
  | numeral text fixed =>
      rw [hlabel] at h
      obtain rfl := Except.ok.inj h
      exact .cons (proper_supertypeIn_constants builtIns _ _) .nil
  | nil =>
      rw [hlabel] at h
      obtain rfl := Except.ok.inj h
      exact .cons ⟨by decide, known_recordTypes context.env⟩ .nil
  | cast typeName =>
      rw [hlabel] at h
      obtain rfl := Except.ok.inj h
      refine .cons ?_ .nil
      split
      · assumption
      · exact ⟨by simp [TypeSet.empty], fun name hname => absurd hname (Names.notMem_empty name)⟩
  | functor symbol =>
      rw [hlabel] at h
      obtain rfl := Except.ok.inj h
      exact functorConstraints_proper builtIns _ _
  | call name =>
      rw [hlabel] at h
      obtain rfl := Except.ok.inj h
      exact signatureConstraints_proper _ _ _
  | fold name =>
      rw [hlabel] at h
      obtain rfl := Except.ok.inj h
      exact signatureConstraints_proper _ _ _
  | aggregate op targeted =>
      rw [hlabel] at h
      obtain rfl := Except.ok.inj h
      exact aggregateConstraints_proper builtIns _
  | record =>
      rw [hlabel] at h
      obtain rfl := Except.ok.inj h
      exact recordConstraints_proper hlabel
  | branch name =>
      rw [hlabel] at h
      exact branchConstraints_proper hcontext h
  | string text | counter | iteration =>
      rw [hlabel] at h
      obtain rfl := Except.ok.inj h
      exact .boundKind builtIns _ _
  | clause | negation | var name | wildcard =>
      rw [hlabel] at h
      obtain rfl := Except.ok.inj h
      exact .nil
  | _ =>
      rw [hlabel] at h
      cases h

end Constraints

/-! ### Problems of clauses -/

namespace Problem

variable {env : TypeEnv} {problem : Problem}

theorem mem_vars_mention {var other : TypeVar} :
    other ∈ (problem.mention var).vars ↔ other = var ∨ other ∈ problem.vars := by
  unfold mention
  split
  · rename_i hmem
    have : var ∈ problem.vars := by simpa using hmem
    constructor
    · exact .inr
    · rintro (rfl | h)
      · exact this
      · exact h
  · simp [or_comm]

@[simp] theorem constraints_mention (var : TypeVar) :
    (problem.mention var).constraints = problem.constraints := by
  unfold mention
  split <;> rfl

theorem mem_vars_foldl_mention {vars : List TypeVar} {other : TypeVar} :
    other ∈ (vars.foldl mention problem).vars ↔ other ∈ vars ∨ other ∈ problem.vars := by
  induction vars generalizing problem with
  | nil => simp
  | cons var rest ih =>
      rw [List.foldl_cons, ih, mem_vars_mention, List.mem_cons, or_assoc, or_left_comm]

theorem constraints_foldl_mention (vars : List TypeVar) :
    (vars.foldl mention problem).constraints = problem.constraints := by
  induction vars generalizing problem with
  | nil => rfl
  | cons var rest ih => rw [List.foldl_cons, ih, constraints_mention]

/-- Mentioning more variables does not hurt. -/
theorem WellPosed.mono {other : Problem} (posed : problem.WellPosed env)
    (same : other.constraints = problem.constraints)
    (more : ∀ var ∈ problem.vars, var ∈ other.vars) : other.WellPosed env := by
  intro constraint hconstraint
  rw [same] at hconstraint
  obtain ⟨proper, mentioned⟩ := posed constraint hconstraint
  exact ⟨proper, fun var hvar => more var (mentioned var hvar)⟩

theorem WellPosed.mention (posed : problem.WellPosed env) (var : TypeVar) :
    (problem.mention var).WellPosed env :=
  posed.mono (constraints_mention var) fun _ hother => mem_vars_mention.mpr (.inr hother)

/-- Adding a proper constraint keeps a problem well-posed. -/
theorem WellPosed.add (posed : problem.WellPosed env) {constraint : Constraint}
    (proper : constraint.Proper env) : (problem.add constraint).WellPosed env := by
  have mentioned : (constraint.vars.foldl Problem.mention problem).WellPosed env :=
    posed.mono (constraints_foldl_mention _)
      fun _ hother => mem_vars_foldl_mention.mpr (.inr hother)
  refine List.forall_mem_append.mpr ⟨mentioned, ?_⟩
  refine List.forall_mem_singleton.mpr ⟨proper, fun var hvar => ?_⟩
  exact mem_vars_foldl_mention.mpr (.inl hvar)

theorem WellPosed.addNode (posed : problem.WellPosed env) (node : Node)
    {constraints : List Constraint} (proper : AllProper env constraints) :
    (problem.addNode node constraints).WellPosed env := by
  have mentioned : (if node.isArgument then problem.mention node.typeVar
      else problem).WellPosed env := by
    split
    · exact posed.mention _
    · exact posed
  unfold Problem.addNode
  generalize (if node.isArgument then problem.mention node.typeVar else problem) = start
    at mentioned
  induction constraints generalizing start with
  | nil => exact mentioned
  | cons constraint rest ih =>
      obtain ⟨hfirst, hrest⟩ := List.forall_mem_cons.mp proper
      exact ih hrest _ (mentioned.add hfirst)

end Problem

theorem visitsProblem_wellPosed {program : Program} {context : Context}
    (hcontext : Context.ofProgram program = .ok context) {resolutions : Resolutions}
    {visits : List NodeVisit} {start problem : Problem} (posed : start.WellPosed context.env)
    (h : visitsProblem context program resolutions visits start = .ok problem) :
    problem.WellPosed context.env := by
  induction visits generalizing start with
  | nil =>
      obtain rfl := Except.ok.inj h
      exact posed
  | cons visit rest ih =>
      rw [visitsProblem] at h
      split at h
      · rename_i constraints hconstraints
        exact ih (posed.addNode visit.node (nodeConstraints_proper hcontext hconstraints)) h
      · cases h

/-- The problem that a clause poses is well-posed, whatever has been resolved. -/
theorem clauseProblem_wellPosed {program : Program} {context : Context}
    (hcontext : Context.ofProgram program = .ok context) {resolutions : Resolutions}
    {clause : Node} {problem : Problem}
    (h : clauseProblem context program resolutions clause = .ok problem) :
    problem.WellPosed context.env := by
  refine visitsProblem_wellPosed hcontext ?_ h
  intro constraint hconstraint
  cases hconstraint

end DatalogTyping

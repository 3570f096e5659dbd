import DatalogTyping.Proofs.Annotations
import DatalogTyping.Proofs.BranchOwners
import DatalogTyping.Proofs.ClauseSolving
import DatalogTyping.Proofs.Passes
import DatalogTyping.Proofs.WaysUp

/-!
# Rounds without faults

If every type has a kind, the nodes of a program are as they should be and solving
its clauses comes to an end, no round of its analysis fails (`refined_eq_ok`):

* every clause has a solution, by what holds of solving clauses;
* the solutions give every argument a set of types, each type has a kind, and so
  every argument has kinds;
* the passes ask for no more than that, apart from operators that have no
  variants. For these the tables only ever hold the operator itself.

All of this is so if the environment has no unions and nothing below records
(`conditions_of_unionFree`).
-/

namespace DatalogTyping

/-! ### Kinds -/

namespace TypeEnv

variable {env : TypeEnv} {name root : String} {kind : Kind}

/-- All kinds, in the order in which they are tried on a type. -/
def triedKinds : List Kind := .record :: .adt :: Kind.primitives

theorem mem_triedKinds (kind : Kind) : kind ∈ triedKinds := by
  cases kind <;> decide

/-- The kind of a type is the first that it is of. -/
theorem kindOf_eq_find? (h : env.baseType name = .ok root) :
    env.kindOf name =
      (triedKinds.find? (env.isOfKind name)).elim (.error (.noSingleKind name)) .ok := by
  have hdef : env.baseDef? name = env.find? root := by simp [baseDef?, h]
  have record : env.isOfKind name .record ↔ ∃ fields, env.find? root = some (.record fields) := by
    rw [isOfKind_record_iff, hdef]
  have adt : env.isOfKind name .adt ↔ ∃ branches, env.find? root = some (.adt branches) := by
    rw [isOfKind_adt_iff, hdef]
  unfold kindOf
  simp only [h, bind, Except.bind, triedKinds]
  split
  · rename_i fields hroot
    rw [List.find?_cons_of_pos (record.mpr ⟨fields, hroot⟩)]
    rfl
  · rename_i branches hroot
    rw [List.find?_cons_of_neg (by simp [record, hroot]),
      List.find?_cons_of_pos (adt.mpr ⟨branches, hroot⟩)]
    rfl
  · rename_i notRecord notAdt
    rw [List.find?_cons_of_neg (by simpa [record] using notRecord),
      List.find?_cons_of_neg (by simpa [adt] using notAdt)]
    cases Kind.primitives.find? (env.isOfKind name) <;> rfl

/-- A type has no kind exactly if it is of none. -/
theorem kindOf_eq_error_iff (h : env.baseType name = .ok root) {fault : Fault} :
    env.kindOf name = .error fault ↔
      fault = .noSingleKind name ∧ ∀ kind, env.isOfKind name kind = false := by
  have none_iff : triedKinds.find? (env.isOfKind name) = none ↔
      ∀ kind, env.isOfKind name kind = false := by
    simp [List.find?_eq_none, mem_triedKinds]
  rw [kindOf_eq_find? h, ← none_iff]
  cases triedKinds.find? (env.isOfKind name) <;> simp [eq_comm]

/-- A type that is of a kind has one. -/
theorem exists_kindOf (h : env.baseType name = .ok root) (hof : env.isOfKind name kind) :
    ∃ found, env.kindOf name = .ok found := by
  cases hkind : env.kindOf name with
  | ok found => exact ⟨found, rfl⟩
  | error fault => simp [((kindOf_eq_error_iff h).mp hkind).2 kind] at hof

/-- Whether a type is of a kind can be said if its base can be found. -/
theorem askIsOfKind_eq_ok (h : env.baseType name = .ok root) (kind : Kind) :
    env.askIsOfKind name kind = .ok (env.isOfKind name kind) := by
  cases kind <;> simp [askIsOfKind, h, Except.map]

/-- Every type has a kind. -/
def Kinded (env : TypeEnv) : Prop :=
  ∀ name, env.isType name → ∃ kind, env.kindOf name = .ok kind

theorem kinded_of_names (h : ∀ name ∈ env.names, ∃ kind ∈ Kind.all, env.kindOf name = .ok kind) :
    env.Kinded := by
  intro name hname
  obtain ⟨kind, -, hkind⟩ := h name (mem_names_iff.mpr hname)
  exact ⟨kind, hkind⟩

/-- Every union has an element, and all elements are of one primitive kind. -/
def UnionsShareKinds (env : TypeEnv) : Prop :=
  ∀ name elements, env.elements? name = some elements →
    elements ≠ [] ∧ ∃ kind ∈ Kind.primitives, ∀ element ∈ elements, env.isOfKind element kind

theorem unionsShareKinds_of_names
    (h : ∀ name ∈ env.names, ∀ elements ∈ env.elements? name,
      elements ≠ [] ∧ ∃ kind ∈ Kind.primitives, ∀ element ∈ elements, env.isOfKind element kind) :
    env.UnionsShareKinds := by
  intro name elements helements
  refine h name (mem_names_iff.mpr ?_) elements helements
  simp [isType, elements?_eq_some.mp helements]

/-- Where unions have kinds, every type has one. -/
theorem WellFormed.kinded (wellFormed : env.WellFormed) (acyclic : env.Acyclic)
    (unions : env.UnionsShareKinds) : env.Kinded := by
  intro name h
  obtain ⟨root, definition, up, ends, hfind, hbase⟩ := wellFormed.exists_base h
  suffices ∃ kind, env.isOfKind name kind by
    obtain ⟨kind, hof⟩ := this
    exact exists_kindOf ((baseType_eq_ok_iff ends).mpr up) hof
  -- what is below a constant type at the end of the way up is so at its start
  have below {kind : Kind} {constant : String} (hconstant : constantName? kind = some constant)
      (hsub : env.isSubtype root constant) : env.isOfKind name kind :=
    (isOfKind_iff hconstant).mpr
      (acyclic.isSubtype_trans (acyclic.isSubtype_of_reaches up) hsub)
  cases definition with
  | record fields =>
      exact ⟨.record, (isOfKind_composite_iff (by decide)).mpr ⟨root, ⟨fields, hfind⟩, up⟩⟩
  | adt branches =>
      exact ⟨.adt, (isOfKind_composite_iff (by decide)).mpr ⟨root, ⟨branches, hfind⟩, up⟩⟩
  | constant kind => exact ⟨kind, below (wellFormed.constants hfind) (env.isSubtype_refl root)⟩
  | union elements =>
      have helements : env.elements? root = some elements := elements?_eq_some.mpr hfind
      obtain ⟨nonempty, kind, hkind, hall⟩ := unions root elements helements
      obtain ⟨constant, hconstant⟩ := exists_constant_of_primitive hkind
      have plain := target?_of_next?_none
        (next?_of_constant (wellFormed.builtIns.find?_constant hconstant))
      refine ⟨kind, below hconstant ((acyclic.isSubtype_union_iff helements plain).mpr ?_)⟩
      exact .inr ⟨nonempty, fun element h => (isOfKind_iff hconstant).mp (hall element h)⟩
  | _ => simp [TypeDef.isComposite] at hbase

/-- Without unions, every type has a kind. -/
theorem WellFormed.kinded_of_unionFree (wellFormed : env.WellFormed) (unionFree : env.UnionFree) :
    env.Kinded := by
  refine wellFormed.kinded (wellFormed.acyclic unionFree) fun name elements h => ?_
  rw [unionFree name] at h
  cases h

end TypeEnv

/-! ### Nodes as they should be -/

namespace Node

/-- The children of the node are of the number and class that its label asks for,
and it is no declaration. -/
def IsShaped (node : Node) : Prop :=
  match node.label with
  | .functor _ => ∀ child ∈ node.children, child.isArgument
  | .comparison _ =>
    ∃ left right, node.children = [left, right] ∧ left.isArgument ∧ right.isArgument
  | .field _ _ | .relationDecl _ | .functorDecl _ _ | .subsetDecl _ _ | .aliasDecl _ _
  | .unionDecl _ _ | .recordDecl _ | .branchDecl _ | .adtDecl _ => False
  | _ => True

end Node

/-- Nodes of the clauses that have the same identity are the same. -/
def Program.Identified (program : Program) : Prop :=
  ∀ node ∈ Node.nodesOf program.clauses, ∀ other ∈ Node.nodesOf program.clauses,
    node.id = other.id → node = other

/-- It is so if no identity occurs twice. -/
theorem Program.identified_of_nodup {program : Program}
    (h : ((Node.nodesOf program.clauses).map Node.id).Nodup) : program.Identified :=
  fun _ hnode _ hother same => List.inj_on_of_nodup_map h hnode hother same

/-- What is asked of the clauses of a program. -/
structure Program.WellShaped (context : Context) (program : Program) : Prop where
  identified : program.Identified
  shaped : ∀ node ∈ Node.nodesOf program.clauses, node.IsShaped
  /-- An aggregate that has variants has a target. -/
  targets : ∀ node ∈ Node.nodesOf program.clauses, ∀ op targeted,
    node.label = .aggregate op targeted → op.isOverloaded →
      ∃ target, node.target? = some target ∧ target.isArgument
  /-- The sum type that owns the branch of a constructor has that branch. -/
  branches : ∀ node ∈ Node.nodesOf program.clauses, ∀ name owner,
    node.label = .branch name → context.owner? name = some owner →
      ∃ branch, context.env.branch? owner name = .ok (some branch)

/-! ### Kinds of arguments -/

namespace Knowledge

variable {known : Knowledge} {nodes : List Node} {node : Node}

/-- Every argument has a set of types. -/
def Informed (known : Knowledge) (nodes : List Node) : Prop :=
  ∀ node ∈ nodes, node.isArgument →
    ∃ types, known.types.get? node.id = some types ∧ types.Known known.context.env

theorem kindsIn_eq_ok (kinded : known.context.env.Kinded) {types : TypeSet}
    (h : types.Known known.context.env) : ∃ kinds, known.kindsIn types = .ok kinds := by
  cases types with
  | all => exact ⟨_, rfl⟩
  | only names =>
      exact mapM_eq_ok fun name hname => kinded name (h name hname)

/-- A functor that is settled has a kind. -/
theorem returnKind_functor {symbol : String} (hlabel : node.label = .functor symbol)
    (settled : known.isSettled node) : ∃ kind, known.returnKind node = .ok kind := by
  have hentry : (known.resolutions.functors.get? node.id).isSome := by
    simpa [isSettled, hlabel, Table.contains] using settled
  obtain ⟨overload, hoverload⟩ := Option.isSome_iff_exists.mp hentry
  have hresolved : known.overloadOf node = .ok overload := by simp [overloadOf, settled, hoverload]
  refine ⟨overload.result, ?_⟩
  simp only [returnKind, hlabel, hresolved]
  rfl

/-- A call that is settled has the kind of the declared return type. -/
theorem returnKind_call (kinded : known.context.env.Kinded) {name : String}
    (hlabel : node.label = .call name)
    (settled : known.isSettled node) : ∃ kind, known.returnKind node = .ok kind := by
  obtain ⟨signature, hsignature, usable⟩ :
      ∃ signature, known.context.signature? name = some signature ∧
        known.context.isUsable signature := by
    simp only [isSettled, hlabel] at settled
    split at settled
    · exact ⟨_, ‹_›, settled⟩
    · cases settled
  have hresult := (Context.isType_of_isUsable usable).1
  obtain ⟨definition, hfind⟩ := Option.isSome_iff_exists.mp hresult
  obtain ⟨kind, hkind⟩ := kinded signature.result hresult
  have hreturn : known.returnType node = .ok signature.result := by
    simp [returnType, signatureOf, settled, hlabel, Label.name?, hsignature, TypeEnv.require,
      TypeEnv.get, hfind, bind, Except.bind, Except.map]
  refine ⟨kind, ?_⟩
  simp only [returnKind, hlabel, hreturn]
  exact hkind

theorem kindsOf_eq_ok (kinded : known.context.env.Kinded) {types : TypeSet}
    (htypes : known.types.get? node.id = some types) (hknown : types.Known known.context.env) :
    ∃ kinds, known.kindsOf node = .ok kinds := by
  obtain ⟨kinds, hkinds⟩ := kindsIn_eq_ok kinded hknown
  have hset : known.typesOf node = .ok types := by simp [typesOf, htypes]
  unfold kindsOf
  by_cases settled : known.isSettled node
  · cases hlabel : node.label with
    | functor symbol =>
        obtain ⟨kind, hkind⟩ := returnKind_functor hlabel settled
        simp [settled, hkind, Except.map]
    | call name =>
        obtain ⟨kind, hkind⟩ := returnKind_call kinded hlabel settled
        simp [settled, hkind, Except.map]
    | _ => simp [hset, hkinds]
  · simp [settled, hset, hkinds]

end Knowledge

/-! ### Choices -/

theorem firstOr_mem (kinds : List Kind) (condition : Kind → Bool) :
    firstOr kinds condition ∈ Kind.signed :: kinds := by
  unfold firstOr
  cases hfound : kinds.find? condition with
  | none => exact List.mem_cons_self
  | some kind => exact List.mem_cons_of_mem _ (List.mem_of_find?_eq_some hfound)

theorem requireVariant_eq_ok_iff {α : Type} {name : String} {overloaded : Bool} {missing : Fault}
    {variant? : Option α} {variant : α} :
    requireVariant name overloaded missing variant? = .ok variant ↔
      overloaded ∧ variant? = some variant := by
  cases overloaded <;> cases variant? <;> simp [requireVariant]

/-- An operator that has variants for some kinds and the default has one for the first of
them that satisfies a condition. -/
theorem exists_requireVariant {α : Type} {name : String} {overloaded : Bool}
    {missing : Fault} {variant? : Kind → Option α} {kinds : List Kind} (h : overloaded)
    (total : ∀ kind ∈ .signed :: kinds, (variant? kind).isSome) (condition : Kind → Bool) :
    ∃ variant, requireVariant name overloaded missing (variant? (firstOr kinds condition)) =
      .ok variant := by
  obtain ⟨variant, hvariant⟩ :=
    Option.isSome_iff_exists.mp (total _ (firstOr_mem kinds condition))
  exact ⟨variant, requireVariant_eq_ok_iff.mpr ⟨h, hvariant⟩⟩

theorem AggregateOp.exists_convert {op : AggregateOp} (overloaded : op.isOverloaded)
    (condition : Kind → Bool) :
    ∃ variant, op.convert (firstOr [.float, .unsigned] condition) = .ok variant := by
  have total : ∀ kind ∈ [Kind.signed, .float, .unsigned], (op.variant? kind).isSome := by
    cases op <;> first | decide | cases overloaded
  exact exists_requireVariant overloaded total condition

theorem ComparisonOp.exists_convert {op : ComparisonOp} (overloaded : op.isOverloaded)
    (condition : Kind → Bool) :
    ∃ variant, op.convert (firstOr [.float, .unsigned, .symbol] condition) = .ok variant := by
  have total : ∀ kind ∈ [Kind.signed, .float, .unsigned, .symbol], (op.variant? kind).isSome := by
    cases op <;> first | decide | cases overloaded
  exact exists_requireVariant overloaded total condition

/-- The operator of a node, if it has no variants. -/
def Node.fixedOp? (node : Node) : (pass : Pass) → Option pass.Value
  | .aggregates => match node.label with
    | .aggregate op _ => if op.isOverloaded then none else some op
    | _ => none
  | .comparisons => match node.label with
    | .comparison op => if op.isOverloaded then none else some op
    | _ => none
  | .functors | .numerals => none

/-- An operator that has no variants is recorded as itself or not at all. -/
def Resolutions.KeepsFixed (resolutions : Resolutions) (node : Node) : Prop :=
  ∀ pass op, node.fixedOp? pass = some op →
    ∀ recorded, (resolutions.table pass).get? node.id = some recorded → recorded = op

theorem fixedChoice_eq_ok_of_recorded {α : Type} [DecidableEq α] {table : Table α} {node : Node}
    {op : α} (h : ∀ recorded, table.get? node.id = some recorded → recorded = op) :
    fixedChoice table node op = .ok (some op) := by
  unfold fixedChoice
  split
  · rename_i recorded hrecorded
    rw [if_pos (h recorded hrecorded)]
  · rfl

theorem Knowledge.choice_of_fixedOp? {known : Knowledge} {node : Node} {pass : Pass}
    {op : pass.Value} (h : node.fixedOp? pass = some op) :
    known.choice node pass = fixedChoice (known.resolutions.table pass) node op := by
  cases pass with
  | aggregates =>
      simp only [Node.fixedOp?] at h
      split at h
      · rename_i hlabel
        split at h
        · cases h
        · rename_i plain
          obtain rfl := Option.some.inj h
          simp only [choice, hlabel, aggregateChoice, plain, Bool.false_eq_true, ↓reduceIte]
          rfl
      · cases h
  | comparisons =>
      simp only [Node.fixedOp?] at h
      split at h
      · rename_i hlabel
        split at h
        · cases h
        · rename_i plain
          obtain rfl := Option.some.inj h
          simp only [choice, hlabel, comparisonChoice, plain, Bool.false_eq_true, ↓reduceIte]
          rfl
      · cases h
  | _ => cases h

namespace Knowledge

/-- What it takes for the passes to run without a fault, whatever the resolutions
are. -/
structure Ready (program : Program) (known : Knowledge) : Prop where
  kinded : known.context.env.Kinded
  informed : known.Informed (Node.nodesOf program.clauses)
  shaped : program.WellShaped known.context

variable {program : Program} {known : Knowledge} {node : Node}

theorem Ready.with_resolutions (ready : known.Ready program) (resolutions : Resolutions) :
    Ready program { known with resolutions } :=
  ⟨ready.kinded, ready.informed, ready.shaped⟩

/-- The two questions that passes ask about the kinds of an argument have answers. -/
theorem Ready.kinds (ready : known.Ready program) (hnode : node ∈ Node.nodesOf program.clauses)
    (isArgument : node.isArgument) :
    (∃ kinds, known.kindsOf node = .ok kinds) ∧ ∃ kinds, known.kindsPresent node = .ok kinds := by
  obtain ⟨types, htypes, hknown⟩ := ready.informed node hnode isArgument
  obtain ⟨kinds, hkinds⟩ := kindsOf_eq_ok ready.kinded htypes hknown
  refine ⟨⟨kinds, hkinds⟩, ?_⟩
  unfold kindsPresent
  cases types with
  | all => simp [typesOf, htypes]
  | only names => simp [typesOf, htypes, hkinds]

theorem Ready.aggregateChoice (ready : known.Ready program)
    (hnode : node ∈ Node.nodesOf program.clauses) {op : AggregateOp} {targeted : Bool}
    (hlabel : node.label = .aggregate op targeted) (fixed : known.resolutions.KeepsFixed node) :
    ∃ value, known.aggregateChoice node op = .ok value := by
  unfold Knowledge.aggregateChoice
  by_cases overloaded : op.isOverloaded
  · obtain ⟨target, htarget, isArgument⟩ :=
      ready.shaped.targets node hnode op targeted hlabel overloaded
    have hchild : target ∈ node.children := by
      unfold Node.target? at htarget
      split at htarget
      · exact List.mem_of_head? htarget
      · cases htarget
    obtain ⟨kinds, hkinds⟩ :=
      (ready.kinds (Node.child_mem_nodesOf _ hnode hchild) isArgument).2
    obtain ⟨variant, hvariant⟩ := AggregateOp.exists_convert overloaded kinds.contains
    refine ⟨some variant, ?_⟩
    simp only [overloaded, ↓reduceIte, htarget, hkinds, hvariant, bind, Except.bind]
    rfl
  · have hop : node.fixedOp? .aggregates = some op := by
      simp only [Node.fixedOp?, hlabel]
      exact if_neg overloaded
    refine ⟨some op, ?_⟩
    simp only [overloaded, Bool.false_eq_true, ↓reduceIte]
    exact fixedChoice_eq_ok_of_recorded (fixed .aggregates op hop)

theorem Ready.comparisonChoice (ready : known.Ready program)
    (hnode : node ∈ Node.nodesOf program.clauses) {op : ComparisonOp}
    (hlabel : node.label = .comparison op) (fixed : known.resolutions.KeepsFixed node) :
    ∃ value, known.comparisonChoice node op = .ok value := by
  unfold Knowledge.comparisonChoice
  by_cases overloaded : op.isOverloaded
  · have shaped := ready.shaped.shaped node hnode
    simp only [Node.IsShaped, hlabel] at shaped
    obtain ⟨left, right, hchildren, leftArgument, rightArgument⟩ := shaped
    obtain ⟨-, leftKinds, hleft⟩ := ready.kinds
      (Node.child_mem_nodesOf _ hnode (by simp [hchildren])) leftArgument
    obtain ⟨-, rightKinds, hright⟩ := ready.kinds
      (Node.child_mem_nodesOf _ hnode (by simp [hchildren])) rightArgument
    obtain ⟨variant, hvariant⟩ := ComparisonOp.exists_convert overloaded fun kind =>
      leftKinds.contains kind && rightKinds.contains kind
    refine ⟨some variant, ?_⟩
    simp only [overloaded, ↓reduceIte, hchildren, hleft, hright, hvariant, bind, Except.bind]
    rfl
  · have hop : node.fixedOp? .comparisons = some op := by
      simp only [Node.fixedOp?, hlabel]
      exact if_neg overloaded
    refine ⟨some op, ?_⟩
    simp only [overloaded, Bool.false_eq_true, ↓reduceIte]
    exact fixedChoice_eq_ok_of_recorded (fixed .comparisons op hop)

/-- No choice fails. -/
theorem Ready.choice (ready : known.Ready program) (hnode : node ∈ Node.nodesOf program.clauses)
    (fixed : known.resolutions.KeepsFixed node) (pass : Pass) :
    ∃ value, known.choice node pass = .ok value := by
  cases pass with
  | functors =>
      cases hlabel : node.label with
      | functor symbol =>
          have shaped := ready.shaped.shaped node hnode
          simp only [Node.IsShaped, hlabel] at shaped
          obtain ⟨argKinds, hargs⟩ := mapM_eq_ok fun child hchild =>
            (ready.kinds (Node.child_mem_nodesOf _ hnode hchild) (shaped child hchild)).1
          obtain ⟨⟨ownKinds, hown⟩, -⟩ :=
            ready.kinds hnode (by rw [Node.isArgument, hlabel]; rfl)
          simp [Knowledge.choice, validOverloads, hlabel, hargs, hown, bind, Except.bind,
            Except.map, pure, Except.pure]
      | _ => exact ⟨_, choice_of_not_concerns (by simp [Pass.concerns, hlabel])⟩
  | numerals =>
      cases hlabel : node.label with
      | numeral text fixed =>
          cases fixed with
          | some kind => exact ⟨some kind, by simp [Knowledge.choice, hlabel]⟩
          | none =>
              obtain ⟨⟨kinds, hkinds⟩, -⟩ :=
                ready.kinds hnode (by rw [Node.isArgument, hlabel]; rfl)
              exact ⟨numeralChoice kinds, by simp [Knowledge.choice, hlabel, hkinds, Except.map]⟩
      | _ => exact ⟨_, choice_of_not_concerns (by simp [Pass.concerns, hlabel])⟩
  | aggregates =>
      cases hlabel : node.label with
      | aggregate op targeted =>
          simp only [Knowledge.choice, hlabel]
          exact ready.aggregateChoice hnode hlabel fixed
      | _ => exact ⟨_, choice_of_not_concerns (by simp [Pass.concerns, hlabel])⟩
  | comparisons =>
      cases hlabel : node.label with
      | comparison op =>
          simp only [Knowledge.choice, hlabel]
          exact ready.comparisonChoice hnode hlabel fixed
      | _ => exact ⟨_, choice_of_not_concerns (by simp [Pass.concerns, hlabel])⟩

end Knowledge

/-! ### Passes -/

section Passes

variable {program : Program} {known : Knowledge} {node : Node} {pass : Pass}
  {resolutions : Resolutions} {changed : Bool}

/-- No step records an operator that has no variants as another one. -/
theorem Resolutions.KeepsFixed.step {other : Node} (fixed : known.resolutions.KeepsFixed other)
    (h : pass.step known node = .ok (resolutions, changed))
    (apart : other.id = node.id → other = node) : resolutions.KeepsFixed other := by
  obtain ⟨value, hchoice, others, entries, -, -⟩ := Pass.step_eq_ok h
  intro kind op hop recorded hrecorded
  by_cases hkind : kind = pass
  · subst hkind
    rw [entries] at hrecorded
    split at hrecorded
    · rename_i hid
      obtain rfl := apart hid
      rw [Knowledge.choice_of_fixedOp? hop] at hchoice
      exact Option.some.inj (hrecorded.symm.trans (fixedChoice_eq_ok hchoice))
    · exact fixed kind op hop recorded hrecorded
  · rw [others kind hkind] at hrecorded
    exact fixed kind op hop recorded hrecorded

/-- What the tables hold for all nodes of a program. -/
def Resolutions.Lawful (program : Program) (resolutions : Resolutions) : Prop :=
  ∀ node ∈ Node.nodesOf program.clauses, resolutions.KeepsFixed node

theorem Resolutions.lawful_empty (program : Program) : Resolutions.Lawful program {} := by
  intro node _ pass op _ recorded hrecorded
  cases pass <;> cases hrecorded

theorem Pass.run_eq_ok (pass : Pass) {nodes : List Node} (ready : known.Ready program)
    (subset : ∀ node ∈ nodes, node ∈ Node.nodesOf program.clauses)
    (lawful : known.resolutions.Lawful program) :
    ∃ resolutions changed, pass.run known nodes = (resolutions, .ok changed) ∧
      resolutions.Lawful program := by
  induction nodes generalizing known with
  | nil => exact ⟨known.resolutions, false, rfl, lawful⟩
  | cons node rest ih =>
      obtain ⟨hnode, hrest⟩ := List.forall_mem_cons.mp subset
      obtain ⟨value, hchoice⟩ := ready.choice hnode (lawful node hnode) pass
      obtain ⟨⟨between, here⟩, hstep⟩ : ∃ outcome, pass.step known node = .ok outcome :=
        ⟨_, by rw [Pass.step_eq, hchoice]; rfl⟩
      -- nodes with one identifier are one node, so the step concerns no other
      have lawful' : between.Lawful program := fun other hother =>
        (lawful other hother).step hstep (ready.shaped.identified other hother node hnode)
      obtain ⟨resolutions, there, hrun, hlawful⟩ :=
        ih (ready.with_resolutions between) hrest lawful'
      exact ⟨resolutions, here || there, Knowledge.refineEach_cons_eq_ok.mpr
        ⟨between, here, there, Pass.attempt_eq_ok.mpr hstep, hrun, rfl⟩, hlawful⟩

theorem Pass.runAll_eq_ok {passes : List Pass} (ready : known.Ready program)
    (lawful : known.resolutions.Lawful program) :
    ∃ resolutions changed,
      Pass.runAll known (Node.nodesOf program.clauses) passes = (resolutions, .ok changed) ∧
        resolutions.Lawful program := by
  induction passes generalizing known with
  | nil => exact ⟨known.resolutions, false, rfl, lawful⟩
  | cons pass rest ih =>
      obtain ⟨between, here, hrun, lawful'⟩ :=
        Pass.run_eq_ok pass ready (fun _ h => h) lawful
      obtain ⟨resolutions, there, hrest, hlawful⟩ := ih (ready.with_resolutions between) lawful'
      exact ⟨resolutions, here || there, Knowledge.refineEach_cons_eq_ok.mpr
        ⟨between, here, there, hrun, hrest, rfl⟩, hlawful⟩

end Passes

/-! ### Clauses -/

section Clauses

variable {program : Program} {context : Context}

theorem nodeConstraints_eq_ok (shaped : program.WellShaped context) (resolutions : Resolutions)
    (negated : List NodeId) {node : Node} (hnode : node ∈ Node.nodesOf program.clauses) :
    ∃ constraints, nodeConstraints context program resolutions negated node = .ok constraints := by
  have hshape := shaped.shaped node hnode
  cases hlabel : node.label with
  | branch name =>
      refine nodeConstraints_of_owned hlabel fun owner howner => ?_
      exact shaped.branches node hnode name owner hlabel howner
  | comparison op =>
      simp only [Node.IsShaped, hlabel] at hshape
      obtain ⟨left, right, hchildren, -⟩ := hshape
      simp [nodeConstraints, hlabel, hchildren]
  | _ => simp_all [nodeConstraints, Node.IsShaped]

theorem visitsProblem_eq_ok (shaped : program.WellShaped context) (resolutions : Resolutions)
    {visits : List NodeVisit} (subset : ∀ visit ∈ visits, visit.node ∈ Node.nodesOf program.clauses)
    (problem : Problem) :
    ∃ posed, visitsProblem context program resolutions visits problem = .ok posed := by
  induction visits generalizing problem with
  | nil => exact ⟨problem, rfl⟩
  | cons visit rest ih =>
      obtain ⟨hnode, hrest⟩ := List.forall_mem_cons.mp subset
      obtain ⟨constraints, hconstraints⟩ :=
        nodeConstraints_eq_ok shaped resolutions visit.negated hnode
      simp only [visitsProblem, hconstraints]
      exact ih hrest _

/-- Solving any of the clauses comes to an end. -/
def Program.Stops (context : Context) (program : Program) (resolutions : Resolutions) : Prop :=
  ∀ clause ∈ program.clauses, ∀ problem,
    clauseProblem context program resolutions clause = .ok problem → problem.Stops context.env

/-- Without unions, and with nothing below records, every type has a kind and solving
comes to an end. -/
theorem Program.conditions_of_unionFree (hcontext : Context.ofProgram program = .ok context)
    (unionFree : context.env.UnionFree) (flat : context.env.NothingBelowRecords) :
    context.env.Acyclic ∧ context.env.Kinded ∧ ∀ resolutions, program.Stops context resolutions := by
  have wellFormed := Context.wellFormed_of_ofProgram hcontext
  have acyclic := wellFormed.acyclic unionFree
  refine ⟨acyclic, wellFormed.kinded_of_unionFree unionFree, fun resolutions _ _ _ hproblem => ?_⟩
  exact (clauseProblem_wellPosed hcontext hproblem).stops_of_nothingBelowRecords acyclic wellFormed
    flat

theorem clauseProblem_eq_ok (shaped : program.WellShaped context) (resolutions : Resolutions)
    {clause : Node} (hclause : clause ∈ program.clauses) :
    ∃ problem, clauseProblem context program resolutions clause = .ok problem :=
  visitsProblem_eq_ok shaped resolutions
    (fun _ hvisit => Node.mem_nodesOf.mpr ⟨clause, hclause, Node.mem_nodes_of_visit hvisit⟩) {}

/-- Every clause has a solution, in sets of types, if solving comes to an end. -/
theorem solveClauses_eq_ok (hcontext : Context.ofProgram program = .ok context)
    (acyclic : context.env.Acyclic) (shaped : program.WellShaped context)
    {resolutions : Resolutions} (stops : program.Stops context resolutions) {clauses : List Node}
    (subset : ∀ clause ∈ clauses, clause ∈ program.clauses) :
    ∃ solved, solveClauses context program resolutions clauses = (solved, none) ∧
      (∀ clause ∈ clauses, ∃ one ∈ solved, one.clause = clause) ∧
      ∀ one ∈ solved, ∀ var, (one.solution.assignment var).Known context.env := by
  induction clauses with
  | nil => exact ⟨[], rfl, by simp⟩
  | cons clause rest ih =>
      obtain ⟨hclause, hrest⟩ := List.forall_mem_cons.mp subset
      obtain ⟨problem, hproblem⟩ := clauseProblem_eq_ok shaped resolutions hclause
      obtain ⟨first, hfirst, hsame, hknown⟩ :=
        solveClause_eq_ok hcontext acyclic hproblem (stops clause hclause problem hproblem)
      obtain ⟨others, hothers, covered, known⟩ := ih hrest
      refine ⟨first :: others, by simp [solveClauses, hfirst, hothers], ?_, ?_⟩
      · refine List.forall_mem_cons.mpr ⟨⟨first, List.mem_cons_self, hsame⟩, fun other hother => ?_⟩
        obtain ⟨one, hone, hclause⟩ := covered other hother
        exact ⟨one, List.mem_cons_of_mem _ hone, hclause⟩
      · exact List.forall_mem_cons.mpr ⟨hknown, known⟩

end Clauses

/-! ### The table of types -/

theorem SolvedClause.entries_typing (solved : SolvedClause) :
    solved.typing.entries = solved.clause.arguments.map fun argument =>
      (argument, solved.solution.assignment argument.typeVar) := by
  have zipped : ∀ (arguments : List Node) (sets : Node → TypeSet),
      arguments.zip (arguments.map sets) =
        arguments.map fun argument => (argument, sets argument) := by
    intro arguments sets
    simpa using List.zip_map' (f := id) (g := sets) (l := arguments)
  exact zipped _ _

theorem SolvedClause.mem_entries {solved : SolvedClause} {entry : Node × TypeSet} :
    entry ∈ solved.typing.entries ↔
      ∃ argument ∈ solved.clause.arguments,
        (argument, solved.solution.assignment argument.typeVar) = entry := by
  rw [entries_typing, List.mem_map]

/-- The table holds what was entered last for an identity. -/
theorem get?_tabulate (typings : List ClauseTyping) (id : NodeId) :
    (tabulate typings).get? id =
      ((typings.flatMap ClauseTyping.entries).filter (·.1.id = id)).getLast?.map Prod.snd := by
  rw [tabulate]
  induction typings.flatMap ClauseTyping.entries using List.reverseRecOn with
  | nil => rfl
  | append_singleton entries final ih =>
      rw [List.foldl_concat, Table.get?_insert, ih, List.filter_append]
      by_cases same : final.1.id = id
      · simp [same]
      · simp [same, Ne.symm same]

/-- Whatever the table holds is the set of an argument of some clause. -/
theorem exists_of_get?_tabulate {solved : List SolvedClause} {id : NodeId} {types : TypeSet}
    (h : (tabulate (solved.map SolvedClause.typing)).get? id = some types) :
    ∃ one ∈ solved, ∃ argument ∈ one.clause.arguments,
      argument.id = id ∧ one.solution.assignment argument.typeVar = types := by
  rw [get?_tabulate] at h
  obtain ⟨last, hlast, rfl⟩ := Option.map_eq_some_iff.mp h
  obtain ⟨hin, hid⟩ := List.mem_filter.mp (List.mem_of_getLast? hlast)
  obtain ⟨typing, htyping, hin⟩ := List.mem_flatMap.mp hin
  obtain ⟨one, hone, rfl⟩ := List.mem_map.mp htyping
  obtain ⟨argument, hargument, rfl⟩ := SolvedClause.mem_entries.mp hin
  exact ⟨one, hone, argument, hargument, of_decide_eq_true hid, rfl⟩

/-- The table has an entry for every argument of a solved clause. It may be what a later
clause says about the node. -/
theorem exists_get?_tabulate {solved : List SolvedClause} {one : SolvedClause} (hone : one ∈ solved)
    {node : Node} (hnode : node ∈ one.clause.arguments) :
    ∃ other ∈ solved, ∃ argument ∈ other.clause.arguments, argument.id = node.id ∧
      (tabulate (solved.map SolvedClause.typing)).get? node.id =
        some (other.solution.assignment argument.typeVar) := by
  have hentry : (node, one.solution.assignment node.typeVar) ∈
      ((solved.map SolvedClause.typing).flatMap ClauseTyping.entries).filter
        (·.1.id = node.id) := by
    refine List.mem_filter.mpr ⟨List.mem_flatMap.mpr ⟨one.typing, List.mem_map_of_mem hone, ?_⟩,
      by simp⟩
    exact SolvedClause.mem_entries.mpr ⟨node, hnode, rfl⟩
  have hget := get?_tabulate (solved.map SolvedClause.typing) node.id
  rw [List.getLast?_eq_some_getLast (List.ne_nil_of_mem hentry), Option.map_some] at hget
  obtain ⟨other, hother, argument, hargument, hid, htypes⟩ := exists_of_get?_tabulate hget
  exact ⟨other, hother, argument, hargument, hid, hget.trans (congrArg some htypes.symm)⟩

/-! ### Rounds -/

namespace Program

variable {context : Context} {program : Program} {resolutions : Resolutions}

/-- What is known of a program once its clauses are solved under given resolutions. -/
def knowledge (context : Context) (program : Program) (resolutions : Resolutions) : Knowledge where
  context
  resolutions
  types := tabulate
    ((solveClauses context program resolutions program.clauses).1.map SolvedClause.typing)

/-- What a round makes of the resolutions, and whether it changes them. -/
def refined (context : Context) (program : Program) (resolutions : Resolutions) :
    Resolutions × Except Fault Bool :=
  Pass.runAll (program.knowledge context resolutions) (Node.nodesOf program.clauses) Pass.all

/-- Solving all clauses informs about all arguments. -/
theorem knowledge_ready (hcontext : Context.ofProgram program = .ok context)
    (acyclic : context.env.Acyclic) (kinded : context.env.Kinded)
    (shaped : program.WellShaped context) (stops : program.Stops context resolutions) :
    (program.knowledge context resolutions).Ready program := by
  refine ⟨kinded, ?_, shaped⟩
  intro node hnode isArgument
  obtain ⟨clause, hclause, hnode⟩ := Node.mem_nodesOf.mp hnode
  obtain ⟨solved, hsolved, covered, known⟩ :=
    solveClauses_eq_ok hcontext acyclic shaped stops fun _ h => h
  obtain ⟨one, hone, rfl⟩ := covered clause hclause
  obtain ⟨other, hother, argument, -, -, hget⟩ :=
    exists_get?_tabulate hone (List.mem_filter.mpr ⟨hnode, isArgument⟩)
  refine ⟨_, ?_, known other hother argument.typeVar⟩
  rw [knowledge, hsolved]
  exact hget

/-- No round fails. -/
theorem refined_eq_ok (hcontext : Context.ofProgram program = .ok context)
    (acyclic : context.env.Acyclic) (kinded : context.env.Kinded)
    (shaped : program.WellShaped context) (stops : program.Stops context resolutions)
    (lawful : resolutions.Lawful program) :
    ∃ after changed, program.refined context resolutions = (after, .ok changed) ∧
      after.Lawful program :=
  Pass.runAll_eq_ok (knowledge_ready hcontext acyclic kinded shaped stops) lawful

theorem round_eq (hcontext : Context.ofProgram program = .ok context)
    (acyclic : context.env.Acyclic) (shaped : program.WellShaped context) (analysis : Analysis)
    (stops : program.Stops context analysis.resolutions) (account : Bool) :
    (analysis.round context program account).1.resolutions =
        (program.refined context analysis.resolutions).1 ∧
      (analysis.round context program account).2 =
        (program.refined context analysis.resolutions).2 := by
  obtain ⟨solved, hsolved, -, -⟩ := solveClauses_eq_ok hcontext acyclic shaped stops fun _ h => h
  simp only [Analysis.round, Analysis.solve_eq, hsolved, Analysis.refine, refined, knowledge]
  exact ⟨rfl, rfl⟩

end Program

end DatalogTyping

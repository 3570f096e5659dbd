import DatalogTyping.Proofs.AcceptedClauses
import DatalogTyping.Proofs.Kinds

/-!
# Chosen overloads

In an accepted program, do the overloads that functors are resolved to agree with the
types found? For a functor that is not written between its arguments they do
(`SolvedClause.Accepted.agrees`): it is bound by its overload, and so are its
arguments. One that is written between them is bound to share base types with them
and to nothing else, so all three may keep types of several kinds. They keep the same
kinds, and that of the overload is among them if calls have as many arguments as they
should (`SolvedClause.Accepted.balances`). Two sums show that no more can be said
(`Program.overloads_between_disagree`).
-/

namespace DatalogTyping

/-! ### Kinds of arguments -/

theorem Knowledge.hasKind_of_kindsIn {known : Knowledge} {types : TypeSet} {kinds : List Kind}
    {kind : Kind} (h : known.kindsIn types = .ok kinds) (hmem : kind ∈ kinds) :
    known.context.env.hasKind types kind := by
  cases types with
  | all => rfl
  | only names =>
      obtain ⟨name, hname, hof⟩ := exists_mem_of_mapM_ok h hmem
      rw [Names.mem_toList] at hname
      exact TypeSet.hasKind_only.mpr ⟨name, hname, TypeEnv.isOfKind_of_kindOf hof⟩

namespace Node

/-- Every call of a declared functor in the tree has as many arguments as the functor is
declared with. -/
def IsSaturated (context : Context) (root : Node) : Prop :=
  ∀ node ∈ root.nodes, ∀ (name : String) (signature : Signature), node.label = .call name →
    context.signature? name = some signature → signature.params.length = node.children.length

variable {context : Context} {root child : Node}

theorem IsSaturated.of_mem_children (saturated : root.IsSaturated context)
    (hchild : child ∈ root.children) : child.IsSaturated context :=
  fun node hnode => saturated node (mem_nodes_of_child hchild hnode)

theorem exists_operand_of_between {symbol : String}
    (h : isWrittenBetween symbol root.children.length) : ∃ operand, operand ∈ root.children := by
  refine List.exists_mem_of_ne_nil _ fun empty => ?_
  simp [isWrittenBetween, empty] at h

end Node

namespace SolvedClause.Accepted

variable {context : Context} {program : Program} {resolutions : Resolutions} {one : SolvedClause}
  {node operand : Node} {symbol : String} {overload : Overload} {kind : Kind}

theorem assigns {argument : Node} (h : argument ∈ one.clause.arguments) :
    one.typing.Assigns argument (one.solution.assignment argument.typeVar) :=
  SolvedClause.mem_entries.mpr ⟨argument, h, rfl⟩

/-- A functor that is not written between its arguments has types of the kind of its
result. -/
theorem consists_result (accepted : one.Accepted context program resolutions)
    (hnode : node ∈ one.clause.nodes) (hlabel : node.label = .functor symbol)
    (hrecorded : resolutions.functors.get? node.id = some overload)
    (apart : ¬ isWrittenBetween symbol node.children.length)
    (hkind : overload.result ∈ Kind.primitives) :
    (one.solution.assignment node.typeVar).Consists fun name =>
      context.env.isOfKind name overload.result := by
  obtain ⟨constant, hconstant⟩ := TypeEnv.exists_constant_of_primitive hkind
  have rules := accepted.satisfies.functorRules.resolved node symbol overload _ hlabel hrecorded
    apart (assigns (Node.mem_arguments_of_functor hnode hlabel))
  exact (rules.1 constant hconstant).consists hconstant

/-- Its arguments have types of the kinds of its parameters, unless it is `ord`. -/
theorem consists_param (accepted : one.Accepted context program resolutions)
    (hnode : node ∈ one.clause.nodes) (hlabel : node.label = .functor symbol)
    (hrecorded : resolutions.functors.get? node.id = some overload)
    (apart : ¬ isWrittenBetween symbol node.children.length) (hop : overload.op ≠ .ord)
    {index : Nat} (hoperand : node.children[index]? = some operand)
    (hparam : overload.param? index = some kind) (hkind : kind ∈ Kind.primitives) :
    (one.solution.assignment operand.typeVar).Consists fun name =>
      context.env.isOfKind name kind := by
  obtain ⟨constant, hconstant⟩ := TypeEnv.exists_constant_of_primitive hkind
  have rules := accepted.satisfies.functorRules.resolved node symbol overload _ hlabel hrecorded
    apart (assigns (Node.mem_arguments_of_functor hnode hlabel))
  have hargument := accepted.operands node hnode symbol hlabel operand
    (List.mem_of_getElem? hoperand)
  exact (rules.2 hop index operand kind constant _ hoperand hparam hconstant
    (assigns hargument)).consists hconstant

/-- A functor that is written between its arguments shares its kinds with each. -/
theorem sharesKinds (accepted : one.Accepted context program resolutions)
    (acyclic : context.env.Acyclic) (wellFormed : context.env.WellFormed)
    (hnode : node ∈ one.clause.nodes) (hlabel : node.label = .functor symbol)
    (between : isWrittenBetween symbol node.children.length) (hoperand : operand ∈ node.children) :
    (one.solution.assignment operand.typeVar).SharesKinds context.env
      (one.solution.assignment node.typeVar) := by
  have rule := accepted.satisfies.functorRules.between node symbol operand _ _ hlabel between
    hoperand (assigns (accepted.operands node hnode symbol hlabel operand hoperand))
    (assigns (Node.mem_arguments_of_functor hnode hlabel))
  exact rule.sharesKinds acyclic wellFormed

/-- The overload of a functor that is written between its arguments is about one kind, and
either argument can be of that kind. -/
theorem fits_between (accepted : one.Accepted context program resolutions)
    (hnode : node ∈ one.clause.nodes) (hlabel : node.label = .functor symbol)
    (hrecorded : resolutions.functors.get? node.id = some overload)
    (between : isWrittenBetween symbol node.children.length) :
    overload.params = [overload.result, overload.result] ∧
      (∀ index operand, node.children[index]? = some operand →
        overload.param? index = some overload.result) ∧
      ∀ operand ∈ node.children, ∃ kinds,
        (program.knowledge context resolutions).kindsOf operand = .ok kinds ∧
          overload.result ∈ kinds := by
  obtain ⟨chosen, hsymbol, hchosen, fits⟩ := accepted.chosen node hnode symbol hlabel
  obtain rfl := Option.some.inj (hchosen.symm.trans hrecorded)
  obtain ⟨hmem, rfl⟩ := Overload.mem_ofSymbol.mp hsymbol
  have two : node.children.length = 2 := by
    simp only [isWrittenBetween, Bool.and_eq_true, beq_iff_eq] at between
    exact between.1
  have arity := fits.arity
  rw [two] at between arity
  obtain ⟨params, both⟩ := Overload.params_of_between hmem between arity
  have same : ∀ index operand, node.children[index]? = some operand →
      chosen.param? index = some chosen.result := by
    intro index operand hoperand
    exact both index (two ▸ (List.getElem?_eq_some_iff.mp hoperand).1)
  refine ⟨params, same, fun operand hoperand => ?_⟩
  obtain ⟨index, hindex⟩ := List.mem_iff_getElem?.mp hoperand
  obtain ⟨kind, kinds, hkind, hkinds, hin⟩ := fits.params index operand hindex
  obtain rfl := Option.some.inj (hkind.symm.trans (same index operand hindex))
  exact ⟨kinds, hkinds, hin⟩

/-- A kind that an argument is said to have is the kind of one of its types, if functors
are called with as many arguments as they are declared with. -/
theorem hasKind {operand : Node} {kind : Kind}
    (accepted : one.Accepted context program resolutions) (acyclic : context.env.Acyclic)
    (wellFormed : context.env.WellFormed)
    (hoperand : operand ∈ one.clause.arguments) (saturated : operand.IsSaturated context)
    {kinds : List Kind}
    (hkinds : (program.knowledge context resolutions).kindsOf operand = .ok kinds)
    (hmem : kind ∈ kinds) (hkind : kind ∈ Kind.primitives) :
    context.env.hasKind (one.solution.assignment operand.typeVar) kind := by
  induction operand using Node.childInduction generalizing kind kinds with
  | step operand ih =>
    have hnode : operand ∈ one.clause.nodes := (List.mem_filter.mp hoperand).1
    rcases Knowledge.kindsOf_cases hkinds with
      ⟨symbol, overload, hlabel, hrecorded, rfl⟩ | ⟨name, signature, found, hlabel, hsignature,
        usable, hfound, rfl⟩ | ⟨types, htypes, hin⟩
    · obtain rfl := List.mem_singleton.mp hmem
      by_cases between : isWrittenBetween symbol operand.children.length
      · -- its first argument can be of that kind, and shares its kinds with it
        obtain ⟨-, -, each⟩ := accepted.fits_between hnode hlabel hrecorded between
        obtain ⟨first, hfirst⟩ := Node.exists_operand_of_between between
        obtain ⟨kinds', hkinds', hmem'⟩ := each first hfirst
        have inFirst := ih first hfirst (accepted.operands operand hnode symbol hlabel first hfirst)
          (saturated.of_mem_children hfirst) hkinds' hmem' hkind
        exact (accepted.sharesKinds acyclic wellFormed hnode hlabel between hfirst).hasKind acyclic
          wellFormed.builtIns inFirst
      · exact TypeSet.hasKind_of_consists
          (accepted.consists_result hnode hlabel hrecorded between hkind)
          (accepted.inhabited operand hoperand)
    · obtain rfl := List.mem_singleton.mp hmem
      have arity := saturated operand (Node.mem_nodes_self operand) name signature hlabel hsignature
      obtain ⟨⟨names, hnames, below⟩, -⟩ := accepted.satisfies.declarationRules.calls operand name
        signature _ hlabel hsignature usable arity (assigns hoperand)
      refine TypeSet.hasKind_of_consists ⟨names, hnames, fun name hname => ?_⟩
        (accepted.inhabited operand hoperand)
      exact acyclic.isOfKind_down hkind (below name hname) (TypeEnv.isOfKind_of_kindOf hfound)
    · have same := htypes.symm.trans (accepted.types operand hoperand)
      rw [← Except.ok.inj same]
      exact Knowledge.hasKind_of_kindsIn hin hmem

end SolvedClause.Accepted

/-! ### Overloads and types -/

namespace Knowledge

/-- A call and its arguments have types of the kinds that the overload says, and no
others. -/
structure Agrees (known : Knowledge) (call : Node) (overload : Overload) : Prop where
  result : ∀ types, known.typesOf call = .ok types →
    types.AllOfKind known.context.env overload.result
  params : ∀ (index : Nat) (argument : Node), call.children[index]? = some argument →
    ∃ kind, overload.param? index = some kind ∧ ∀ types, known.typesOf argument = .ok types →
      types.AllOfKind known.context.env kind

/-- It does not agree if the call has a type of another kind than its result. -/
theorem not_agrees_of_mem {known : Knowledge} {call : Node} {overload : Overload} {names : Names}
    (h : known.typesOf call = .ok (.only names)) {name : String} (hname : name ∈ names)
    (hkind : ¬ known.context.env.isOfKind name overload.result) : ¬ known.Agrees call overload :=
  fun agrees => hkind (agrees.result _ h names rfl name hname)

/-- A functor that is written between its arguments is resolved to an overload for one
kind. It and its arguments can have types of other kinds as well, but only of the same
ones. If calls below it have as many arguments as they should, each of the three has a
type of the kind of the overload, so if one of them has types of one kind only, the
overload agrees with them all. -/
structure Balances (known : Knowledge) (call : Node) (overload : Overload) : Prop where
  params : overload.params = [overload.result, overload.result]
  shared : ∀ part ∈ call :: call.children, ∀ other ∈ call :: call.children,
    ∀ types others, known.typesOf part = .ok types → known.typesOf other = .ok others →
      types.SharesKinds known.context.env others
  present : call.IsSaturated known.context → ∀ part ∈ call :: call.children, ∀ types,
    known.typesOf part = .ok types → known.context.env.hasKind types overload.result
  unambiguous : call.IsSaturated known.context → ∀ part ∈ call :: call.children,
    ∀ names, ∀ kind ∈ Kind.primitives, known.typesOf part = .ok (.only names) →
      (∀ name ∈ names, known.context.env.isOfKind name kind) → known.Agrees call overload

end Knowledge

namespace SolvedClause.Accepted

variable {context : Context} {program : Program} {resolutions : Resolutions} {one : SolvedClause}
  {call : Node} {symbol : String} {overload : Overload}

theorem part_mem_arguments (accepted : one.Accepted context program resolutions)
    (hcall : call ∈ one.clause.nodes) (hlabel : call.label = .functor symbol) :
    ∀ part ∈ call :: call.children, part ∈ one.clause.arguments :=
  List.forall_mem_cons.mpr ⟨Node.mem_arguments_of_functor hcall hlabel,
    accepted.operands call hcall symbol hlabel⟩

theorem eq_of_typesOf (accepted : one.Accepted context program resolutions) {part : Node}
    {types : TypeSet} (hpart : part ∈ one.clause.arguments)
    (h : (program.knowledge context resolutions).typesOf part = .ok types) :
    types = one.solution.assignment part.typeVar :=
  Except.ok.inj (h.symm.trans (accepted.types part hpart))

/-- Whether an overload agrees can be read off the solution of the clause. -/
theorem agrees_of_assignment (accepted : one.Accepted context program resolutions)
    (hcall : call ∈ one.clause.nodes) (hlabel : call.label = .functor symbol)
    (result : (one.solution.assignment call.typeVar).AllOfKind context.env overload.result)
    (params : ∀ (index : Nat) (argument : Node), call.children[index]? = some argument →
      ∃ kind, overload.param? index = some kind ∧
        (one.solution.assignment argument.typeVar).AllOfKind context.env kind) :
    (program.knowledge context resolutions).Agrees call overload where
  result := by
    intro types htypes
    rw [accepted.eq_of_typesOf (Node.mem_arguments_of_functor hcall hlabel) htypes]
    exact result
  params := by
    intro index argument hargument
    obtain ⟨kind, hkind, each⟩ := params index argument hargument
    refine ⟨kind, hkind, fun types htypes => ?_⟩
    rw [accepted.eq_of_typesOf (accepted.operands call hcall symbol hlabel argument
      (List.mem_of_getElem? hargument)) htypes]
    exact each

/-- Any two parts of a functor that is written between its arguments share their kinds. -/
theorem parts_share (accepted : one.Accepted context program resolutions)
    (acyclic : context.env.Acyclic) (wellFormed : context.env.WellFormed)
    (hcall : call ∈ one.clause.nodes) (hlabel : call.label = .functor symbol)
    (between : isWrittenBetween symbol call.children.length) {part other : Node}
    (hpart : part ∈ call :: call.children) (hother : other ∈ call :: call.children) :
    (one.solution.assignment part.typeVar).SharesKinds context.env
      (one.solution.assignment other.typeVar) := by
  -- by way of the call itself, which an operand says it shares its kinds with
  obtain ⟨operand, hoperand⟩ := Node.exists_operand_of_between between
  have withCall : ∀ part ∈ call :: call.children,
      (one.solution.assignment part.typeVar).SharesKinds context.env
        (one.solution.assignment call.typeVar) := by
    refine List.forall_mem_cons.mpr ⟨?_, fun part hpart =>
      accepted.sharesKinds acyclic wellFormed hcall hlabel between hpart⟩
    have shares := accepted.sharesKinds acyclic wellFormed hcall hlabel between hoperand
    exact shares.symm.trans shares acyclic wellFormed.builtIns
  exact (withCall part hpart).trans (withCall other hother).symm acyclic wellFormed.builtIns

/-- The overload of a functor that is not written between its arguments agrees. -/
theorem agrees (accepted : one.Accepted context program resolutions)
    (hcall : call ∈ one.clause.nodes) (hlabel : call.label = .functor symbol)
    (hord : symbol ≠ "ord") (hrecorded : resolutions.functors.get? call.id = some overload)
    (apart : ¬ isWrittenBetween symbol call.children.length) :
    (program.knowledge context resolutions).Agrees call overload ∧
      ∀ part ∈ call :: call.children,
        (program.knowledge context resolutions).typesOf part ≠ .ok .all := by
  obtain ⟨chosen, hsymbol, hchosen, fits⟩ := accepted.chosen call hcall symbol hlabel
  obtain rfl := Option.some.inj (hchosen.symm.trans hrecorded)
  obtain ⟨hmem, rfl⟩ := Overload.mem_ofSymbol.mp hsymbol
  obtain ⟨hop, hresult, hparams⟩ := Overload.primitive_of_symbol_ne_ord hmem hord
  have result := (accepted.consists_result hcall hlabel hrecorded apart hresult).allOfKind
  have param : ∀ index argument, call.children[index]? = some argument →
      ∃ kind, chosen.param? index = some kind ∧
        one.solution.assignment argument.typeVar ≠ .all ∧
        (one.solution.assignment argument.typeVar).AllOfKind context.env kind := by
    intro index argument hargument
    obtain ⟨kind, -, hkind, -⟩ := fits.params index argument hargument
    exact ⟨kind, hkind, (accepted.consists_param hcall hlabel hrecorded apart hop hargument hkind
      (hparams kind (List.mem_of_getElem? hkind))).allOfKind⟩
  have finite : ∀ part ∈ call :: call.children, one.solution.assignment part.typeVar ≠ .all := by
    refine List.forall_mem_cons.mpr ⟨result.1, fun argument hargument => ?_⟩
    obtain ⟨index, hindex⟩ := List.mem_iff_getElem?.mp hargument
    obtain ⟨kind, -, finite, -⟩ := param index argument hindex
    exact finite
  refine ⟨accepted.agrees_of_assignment hcall hlabel result.2 fun index argument hargument => ?_,
    fun part hpart htypes => finite part hpart ?_⟩
  · obtain ⟨kind, hkind, -, each⟩ := param index argument hargument
    exact ⟨kind, hkind, each⟩
  · exact (accepted.eq_of_typesOf (accepted.part_mem_arguments hcall hlabel part hpart) htypes).symm

/-- The overload of a functor that is written between its arguments agrees as far as it
can. -/
theorem balances (accepted : one.Accepted context program resolutions)
    (acyclic : context.env.Acyclic) (wellFormed : context.env.WellFormed)
    (hcall : call ∈ one.clause.nodes) (hlabel : call.label = .functor symbol)
    (hord : symbol ≠ "ord") (hrecorded : resolutions.functors.get? call.id = some overload)
    (between : isWrittenBetween symbol call.children.length) :
    (program.knowledge context resolutions).Balances call overload := by
  obtain ⟨chosen, hsymbol, hchosen, -⟩ := accepted.chosen call hcall symbol hlabel
  obtain rfl := Option.some.inj (hchosen.symm.trans hrecorded)
  obtain ⟨hmem, rfl⟩ := Overload.mem_ofSymbol.mp hsymbol
  obtain ⟨-, hresult, -⟩ := Overload.primitive_of_symbol_ne_ord hmem hord
  obtain ⟨params, same, -⟩ := accepted.fits_between hcall hlabel hrecorded between
  have arguments := accepted.part_mem_arguments hcall hlabel
  have share : ∀ {part other}, part ∈ call :: call.children → other ∈ call :: call.children →
      (one.solution.assignment part.typeVar).SharesKinds context.env
        (one.solution.assignment other.typeVar) :=
    fun hpart hother => accepted.parts_share acyclic wellFormed hcall hlabel between hpart hother
  have present : call.IsSaturated context → ∀ part ∈ call :: call.children,
      context.env.hasKind (one.solution.assignment part.typeVar) chosen.result := by
    intro saturated part hpart
    have own := accepted.hasKind acyclic wellFormed (arguments call List.mem_cons_self) saturated
      (Knowledge.kindsOf_functor hlabel hrecorded) (List.mem_singleton_self _) hresult
    exact (share List.mem_cons_self hpart).hasKind acyclic wellFormed.builtIns own
  refine ⟨params, ?_, ?_, ?_⟩
  · intro part hpart other hother types others htypes hothers
    rw [accepted.eq_of_typesOf (arguments part hpart) htypes,
      accepted.eq_of_typesOf (arguments other hother) hothers]
    exact share hpart hother
  · intro saturated part hpart types htypes
    rw [accepted.eq_of_typesOf (arguments part hpart) htypes]
    exact present saturated part hpart
  · intro saturated part hpart names kind hkind htypes each
    have heq := accepted.eq_of_typesOf (arguments part hpart) htypes
    -- the only kind of the part is that of the overload
    obtain rfl : kind = chosen.result := by
      have hpresent := present saturated part hpart
      rw [← heq] at hpresent
      obtain ⟨name, hname, hof⟩ := TypeSet.hasKind_only.mp hpresent
      exact acyclic.isOfKind_unique wellFormed.builtIns (each name hname) hof
    have all : ∀ other ∈ call :: call.children,
        (one.solution.assignment other.typeVar).AllOfKind context.env chosen.result := by
      intro other hother
      refine (share hpart hother).allOfKind acyclic wellFormed.builtIns ?_
      rw [← heq]
      rintro _ ⟨⟩
      exact each
    refine accepted.agrees_of_assignment hcall hlabel (all call List.mem_cons_self) ?_
    intro index argument hargument
    exact ⟨chosen.result, same index argument hargument,
      all argument (List.mem_cons_of_mem call (List.mem_of_getElem? hargument))⟩

end SolvedClause.Accepted

namespace Program

variable {context : Context} {program : Program} {account : Bool} {limit : Nat}

/-- Every built-in functor of an accepted program, `ord` apart, is resolved to an overload
of its symbol. If it is not written between its arguments, the types found for it and
for them are of the kinds that the overload says. If it is, they need only be of the
same kinds as each other, among them that of the overload. -/
theorem chosen_overloads_agree (hcontext : Context.ofProgram program = .ok context)
    (acyclic : context.env.Acyclic) (identified : program.Identified)
    (apart : program.ClausesApart) (accepted : program.IsAccepted context account limit)
    {call : Node} (hcall : call ∈ Node.nodesOf program.clauses) {symbol : String}
    (hlabel : call.label = .functor symbol) (hord : symbol ≠ "ord") :
    ∃ overload ∈ Overload.ofSymbol symbol,
      (program.known context account limit).overloadOf call = .ok overload ∧
      (∀ part ∈ call :: call.children, ∃ types,
        (program.known context account limit).typesOf part = .ok types ∧
          types.isEmpty = false) ∧
      (¬ isWrittenBetween symbol call.children.length →
        (program.known context account limit).Agrees call overload ∧
          ∀ part ∈ call :: call.children,
            (program.known context account limit).typesOf part ≠ .ok .all) ∧
      (isWrittenBetween symbol call.children.length →
        (program.known context account limit).Balances call overload) := by
  obtain ⟨resolutions, hknown, clauses⟩ :=
    accepted.exists_clause hcontext acyclic identified apart
  obtain ⟨one, clause, hnode⟩ := clauses call hcall
  obtain ⟨overload, hsymbol, hrecorded, -⟩ := clause.chosen call hnode symbol hlabel
  have arguments := clause.part_mem_arguments hnode hlabel
  rw [hknown]
  refine ⟨overload, hsymbol, Knowledge.overloadOf_functor hlabel hrecorded,
    fun part hpart => ?_, ?_, ?_⟩
  · exact ⟨_, clause.types part (arguments part hpart),
      clause.inhabited part (arguments part hpart)⟩
  · intro notBetween
    exact clause.agrees hnode hlabel hord hrecorded notBetween
  · intro between
    exact clause.balances acyclic (Context.wellFormed_of_ofProgram hcontext) hnode hlabel hord
      hrecorded between

/-- The sum in the clause `A(to_string(x+1)).` -/
def steadySum : Node :=
  .mk 3 none (.functor "+") [.mk 4 none (.var "x") [], .mk 5 none (.numeral "1" none) []]

/-- Both functors of the clause are resolved for signed numbers. As the numeral has types
of that kind only, so have the sum and the variable. -/
theorem chosen_overloads_agree_steadyProgram :
    Context.ofProgram steadyProgram = .ok bareContext ∧ bareContext.env.Acyclic ∧
      steadyProgram.Identified ∧ steadyProgram.ClausesApart ∧
      steadyProgram.IsAccepted bareContext true 5 ∧
      (∃ overload, (steadyProgram.known bareContext true 5).overloadOf steadySum = .ok overload ∧
        (steadyProgram.known bareContext true 5).Agrees steadySum overload) ∧
      ∃ overload, (steadyProgram.known bareContext true 5).overloadOf
          (.mk 2 none (.functor "to_string") [steadySum]) = .ok overload ∧
        (steadyProgram.known bareContext true 5).Agrees
          (.mk 2 none (.functor "to_string") [steadySum]) overload := by
  have hcontext : Context.ofProgram steadyProgram = .ok bareContext := by rfl
  have acyclic : bareContext.env.Acyclic := TypeEnv.acyclic_of_ordered (by decide)
  have identified : steadyProgram.Identified := identified_of_nodup (by decide)
  have apart : steadyProgram.ClausesApart := by
    unfold ClausesApart Node.Apart
    decide
  have accepted : steadyProgram.IsAccepted bareContext true 5 :=
    ⟨by decide +kernel, by decide +kernel⟩
  refine ⟨hcontext, acyclic, identified, apart, accepted, ?_, ?_⟩
  · obtain ⟨overload, -, hoverload, -, -, balances⟩ := chosen_overloads_agree hcontext acyclic
      identified apart accepted (show steadySum ∈ Node.nodesOf steadyProgram.clauses by
        simp [steadySum, steadyProgram, Node.nodesOf, Node.nodes]) rfl (by decide)
    have saturated : steadySum.IsSaturated bareContext := by
      intro node _ name signature _ hsignature
      cases hsignature
    have numbers : (steadyProgram.known bareContext true 5).typesOf
        (.mk 5 none (.numeral "1" none) []) = .ok (.only (.ofList ["__numberConstant"])) := by
      decide +kernel
    refine ⟨overload, hoverload, (balances (by decide)).unambiguous saturated _ (by
      simp [steadySum, Node.children]) _ .signed (by decide) numbers fun name hname => ?_⟩
    rw [Names.mem_ofList, List.mem_singleton] at hname
    subst hname
    exact TypeEnv.isSubtype_refl _ _
  · obtain ⟨overload, -, hoverload, -, agrees, -⟩ := chosen_overloads_agree hcontext acyclic
      identified apart accepted (show Node.mk 2 none (.functor "to_string") [steadySum] ∈
        Node.nodesOf steadyProgram.clauses by
          simp [steadySum, steadyProgram, Node.nodesOf, Node.nodes]) rfl (by decide)
    exact ⟨overload, hoverload, (agrees (by decide)).1⟩

/-! ### Overloads that disagree -/

/-- The program is accepted, and a call in it and its arguments have the given types, and
yet the overload that it is resolved to does not agree with them. -/
structure Misjudges (context : Context) (program : Program) (call : Node) (overload : Overload)
    (types : TypeSet) : Prop where
  declared : Context.ofProgram program = .ok context
  acyclic : context.env.Acyclic
  unionFree : context.env.UnionFree
  identified : program.Identified
  apart : program.ClausesApart
  accepted : program.IsAccepted context true 5
  among : call ∈ Node.nodesOf program.clauses
  resolved : (program.known context true 5).overloadOf call = .ok overload
  found : ∀ part ∈ call :: call.children,
    (program.known context true 5).typesOf part = .ok types
  disagrees : ¬ (program.known context true 5).Agrees call overload

/-- The sum `(sum x : { B(x) }) + y`. -/
def ambiguousSum : Node :=
  .mk 2 none (.functor "+") [
    .mk 3 none (.aggregate .sum true) [.mk 4 none (.var "x") [],
      .mk 5 none (.atom "B") [.mk 6 none (.var "x") []]],
    .mk 7 none (.var "y") []]

/-- The clause `A((sum x : { B(x) }) + y).` -/
def ambiguousProgram : Program where
  clauses := [.mk 0 none .clause [.mk 1 none (.atom "A") [ambiguousSum]]]

/-- The sum `@f(1,2) + @f(3,4)`. -/
def mismatchedSum : Node :=
  .mk 11 none (.functor "+") [
    .mk 12 none (.call "f")
      [.mk 13 none (.numeral "1" none) [], .mk 14 none (.numeral "2" none) []],
    .mk 15 none (.call "f")
      [.mk 16 none (.numeral "3" none) [], .mk 17 none (.numeral "4" none) []]]

/-- The functor `f`, which takes one number to a float, and the clause
`A(z) :- z = 1, z = @f(1,2) + @f(3,4).` -/
def mismatchedProgram : Program where
  functors := [.mk 0 none (.functorDecl "f" false) [
    .mk 1 none (.field "a" "number") [], .mk 2 none (.field "r" "float") []]]
  clauses := [.mk 3 none .clause [
    .mk 4 none (.atom "A") [.mk 5 none (.var "z") []],
    .mk 6 none (.comparison .eq) [.mk 7 none (.var "z") [], .mk 8 none (.numeral "1" none) []],
    .mk 9 none (.comparison .eq) [.mk 10 none (.var "z") [], mismatchedSum]]]

def mismatchedContext : Context := ⟨.builtIn, [], mismatchedProgram.signatures⟩

/-- Nothing says what kind of numbers `ambiguousSum` is about. It is resolved for signed
numbers, and yet it and its arguments keep the types of all three kinds. The calls in
`mismatchedSum` have an argument too many, so nothing binds them to the declared type,
and yet that type decides which overload fits: the sum is resolved for floats, and it
and its arguments are signed numbers. -/
theorem overloads_between_disagree :
    ambiguousProgram.Misjudges bareContext ambiguousSum
      ⟨"+", [.signed, .signed], .signed, .add, false, false⟩
      (.ofList ["__floatConstant", "__numberConstant", "__unsignedConstant"]) ∧
    mismatchedProgram.Misjudges mismatchedContext mismatchedSum
      ⟨"+", [.float, .float], .float, .fadd, false, false⟩ (.ofList ["__numberConstant"]) := by
  have ambiguous : ∀ part ∈ ambiguousSum :: ambiguousSum.children,
      (ambiguousProgram.known bareContext true 5).typesOf part =
        .ok (.ofList ["__floatConstant", "__numberConstant", "__unsignedConstant"]) := by
    decide +kernel
  have mismatched : ∀ part ∈ mismatchedSum :: mismatchedSum.children,
      (mismatchedProgram.known mismatchedContext true 5).typesOf part =
        .ok (.ofList ["__numberConstant"]) := by decide +kernel
  refine ⟨⟨by rfl, TypeEnv.acyclic_of_ordered (by decide), bareContext_unionFree,
    identified_of_nodup (by decide), ?_, ⟨by decide +kernel, by decide +kernel⟩, ?_,
    by decide +kernel, ambiguous, ?_⟩, ⟨by rfl, TypeEnv.acyclic_of_ordered (by decide),
    TypeEnv.unionFree_of_names (by decide), identified_of_nodup (by decide), ?_,
    ⟨by decide +kernel, by decide +kernel⟩, ?_, by decide +kernel, mismatched, ?_⟩⟩
  · unfold ClausesApart Node.Apart
    decide
  · simp [ambiguousProgram, ambiguousSum, Node.nodesOf, Node.nodes]
  · exact Knowledge.not_agrees_of_mem (ambiguous _ List.mem_cons_self)
      (Names.mem_ofList.mpr List.mem_cons_self) (by decide +kernel)
  · unfold ClausesApart Node.Apart
    decide
  · simp [mismatchedProgram, mismatchedSum, Node.nodesOf, Node.nodes]
  · exact Knowledge.not_agrees_of_mem (mismatched _ List.mem_cons_self)
      (Names.mem_ofList.mpr List.mem_cons_self) (by decide +kernel)

end Program

end DatalogTyping

import DatalogTyping.Proofs.Runs

/-!
# Recorded overloads

What a pass chooses for a functor is an overload of the operation recorded so far, or
else of the symbol, and it fits the kinds that the arguments can have
(`Knowledge.of_choice_functors`). As an operation belongs to one symbol, whatever is
recorded for a functor in the course of a run is an overload of its symbol
(`Program.goBySymbol_of_resolvedAfter?`), and once nothing changes any more it fits
(`Program.IsSettled.fits`).
-/

namespace DatalogTyping

/-! ### The table of overloads -/

namespace Overload

variable {overload other : Overload} {overloads : List Overload} {symbol : String}

theorem mem_insertRanked :
    other ∈ insertRanked overload overloads ↔ other = overload ∨ other ∈ overloads := by
  induction overloads with
  | nil => simp [insertRanked]
  | cons first rest ih =>
      rw [insertRanked]
      split
      · rw [List.mem_cons, ih, List.mem_cons, or_left_comm]
      · simp

theorem mem_ranked : overload ∈ ranked overloads ↔ overload ∈ overloads := by
  induction overloads with
  | nil => rfl
  | cons first rest ih =>
      rw [ranked, List.foldr_cons, mem_insertRanked, List.mem_cons]
      exact or_congr_right ih

theorem mem_ofSymbol :
    overload ∈ ofSymbol symbol ↔ overload ∈ table ∧ overload.symbol = symbol := by
  simp [ofSymbol]

/-- An operation belongs to one symbol. -/
theorem symbol_eq_of_op_eq (h : overload ∈ table) (h' : other ∈ table)
    (same : overload.op = other.op) : overload.symbol = other.symbol := by
  have unique : ∀ overload ∈ table, ∀ other ∈ table, overload.op = other.op →
      overload.symbol = other.symbol := by decide +kernel
  exact unique overload h other h' same

/-- The overloads of an operation that belongs to a symbol belong to it, too. -/
theorem mem_ofSymbol_of_ofOp (h : overload ∈ ofSymbol symbol) (same : other ∈ ofOp overload.op) :
    other ∈ ofSymbol symbol := by
  obtain ⟨hmem, rfl⟩ := mem_ofSymbol.mp h
  obtain ⟨hother, hop⟩ := List.mem_filter.mp same
  exact mem_ofSymbol.mpr ⟨hother, symbol_eq_of_op_eq hother hmem (of_decide_eq_true hop)⟩

/-- Apart from `ord`, functors take and yield primitive kinds. -/
theorem primitive_of_symbol_ne_ord (h : overload ∈ table) (hsymbol : overload.symbol ≠ "ord") :
    overload.op ≠ .ord ∧ overload.result ∈ Kind.primitives ∧
      ∀ kind ∈ overload.params, kind ∈ Kind.primitives := by
  have primitive : ∀ overload ∈ table, overload.symbol ≠ "ord" →
      overload.op ≠ .ord ∧ overload.result ∈ Kind.primitives ∧
        ∀ kind ∈ overload.params, kind ∈ Kind.primitives := by decide +kernel
  exact primitive overload h hsymbol

/-- A functor that is written between its arguments is about one kind. -/
theorem params_of_between (h : overload ∈ table) (between : isWrittenBetween overload.symbol 2)
    (arity : overload.acceptsArity 2) :
    overload.params = [overload.result, overload.result] ∧
      ∀ index < 2, overload.param? index = some overload.result := by
  have ofOneKind : ∀ overload ∈ table, isWrittenBetween overload.symbol 2 →
      overload.acceptsArity 2 → overload.params = [overload.result, overload.result] ∧
        ∀ index < 2, overload.param? index = some overload.result := by decide +kernel
  exact ofOneKind overload h between arity

end Overload

/-! ### Overloads that fit -/

namespace Knowledge

variable {known : Knowledge} {node : Node} {symbol : String} {overload : Overload}

/-- The overload fits the number of arguments of a functor and the kinds that they can
have. -/
structure Fits (known : Knowledge) (node : Node) (overload : Overload) : Prop where
  arity : overload.acceptsArity node.children.length
  params : ∀ (index : Nat) (operand : Node), node.children[index]? = some operand →
    ∃ kind kinds, overload.param? index = some kind ∧ known.kindsOf operand = .ok kinds ∧
      kind ∈ kinds

/-- What is chosen for a functor fits, and it is an overload of the operation recorded so
far, or else of the symbol. -/
theorem of_choice_functors (hlabel : node.label = .functor symbol)
    (h : known.choice node .functors = .ok (some overload)) :
    known.Fits node overload ∧
      ((∃ recorded, known.resolutions.functors.get? node.id = some recorded ∧
          overload ∈ Overload.ofOp recorded.op) ∨
        overload ∈ Overload.ofSymbol symbol) := by
  simp only [choice, hlabel, validOverloads] at h
  cases hargs : node.children.mapM known.kindsOf with
  | error fault => simp [hargs, bind, Except.bind, Except.map] at h
  | ok argKinds =>
      cases hown : known.kindsOf node with
      | error fault => simp [hargs, hown, bind, Except.bind, Except.map] at h
      | ok ownKinds =>
          simp only [hargs, hown, bind, Except.bind, Except.map, pure, Except.pure,
            Except.ok.injEq] at h
          have hmem := Overload.mem_ranked.mp (List.mem_of_head? h)
          obtain ⟨hsource, hfits⟩ := List.mem_filter.mp hmem
          refine ⟨?_, ?_⟩
          · simp only [fits, Bool.and_eq_true, List.all_eq_true] at hfits
            obtain ⟨⟨arity, params⟩, -⟩ := hfits
            have pairs := forall₂_of_mapM_ok hargs
            rw [← pairs.length_eq] at arity
            refine ⟨arity, fun index operand hoperand => ?_⟩
            obtain ⟨hlt, rfl⟩ := List.getElem?_eq_some_iff.mp hoperand
            have hlt' : index < argKinds.length := pairs.length_eq ▸ hlt
            have hkinds := pairs.get hlt hlt'
            have hparam := params (argKinds[index], index)
              (List.mk_mem_zipIdx_iff_getElem?.mpr (List.getElem?_eq_getElem hlt'))
            split at hparam
            · rename_i kind hkind
              exact ⟨kind, argKinds[index], hkind, hkinds, by simpa using hparam⟩
            · cases hparam
          · split at hsource
            · rename_i recorded hrecorded
              exact .inl ⟨recorded, hrecorded, hsource⟩
            · exact .inr hsource

end Knowledge

/-! ### Overloads recorded -/

namespace Pass

variable {motive : Resolutions → Prop} {known : Knowledge} {nodes : List Node}
  {resolutions : Resolutions}

/-- What every step of a pass preserves, the pass preserves, also if it fails on the
way. -/
theorem run_preserves {pass : Pass} {outcome : Except Fault Bool}
    (preserved : ∀ {before after : Resolutions} {node changed}, node ∈ nodes →
      pass.step { known with resolutions := before } node = .ok (after, changed) →
      motive before → motive after)
    (h : pass.run known nodes = (resolutions, outcome)) (start : motive known.resolutions) :
    motive resolutions := by
  refine Knowledge.refineEach_preserves (fun {before after node outcome} hnode hstep hbefore => ?_)
    h start
  cases outcome with
  | error fault => exact (attempt_eq_error.mp hstep).2 ▸ hbefore
  | ok changed => exact preserved hnode (attempt_eq_ok.mp hstep) hbefore

theorem runAll_preserves {passes : List Pass} {outcome : Except Fault Bool}
    (preserved : ∀ {pass : Pass} {before after : Resolutions} {node changed}, node ∈ nodes →
      pass.step { known with resolutions := before } node = .ok (after, changed) →
      motive before → motive after)
    (h : runAll known nodes passes = (resolutions, outcome))
    (start : motive known.resolutions) : motive resolutions := by
  refine Knowledge.refineEach_preserves (fun _ hrun hbefore => ?_) h start
  refine run_preserves ?_ hrun hbefore
  exact preserved

end Pass

/-- What every step of every pass preserves, holds after any number of rounds. -/
theorem Program.resolvedAfter?_preserves {motive : Resolutions → Prop} {context : Context}
    {program : Program} {start resolutions : Resolutions} {count : Nat}
    (preserved : ∀ {pass : Pass} {known : Knowledge} {node resolutions changed},
      node ∈ Node.nodesOf program.clauses → pass.step known node = .ok (resolutions, changed) →
      motive known.resolutions → motive resolutions)
    (h : program.resolvedAfter? context start count = some resolutions) (hstart : motive start) :
    motive resolutions := by
  induction count generalizing resolutions with
  | zero =>
      obtain rfl := Option.some.inj h
      exact hstart
  | succ count ih =>
      obtain ⟨before, hbefore, hafter⟩ := Option.bind_eq_some_iff.mp h
      obtain ⟨⟨after, changed⟩, hround, rfl⟩ := Option.map_eq_some_iff.mp hafter
      obtain ⟨-, -, hrefined⟩ := Program.round?_eq_some.mp hround
      exact Pass.runAll_preserves (fun hnode hstep => preserved hnode hstep) hrefined (ih hbefore)

/-- What is recorded for functors satisfies a condition. -/
def Resolutions.AllRecorded (program : Program) (condition : Node → String → Overload → Prop)
    (resolutions : Resolutions) : Prop :=
  ∀ node ∈ Node.nodesOf program.clauses, ∀ (symbol : String) (overload : Overload),
    node.label = .functor symbol → resolutions.functors.get? node.id = some overload →
    condition node symbol overload

/-- It still does after a step, if what is chosen for a functor does. -/
theorem Resolutions.AllRecorded.step {program : Program} (identified : program.Identified)
    {condition : Node → String → Overload → Prop} {pass : Pass} {known : Knowledge} {node : Node}
    {resolutions : Resolutions} {changed : Bool} (hnode : node ∈ Node.nodesOf program.clauses)
    (chosen : ∀ symbol overload, node.label = .functor symbol →
      known.choice node .functors = .ok (some overload) → condition node symbol overload)
    (h : pass.step known node = .ok (resolutions, changed))
    (all : known.resolutions.AllRecorded program condition) :
    resolutions.AllRecorded program condition := by
  obtain ⟨value, hchoice, others, entries, -, -⟩ := Pass.step_eq_ok h
  intro other hother symbol overload hlabel hrecorded
  by_cases hpass : pass = .functors
  · subst hpass
    have hentry : (resolutions.table .functors).get? other.id = some overload := hrecorded
    rw [entries] at hentry
    split at hentry
    · rename_i hid
      obtain rfl := identified other hother node hnode hid
      rw [hentry] at hchoice
      exact chosen symbol overload hlabel hchoice
    · exact all other hother symbol overload hlabel hentry
  · have same : resolutions.functors = known.resolutions.functors :=
      others .functors (Ne.symm hpass)
    rw [same] at hrecorded
    exact all other hother symbol overload hlabel hrecorded

/-- What is recorded for a functor is an overload of its symbol. -/
def Resolutions.GoBySymbol (program : Program) (resolutions : Resolutions) : Prop :=
  ∀ node ∈ Node.nodesOf program.clauses, ∀ (symbol : String) (overload : Overload),
    node.label = .functor symbol → resolutions.functors.get? node.id = some overload →
    overload ∈ Overload.ofSymbol symbol

/-- A functor keeps to the operation recorded for it, and an operation to its symbol. -/
theorem Resolutions.GoBySymbol.step {program : Program} (identified : program.Identified)
    {pass : Pass} {known : Knowledge} {node : Node} {resolutions : Resolutions} {changed : Bool}
    (hnode : node ∈ Node.nodesOf program.clauses)
    (h : pass.step known node = .ok (resolutions, changed))
    (goes : known.resolutions.GoBySymbol program) : resolutions.GoBySymbol program := by
  refine Resolutions.AllRecorded.step identified hnode ?_ h goes
  intro symbol overload hlabel hchoice
  obtain ⟨-, ⟨recorded, hget, hop⟩ | hsymbol⟩ := Knowledge.of_choice_functors hlabel hchoice
  · exact Overload.mem_ofSymbol_of_ofOp (goes node hnode symbol recorded hlabel hget) hop
  · exact hsymbol

theorem Program.goBySymbol_of_resolvedAfter? {context : Context} {program : Program} {count : Nat}
    {resolutions : Resolutions} (identified : program.Identified)
    (h : program.resolvedAfter? context {} count = some resolutions) :
    resolutions.GoBySymbol program := by
  refine resolvedAfter?_preserves (Resolutions.GoBySymbol.step identified) h ?_
  intro node _ symbol overload _ hrecorded
  cases hrecorded

/-- What is recorded for a functor takes as many arguments as it has. -/
theorem Program.acceptsArity_of_resolvedAfter? {context : Context} {program : Program} {count : Nat}
    {resolutions : Resolutions} (identified : program.Identified)
    (h : program.resolvedAfter? context {} count = some resolutions) :
    resolutions.AllRecorded program fun node _ overload =>
      overload.acceptsArity node.children.length := by
  refine resolvedAfter?_preserves (fun hnode => Resolutions.AllRecorded.step identified hnode
    fun symbol overload hlabel hchoice => ?_) h ?_
  · exact (Knowledge.of_choice_functors hlabel hchoice).1.arity
  · intro node _ symbol overload _ hrecorded
    cases hrecorded

/-- Where nothing changes any more, what is recorded for a functor fits. -/
theorem Program.IsSettled.fits {context : Context} {program : Program} {resolutions : Resolutions}
    (settled : program.IsSettled context resolutions) {node : Node}
    (hnode : node ∈ Node.nodesOf program.clauses) {symbol : String}
    (hlabel : node.label = .functor symbol) {overload : Overload}
    (hrecorded : resolutions.functors.get? node.id = some overload) :
    (program.knowledge context resolutions).Fits node overload := by
  have stable := settled.isStable .functors hnode
  refine (Knowledge.of_choice_functors hlabel (stable.trans ?_)).1
  exact congrArg Except.ok hrecorded

end DatalogTyping

import Mathlib.Data.List.Lex
import DatalogTyping.Proofs.FunctorFree

/-!
# The choices at the end of a run

A run returns when a round changes nothing. The sets of types are then those that the
resolutions lead to, and every pass would choose again what is recorded. So the choices
and the sets agree, although each pass has read what the others had just changed
(`Analysis.run_consistent`).

A functor has the lowest ranked of the overloads that are valid for it, or none if there
are none (`Overload.ranked_sorted`). A numeral that has been resolved is bound to its
representation, so all its types are of that kind, and one that has not been resolved has
no types, since any type would have allowed a choice. Operators that have variants have
the one for the first kind that is there (`IsFirst`, `Knowledge.Shows`).
-/

namespace DatalogTyping

/-! ### Ranks -/

namespace Overload

theorem insertRanked_sorted {overload : Overload} {overloads : List Overload}
    (sorted : overloads.Pairwise fun first second => first.rank ≤ second.rank) :
    (insertRanked overload overloads).Pairwise fun first second => first.rank ≤ second.rank := by
  induction overloads with
  | nil => exact List.pairwise_singleton _ _
  | cons other rest ih =>
      obtain ⟨least, hrest⟩ := List.pairwise_cons.mp sorted
      rw [insertRanked]
      split
      · rename_i before
        refine List.pairwise_cons.mpr ⟨fun later hlater => ?_, ih hrest⟩
        rcases mem_insertRanked.mp hlater with rfl | hlater
        · exact before.le
        · exact least later hlater
      · rename_i notBefore
        have le : overload.rank ≤ other.rank := not_lt.mp notBefore
        refine List.pairwise_cons.mpr ⟨fun later hlater => ?_, sorted⟩
        rcases List.mem_cons.mp hlater with rfl | hlater
        · exact le
        · exact le.trans (least later hlater)

/-- Overloads that are ranked are in the order of their ranks. -/
theorem ranked_sorted (overloads : List Overload) :
    (ranked overloads).Pairwise fun first second => first.rank ≤ second.rank := by
  induction overloads with
  | nil => exact .nil
  | cons overload rest ih => exact insertRanked_sorted ih

end Overload

/-! ### The kinds that an argument shows -/

/-- The first of some kinds that satisfies a condition, or else the signed kind. -/
inductive IsFirst (condition : Kind → Prop) : List Kind → Kind → Prop
  | here {kind : Kind} {rest : List Kind} (h : condition kind) : IsFirst condition (kind :: rest) kind
  | later {other kind : Kind} {rest : List Kind} (h : ¬ condition other)
      (first : IsFirst condition rest kind) : IsFirst condition (other :: rest) kind
  | default : IsFirst condition [] .signed

theorem isFirst_firstOr {condition : Kind → Bool} {holds : Kind → Prop}
    (h : ∀ kind, condition kind = true ↔ holds kind) (kinds : List Kind) :
    IsFirst holds kinds (firstOr kinds condition) := by
  induction kinds with
  | nil => exact .default
  | cons kind rest ih =>
      unfold firstOr
      rw [List.find?_cons]
      split
      · rename_i satisfied
        exact .here ((h kind).mp satisfied)
      · rename_i failed
        exact .later (fun satisfied => by simp [(h kind).mpr satisfied] at failed) ih

namespace Knowledge

variable {known : Knowledge} {node : Node}

/-- The argument shows the kind. Its set of types is restricted, and the kind is that of
its result, if it is a functor that is resolved or a call whose declaration is usable, and
else that of a type in the set. -/
inductive Shows (known : Knowledge) (node : Node) : Kind → Prop
  | functor {symbol : String} {overload : Overload} {names : Names}
      (htypes : known.typesOf node = .ok (.only names)) (hlabel : node.label = .functor symbol)
      (hrecorded : known.resolutions.functors.get? node.id = some overload) :
      Shows known node overload.result
  | call {name : String} {signature : Signature} {kind : Kind} {names : Names}
      (htypes : known.typesOf node = .ok (.only names)) (hlabel : node.label = .call name)
      (hsignature : known.context.signature? name = some signature)
      (usable : known.context.isUsable signature)
      (hkind : known.context.env.kindOf signature.result = .ok kind) : Shows known node kind
  | member {names : Names} {name : String} {kind : Kind}
      (htypes : known.typesOf node = .ok (.only names))
      (functor : ∀ symbol, node.label = .functor symbol → ¬ known.isSettled node)
      (call : ∀ name, node.label = .call name → ¬ known.isSettled node)
      (hname : name ∈ names) (hkind : known.context.env.kindOf name = .ok kind) :
      Shows known node kind

/-- The kind of a call is that of its declared return type. -/
theorem kindsOf_call {name : String} {signature : Signature} (hlabel : node.label = .call name)
    (hsignature : known.context.signature? name = some signature)
    (usable : known.context.isUsable signature) :
    known.kindsOf node = (known.context.env.kindOf signature.result).map ([·]) := by
  have settled : known.isSettled node := by simpa [isSettled, hlabel, hsignature] using usable
  simp [kindsOf, hlabel, settled, returnKind, returnType_call hlabel hsignature usable, bind,
    Except.bind]

/-- What is not applied, or not settled, has the kinds of its types. -/
theorem kindsOf_types (functor : ∀ symbol, node.label = .functor symbol → ¬ known.isSettled node)
    (call : ∀ name, node.label = .call name → ¬ known.isSettled node) {types : TypeSet}
    (htypes : known.typesOf node = .ok types) : known.kindsOf node = known.kindsIn types := by
  unfold kindsOf
  cases hlabel : node.label with
  | functor symbol => simp [functor symbol hlabel, htypes]
  | call name => simp [call name hlabel, htypes]
  | _ => simp [htypes]

/-- The kinds of an argument whose set of types is restricted are those that it shows. -/
theorem mem_kindsOf {names : Names} {kinds : List Kind}
    (htypes : known.typesOf node = .ok (.only names)) (h : known.kindsOf node = .ok kinds)
    (kind : Kind) : kind ∈ kinds ↔ known.Shows node kind := by
  by_cases hfunctor : ∃ symbol, node.label = .functor symbol ∧ known.isSettled node
  · obtain ⟨symbol, hlabel, settled⟩ := hfunctor
    obtain ⟨overload, hrecorded⟩ : ∃ overload,
        known.resolutions.functors.get? node.id = some overload := by
      simpa [isSettled, hlabel, Table.contains, Option.isSome_iff_exists] using settled
    rw [kindsOf_functor hlabel hrecorded, Except.ok.injEq] at h
    rw [← h, List.mem_singleton]
    constructor
    · intro hkind
      exact hkind ▸ .functor htypes hlabel hrecorded
    · intro shows
      cases shows with
      | functor _ _ hrecorded' => rw [Option.some.inj (hrecorded.symm.trans hrecorded')]
      | call _ hlabel' => cases hlabel.symm.trans hlabel'
      | member _ unsettled => exact absurd settled (unsettled symbol hlabel)
  by_cases hcall : ∃ name, node.label = .call name ∧ known.isSettled node
  · obtain ⟨name, hlabel, settled⟩ := hcall
    obtain ⟨signature, hsignature, usable⟩ : ∃ signature,
        known.context.signature? name = some signature ∧ known.context.isUsable signature := by
      simp only [isSettled, hlabel] at settled
      split at settled
      · exact ⟨_, ‹_›, settled⟩
      · cases settled
    rw [kindsOf_call hlabel hsignature usable] at h
    cases hresult : known.context.env.kindOf signature.result with
    | error fault => simp [hresult, Except.map] at h
    | ok own =>
        obtain rfl : [own] = kinds := by simpa [hresult, Except.map] using h
        rw [List.mem_singleton]
        constructor
        · intro hkind
          exact hkind ▸ .call htypes hlabel hsignature usable hresult
        · intro shows
          cases shows with
          | functor _ hlabel' => cases hlabel.symm.trans hlabel'
          | call _ hlabel' hsignature' _ hkind =>
              obtain rfl := Label.call.inj (hlabel.symm.trans hlabel')
              obtain rfl := Option.some.inj (hsignature.symm.trans hsignature')
              exact Except.ok.inj (hkind.symm.trans hresult)
          | member _ _ unsettled => exact absurd settled (unsettled name hlabel)
  · have functor : ∀ symbol, node.label = .functor symbol → ¬ known.isSettled node :=
      fun symbol hlabel settled => hfunctor ⟨symbol, hlabel, settled⟩
    have call : ∀ name, node.label = .call name → ¬ known.isSettled node :=
      fun name hlabel settled => hcall ⟨name, hlabel, settled⟩
    rw [kindsOf_types functor call htypes] at h
    constructor
    · intro hmem
      obtain ⟨name, hname, hkind⟩ := exists_mem_of_mapM_ok h hmem
      exact .member htypes functor call (Names.mem_toList.mp hname) hkind
    · intro shows
      cases shows with
      | functor _ hlabel hrecorded =>
          refine absurd ?_ (functor _ hlabel)
          simp [isSettled, hlabel, Table.contains, hrecorded]
      | call _ hlabel hsignature usable =>
          refine absurd ?_ (call _ hlabel)
          simpa [isSettled, hlabel, hsignature] using usable
      | member htypes' _ _ hname hkind =>
          obtain rfl := TypeSet.only.inj (Except.ok.inj (htypes.symm.trans htypes'))
          exact mem_of_mapM_ok h (Names.mem_toList.mpr hname) hkind

/-- The kinds that are present at an argument are those that it shows. -/
theorem mem_kindsPresent {kinds : List Kind} (h : known.kindsPresent node = .ok kinds)
    (kind : Kind) : kind ∈ kinds ↔ known.Shows node kind := by
  unfold kindsPresent at h
  cases htypes : known.typesOf node with
  | error fault => simp [htypes] at h
  | ok types =>
      cases types with
      | all =>
          obtain rfl : [] = kinds := by simpa [htypes] using h
          refine ⟨fun hmem => absurd hmem List.not_mem_nil, fun shows => ?_⟩
          cases shows with
          | functor htypes' | call htypes' | member htypes' => cases htypes.symm.trans htypes'
      | only names =>
          simp only [htypes] at h
          exact mem_kindsOf htypes h kind

/-! ### Choices that agree with what is known -/

/-- What is recorded is what the sets of types, and what is recorded besides, say it should
be. -/
structure Consistent (program : Program) (known : Knowledge) : Prop where
  /-- A functor is resolved if there is a valid overload, and then to the first one, which
  has the lowest rank. -/
  functors : ∀ node ∈ Node.nodesOf program.clauses, ∀ symbol, node.label = .functor symbol →
    ∃ overloads, known.validOverloads node = .ok overloads ∧
      ((known.resolutions.functors.get? node.id).isSome ↔ overloads ≠ []) ∧
      ∀ overload, known.resolutions.functors.get? node.id = some overload →
        overloads.head? = some overload ∧ ∀ other ∈ overloads, overload.rank ≤ other.rank
  /-- A numeral is resolved to the representation that all its types are of, unless it has no
  types. -/
  numerals : ∀ node ∈ Node.nodesOf program.clauses, ∀ text, node.label = .numeral text none →
    ∃ types, known.typesOf node = .ok types ∧
      (∀ kind : NumericKind, known.resolutions.numerals.get? node.id = some kind ↔
        types.isEmpty = false ∧
          types.Consists fun name => known.context.env.isOfKind name kind.kind) ∧
      (known.resolutions.numerals.get? node.id = none ↔ types.isEmpty)
  /-- An aggregate that has variants has the one for floats, for unsigned or for signed
  numbers, the first of these kinds that its target shows. -/
  aggregates : ∀ node ∈ Node.nodesOf program.clauses, ∀ op targeted,
    node.label = .aggregate op targeted → op.isOverloaded →
    ∃ target kinds kind variant, node.target? = some target ∧
      known.kindsPresent target = .ok kinds ∧
      IsFirst (known.Shows target) [.float, .unsigned] kind ∧ op.convert kind = .ok variant ∧
      known.resolutions.aggregates.get? node.id = some variant
  /-- A comparison that has variants has the one for floats, unsigned numbers, symbols or
  signed numbers, the first of these kinds that both sides show. -/
  comparisons : ∀ node ∈ Node.nodesOf program.clauses, ∀ op, node.label = .comparison op →
    op.isOverloaded →
    ∃ left right leftKinds rightKinds kind variant, node.children = [left, right] ∧
      known.kindsPresent left = .ok leftKinds ∧ known.kindsPresent right = .ok rightKinds ∧
      IsFirst (fun kind => known.Shows left kind ∧ known.Shows right kind)
        [.float, .unsigned, .symbol] kind ∧
      op.convert kind = .ok variant ∧ known.resolutions.comparisons.get? node.id = some variant

/-! ### Stable nodes -/

theorem IsStable.functor {symbol : String} (stable : known.IsStable .functors node)
    (hlabel : node.label = .functor symbol) :
    ∃ overloads, known.validOverloads node = .ok overloads ∧
      known.resolutions.functors.get? node.id = overloads.head? := by
  simp only [IsStable, choice, hlabel] at stable
  cases hvalid : known.validOverloads node with
  | error fault => simp [hvalid, Except.map] at stable
  | ok overloads =>
      simp only [hvalid, Except.map] at stable
      exact ⟨overloads, rfl, (Except.ok.inj stable).symm⟩

/-- The overloads that are valid for a functor are in the order of their ranks. -/
theorem validOverloads_sorted {overloads : List Overload}
    (h : known.validOverloads node = .ok overloads) :
    overloads.Pairwise fun first second => first.rank ≤ second.rank := by
  unfold validOverloads at h
  split at h
  · obtain ⟨argKinds, -, h⟩ := bind_eq_ok.mp h
    obtain ⟨ownKinds, -, h⟩ := bind_eq_ok.mp h
    rw [← Except.ok.inj h]
    exact Overload.ranked_sorted _
  · cases h

theorem IsStable.aggregate {op : AggregateOp} {targeted : Bool}
    (stable : known.IsStable .aggregates node) (hlabel : node.label = .aggregate op targeted)
    (overloaded : op.isOverloaded) :
    ∃ target kinds kind variant, node.target? = some target ∧
      known.kindsPresent target = .ok kinds ∧
      IsFirst (known.Shows target) [.float, .unsigned] kind ∧ op.convert kind = .ok variant ∧
      known.resolutions.aggregates.get? node.id = some variant := by
  simp only [IsStable, choice, hlabel, aggregateChoice, if_pos overloaded] at stable
  split at stable
  · cases stable
  · rename_i target htarget
    obtain ⟨kinds, hkinds, stable⟩ := bind_eq_ok.mp stable
    obtain ⟨variant, hvariant, stable⟩ := bind_eq_ok.mp stable
    refine ⟨target, kinds, _, variant, htarget, hkinds, isFirst_firstOr (fun kind => ?_) _,
      hvariant, (Except.ok.inj stable).symm⟩
    rw [← mem_kindsPresent hkinds, List.contains_iff_mem]

theorem IsStable.comparison {op : ComparisonOp} (stable : known.IsStable .comparisons node)
    (hlabel : node.label = .comparison op) (overloaded : op.isOverloaded) :
    ∃ left right leftKinds rightKinds kind variant, node.children = [left, right] ∧
      known.kindsPresent left = .ok leftKinds ∧ known.kindsPresent right = .ok rightKinds ∧
      IsFirst (fun kind => known.Shows left kind ∧ known.Shows right kind)
        [.float, .unsigned, .symbol] kind ∧
      op.convert kind = .ok variant ∧
      known.resolutions.comparisons.get? node.id = some variant := by
  simp only [IsStable, choice, hlabel, comparisonChoice, if_pos overloaded] at stable
  split at stable
  · rename_i left right hchildren
    obtain ⟨leftKinds, hleft, stable⟩ := bind_eq_ok.mp stable
    obtain ⟨rightKinds, hright, stable⟩ := bind_eq_ok.mp stable
    obtain ⟨variant, hvariant, stable⟩ := bind_eq_ok.mp stable
    refine ⟨left, right, leftKinds, rightKinds, _, variant, hchildren, hleft, hright,
      isFirst_firstOr (fun kind => ?_) _, hvariant, (Except.ok.inj stable).symm⟩
    rw [← mem_kindsPresent hleft, ← mem_kindsPresent hright, Bool.and_eq_true,
      List.contains_iff_mem, List.contains_iff_mem]
  · cases stable

/-! ### Numerals -/

theorem numeralChoice_eq_none {kinds : List Kind} :
    numeralChoice kinds = none ↔ ∀ kind : NumericKind, kind.kind ∉ kinds := by
  simp only [numeralChoice, List.find?_eq_none, List.contains_iff_mem]
  exact ⟨fun h kind => h kind kind.mem_all, fun h kind _ => h kind⟩

/-- Among the kinds of some types are those that a type is of. -/
theorem mem_kinds_iff {env : TypeEnv} (acyclic : env.Acyclic) (builtIns : env.HasBuiltIns)
    {names : Names} {kinds : List Kind} (h : names.toList.mapM env.kindOf = .ok kinds)
    {kind : Kind} : kind ∈ kinds ↔ ∃ name ∈ names, env.isOfKind name kind := by
  constructor
  · intro hmem
    obtain ⟨name, hname, hof⟩ := exists_mem_of_mapM_ok h hmem
    exact ⟨name, Names.mem_toList.mp hname, TypeEnv.isOfKind_of_kindOf hof⟩
  · intro ⟨name, hname, hof⟩
    obtain ⟨found, hmem, hfound⟩ :=
      exists_mem_of_forall₂ (forall₂_of_mapM_ok h) (Names.mem_toList.mpr hname)
    rwa [acyclic.kindOf_eq builtIns hof hfound] at hmem

end Knowledge

namespace Program.IsSettled

variable {context : Context} {program : Program} {resolutions : Resolutions} {node : Node}

/-- The types of a numeral, once nothing changes any more, and what is chosen by them. -/
theorem numeral (hcontext : Context.ofProgram program = .ok context)
    (acyclic : context.env.Acyclic) (identified : program.Identified)
    (settled : program.IsSettled context resolutions)
    (hnode : node ∈ Node.nodesOf program.clauses) {text : String}
    (hlabel : node.label = .numeral text none) :
    ∃ names kinds, (program.knowledge context resolutions).typesOf node = .ok (.only names) ∧
      names.toList.mapM context.env.kindOf = .ok kinds ∧
      resolutions.numerals.get? node.id = Knowledge.numeralChoice kinds ∧
      ∀ name ∈ names, ∃ kind, resolutions.Represents node text none kind ∧
        context.env.isOfKind name kind.kind := by
  have stable := settled.isStable .numerals hnode
  simp only [Knowledge.IsStable, Knowledge.choice, hlabel] at stable
  cases hkinds : (program.knowledge context resolutions).kindsOf node with
  | error fault => simp [hkinds, Except.map] at stable
  | ok kinds =>
      simp only [hkinds, Except.map] at stable
      have chosen : resolutions.numerals.get? node.id = Knowledge.numeralChoice kinds :=
        (Except.ok.inj stable).symm
      rcases Knowledge.kindsOf_cases hkinds with
        ⟨_, _, other, -⟩ | ⟨_, _, _, other, -⟩ | ⟨types, htypes, hin⟩
      · cases hlabel.symm.trans other
      · cases hlabel.symm.trans other
      · have hget : (program.knowledge context resolutions).types.get? node.id = some types := by
          unfold Knowledge.typesOf at htypes
          split at htypes
          · rename_i found hfound
            rw [hfound, Except.ok.inj htypes]
          · cases htypes
        obtain ⟨names, rfl, each⟩ :=
          consists_of_numeral hcontext acyclic identified hnode hlabel hget
        exact ⟨names, kinds, htypes, hin, chosen, each⟩

/-- A numeral that is resolved has types of that kind only, and one that is not has none. -/
theorem numeral_resolved_iff (hcontext : Context.ofProgram program = .ok context)
    (acyclic : context.env.Acyclic) (identified : program.Identified)
    (settled : program.IsSettled context resolutions)
    (hnode : node ∈ Node.nodesOf program.clauses) {text : String}
    (hlabel : node.label = .numeral text none) :
    ∃ types, (program.knowledge context resolutions).typesOf node = .ok types ∧
      (∀ kind : NumericKind, resolutions.numerals.get? node.id = some kind ↔
        types.isEmpty = false ∧
          types.Consists fun name => context.env.isOfKind name kind.kind) ∧
      (resolutions.numerals.get? node.id = none ↔ types.isEmpty) := by
  have builtIns := (Context.wellFormed_of_ofProgram hcontext).builtIns
  obtain ⟨names, kinds, htypes, hkinds, chosen, each⟩ :=
    numeral hcontext acyclic identified settled hnode hlabel
  have shown : ∀ kind : NumericKind, kind.kind ∈ kinds ↔
      ∃ name ∈ names, context.env.isOfKind name kind.kind := fun kind =>
    Knowledge.mem_kinds_iff acyclic builtIns hkinds
  refine ⟨.only names, htypes, fun kind => ⟨fun recorded => ?_, fun ⟨inhabited, all⟩ => ?_⟩,
    fun unresolved => ?_, fun none => ?_⟩
  · -- a numeral that is resolved is bound to its representation
    have hmem : kind.kind ∈ kinds := by
      simpa using List.find?_some (chosen.symm.trans recorded)
    obtain ⟨name, hname, -⟩ := (shown kind).mp hmem
    refine ⟨?_, names, rfl, fun name hname => ?_⟩
    · simpa [TypeSet.isEmpty] using List.ne_nil_of_mem (Names.mem_toList.mpr hname)
    · obtain ⟨own, represents, hof⟩ := each name hname
      rcases represents with ⟨h, -⟩ | ⟨-, h⟩ | ⟨-, h, -⟩
      · cases h
      · rwa [Option.some.inj (recorded.symm.trans h)]
      · cases recorded.symm.trans h
  · -- the only kind that there is to choose is the one of all types
    rw [chosen]
    have hmem : kind.kind ∈ kinds := by
      have has := TypeSet.hasKind_of_consists all inhabited
      exact (shown kind).mpr (TypeSet.hasKind_only.mp has)
    cases hchoice : Knowledge.numeralChoice kinds with
    | none => exact absurd hmem (Knowledge.numeralChoice_eq_none.mp hchoice kind)
    | some found =>
        have hfound : found.kind ∈ kinds := by simpa using List.find?_some hchoice
        obtain ⟨name, hname, hof⟩ := (shown found).mp hfound
        obtain ⟨_, ⟨⟩, each⟩ := all
        have same := acyclic.isOfKind_unique builtIns hof (each name hname)
        rw [NumericKind.kind_injective same]
  · -- any type would be of a kind that the text can be read as, and could be chosen
    by_contra inhabited
    obtain ⟨name, hname⟩ := List.exists_mem_of_ne_nil names.toList
      (by simpa [TypeSet.isEmpty] using inhabited)
    obtain ⟨kind, -, hof⟩ := each name (Names.mem_toList.mp hname)
    exact Knowledge.numeralChoice_eq_none.mp (chosen.symm.trans unresolved) kind
      ((shown kind).mpr ⟨name, Names.mem_toList.mp hname, hof⟩)
  · rw [chosen, Knowledge.numeralChoice_eq_none]
    intro kind hmem
    obtain ⟨name, hname, -⟩ := (shown kind).mp hmem
    have empty : names.toList = [] := by simpa [TypeSet.isEmpty] using none
    have hmem := Names.mem_toList.mpr hname
    rw [empty] at hmem
    cases hmem

end Program.IsSettled

namespace Analysis

variable {context : Context} {program : Program} {analysis : Analysis} {account : Bool}

/-- At the end of a run, whatever it started from, the choices agree with what is known. -/
theorem run_consistent (hcontext : Context.ofProgram program = .ok context)
    (acyclic : context.env.Acyclic) (identified : program.Identified) {limit : Nat}
    (returns : (analysis.run context program account limit).fault = none) :
    ((analysis.run context program account limit).analysis.known context).Consistent program := by
  obtain ⟨count, -, ends⟩ := run_returns returns
  have settled := ends.final.settled
  rw [ends.final.known_eq]
  refine ⟨?_, ?_, ?_, ?_⟩
  · intro node hnode symbol hlabel
    obtain ⟨overloads, hvalid, hhead⟩ := (settled.isStable .functors hnode).functor hlabel
    refine ⟨overloads, hvalid, ?_, fun overload hrecorded => ?_⟩
    · rw [hhead, List.isSome_head?]
    · rw [hhead] at hrecorded
      obtain ⟨rest, rfl⟩ := List.head?_eq_some_iff.mp hrecorded
      obtain ⟨least, -⟩ := List.pairwise_cons.mp (Knowledge.validOverloads_sorted hvalid)
      exact ⟨rfl, List.forall_mem_cons.mpr ⟨le_rfl, least⟩⟩
  · intro node hnode text hlabel
    exact settled.numeral_resolved_iff hcontext acyclic identified hnode hlabel
  · intro node hnode op targeted hlabel overloaded
    exact (settled.isStable .aggregates hnode).aggregate hlabel overloaded
  · intro node hnode op hlabel overloaded
    exact (settled.isStable .comparisons hnode).comparison hlabel overloaded

/-- The clauses `A(("s"+1)).` and `A((x+2.5)) :- x = max z : { B(z), z = 2.5 }, "a" < y.` -/
def variedProgram : Program where
  clauses := [
    .mk 0 none .clause [.mk 1 none (.atom "A") [.mk 2 none (.functor "+") [
      .mk 3 none (.string "s") [], .mk 4 none (.numeral "1" none) []]]],
    .mk 5 none .clause [
      .mk 6 none (.atom "A") [.mk 7 none (.functor "+") [
        .mk 8 none (.var "x") [], .mk 9 none (.numeral "2.5" none) []]],
      .mk 10 none (.comparison .eq) [.mk 11 none (.var "x") [],
        .mk 12 none (.aggregate .max true) [.mk 13 none (.var "z") [],
          .mk 14 none (.atom "B") [.mk 15 none (.var "z") []],
          .mk 16 none (.comparison .eq) [.mk 17 none (.var "z") [],
            .mk 18 none (.numeral "2.5" none) []]]],
      .mk 19 none (.comparison .lt) [.mk 20 none (.string "a") [], .mk 21 none (.var "y") []]]]

/-- In the first clause the addition fits no overload and the numeral has no types. In the
second one, floats decide the addition, the aggregate and two comparisons, and symbols the
third. -/
theorem run_consistent_variedProgram :
    Context.ofProgram variedProgram = .ok bareContext ∧ bareContext.env.Acyclic ∧
    variedProgram.Identified ∧ (variedProgram.run bareContext false 5).fault = none ∧
    ((variedProgram.run bareContext false 5).analysis.known bareContext).Consistent
      variedProgram ∧
    (let final := (variedProgram.run bareContext false 5).analysis.resolutions;
      final.functors.get? 2 = none ∧ final.numerals.get? 4 = none ∧
        (final.functors.get? 7).isSome ∧ final.numerals.get? 9 = some .float ∧
        final.aggregates.get? 12 = some .fmax ∧ final.comparisons.get? 10 = some .feq ∧
        final.comparisons.get? 19 = some .slt) := by
  have hcontext : Context.ofProgram variedProgram = .ok bareContext := by rfl
  have acyclic : bareContext.env.Acyclic := TypeEnv.acyclic_of_ordered (by decide)
  have identified : variedProgram.Identified := Program.identified_of_nodup (by decide)
  have returns : (variedProgram.run bareContext false 5).fault = none := by decide +kernel
  exact ⟨hcontext, acyclic, identified, returns,
    run_consistent hcontext acyclic identified returns, by decide +kernel⟩

end Analysis

end DatalogTyping

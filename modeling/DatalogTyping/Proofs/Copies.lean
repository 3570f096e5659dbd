import Mathlib.Logic.Equiv.Fintype
import DatalogTyping.Proofs.LegalResolutions
import DatalogTyping.Proofs.Renumbering

/-!
# Copies of clauses

A copy of a clause is the clause with other identities
(`Node.exists_renumber_eq_copyFrom`). Tables of resolutions go by identities, and a run
records nothing for nodes outside its program (`Program.get?_eq_none_of_absent`). So a
copy that is solved when the run is over is solved as the clause itself was in the first
round, when nothing was resolved yet.

The clause may have other types by then. A numeral that could be of several kinds has been
resolved to one of them, while its copy still has types of all of them. Both have the same
types if no resolution says more than the label of its node (`Resolutions.SilentOn`). With
neither functors nor unions, the types of a copy cover those of the clause, and they are
covered by them exactly if numerals are resolved to what they would have to be anyway
(`SolvedClause.BearsOut`).
-/

namespace DatalogTyping

/-! ### Copies as renumberings -/

theorem exists_perm_map_eq {α : Type} {xs ys : List α} (hxs : xs.Nodup) (hys : ys.Nodup)
    (hlength : xs.length = ys.length) : ∃ π : Equiv.Perm α, xs.map π = ys := by
  obtain ⟨π, image⟩ := Equiv.Perm.exists_extending_pair xs.get (ys.get ∘ Fin.cast hlength)
    hxs.injective_get (hys.injective_get.comp (Fin.cast_injective hlength))
  refine ⟨π, List.ext_getElem (by simpa using hlength) fun index hindex _ => ?_⟩
  rw [List.getElem_map]
  exact image ⟨index, by simpa using hindex⟩

namespace Node

variable {π : Equiv.Perm NodeId}

mutual

/-- The tree with the identities of its copy is the copy. -/
theorem copyFrom_eq_renumber (next : NodeId) : ∀ root : Node,
    root.ids.map π = (root.copyFrom next).1.ids → (root.copyFrom next).1 = root.renumber π
  | mk _ _ _ children, h => by
      simp only [ids, copyFrom, nodes, List.map_cons, List.cons.injEq] at h
      obtain ⟨own, rest⟩ := h
      rw [copyFrom, renumber, ← copyAllFrom_eq_renumberAll (next + 1) children rest]
      exact congrArg (fun id => mk id _ _ _) own.symm

theorem copyAllFrom_eq_renumberAll (next : NodeId) : ∀ trees : List Node,
    ((nodesOf trees).map id).map π = (nodesOf (copyAllFrom next trees).1).map id →
      (copyAllFrom next trees).1 = renumberAll π trees
  | [], _ => by rw [copyAllFrom, renumberAll]
  | root :: others, h => by
      simp only [copyAllFrom, nodesOf, List.map_append] at h
      have sameLength : ((root.nodes.map id).map π).length =
          ((root.copyFrom next).1.nodes.map id).length := by
        simp [(map_id_copyFrom next root).1]
      obtain ⟨first, rest⟩ := List.append_inj h sameLength
      rw [copyAllFrom, renumberAll, ← copyFrom_eq_renumber next root first,
        ← copyAllFrom_eq_renumberAll _ others rest]

end

/-- A copy is the tree with other identities. -/
theorem exists_renumber_eq_copyFrom {root : Node} (distinct : root.ids.Nodup) (next : NodeId) :
    ∃ π, (root.copyFrom next).1 = root.renumber π := by
  have numbered : (root.copyFrom next).1.ids = List.range' next root.nodes.length :=
    (map_id_copyFrom next root).1
  obtain ⟨π, image⟩ := exists_perm_map_eq distinct
    (numbered ▸ List.nodup_range' : (root.copyFrom next).1.ids.Nodup)
    (by rw [numbered, List.length_range', ids, List.length_map])
  exact ⟨π, copyFrom_eq_renumber next root image⟩

theorem nodes_sublist_nodesOf {root : Node} {trees : List Node} (h : root ∈ trees) :
    root.nodes.Sublist (nodesOf trees) := by
  obtain ⟨before, after, rfl⟩ := List.append_of_mem h
  rw [nodesOf_append, nodesOf]
  exact (List.sublist_append_left _ _).trans (List.sublist_append_right _ _)

end Node

/-! ### Solving copies -/

section Copies

variable {context : Context} {program : Program} {resolutions : Resolutions} {clause : Node}

/-- A copy whose nodes are in no table is solved as the clause is without resolutions, with
other identities. -/
theorem solveClause_copyFrom (context : Context) (program : Program)
    (distinct : clause.ids.Nodup) {next : NodeId}
    (unknown : ∀ pass, ∀ id ≥ next, (resolutions.table pass).get? id = none) :
    ∃ π, solveClause context program resolutions (clause.copyFrom next).1 =
      (solveClause context program {} clause).map (SolvedClause.renumber π) := by
  obtain ⟨π, copied⟩ := Node.exists_renumber_eq_copyFrom distinct next
  refine ⟨π, ?_⟩
  rw [copied]
  refine solveClause_renumber context program fun node hnode => ?_
  have hcopy : node.renumber π ∈ (clause.copyFrom next).1.nodes := by
    rw [copied, Node.nodes_renumber]
    exact List.mem_map_of_mem hnode
  have new : next ≤ π node.id := by
    rw [← Node.id_renumber]
    exact (Node.id_of_mem_copyFrom hcopy).1
  exact ⟨unknown .functors _ new, unknown .numerals _ new⟩

/-- The tables say no more of the node than its label does: if it is a functor it is not
resolved, and if it is a numeral that is, it can be read in one way only. -/
def Resolutions.SilentOn (node : Node) (resolutions : Resolutions) : Prop :=
  (∀ symbol, node.label = .functor symbol → resolutions.functors.get? node.id = none) ∧
    ∀ text kind, node.label = .numeral text none →
      resolutions.numerals.get? node.id = some kind → Numeral.kinds text = [kind]

theorem Resolutions.SilentOn.nodeConstraints_eq {node : Node} (silent : resolutions.SilentOn node)
    (negated : List NodeId) :
    nodeConstraints context program resolutions negated node =
      nodeConstraints context program {} negated node := by
  obtain ⟨functors, numerals⟩ := silent
  cases hlabel : node.label with
  | functor symbol =>
      simp only [nodeConstraints, hlabel, functorConstraints, functors symbol hlabel]
      rfl
  | numeral text fixed =>
      cases fixed with
      | some kind => simp only [nodeConstraints, hlabel, numeralConstraint]
      | none =>
          rw [nodeConstraints_numeral hlabel, nodeConstraints_numeral hlabel]
          cases hrecorded : resolutions.numerals.get? node.id with
          | none =>
              simp only [numeralConstraint, hrecorded]
              rfl
          | some kind =>
              have only := numerals text kind hlabel hrecorded
              simp only [numeralConstraint, hrecorded, ← only]
              rfl
  | _ => simp only [nodeConstraints, hlabel]

/-! ### Clauses without functors -/

theorem SolvedClause.forall₂_typeSets_iff {one other : SolvedClause}
    (same : one.clause = other.clause) {relation : TypeSet → TypeSet → Prop} :
    List.Forall₂ relation one.typing.typeSets other.typing.typeSets ↔
      ∀ argument ∈ one.clause.arguments,
        relation (one.solution.assignment argument.typeVar)
          (other.solution.assignment argument.typeVar) := by
  simp only [typing, same, List.forall₂_map_left_iff, List.forall₂_map_right_iff,
    List.forall₂_same]

/-- The types of numerals are of the kinds that the numerals are resolved to. -/
def SolvedClause.BearsOut (env : TypeEnv) (resolutions : Resolutions) (solved : SolvedClause) :
    Prop :=
  ∀ node ∈ solved.clause.nodes, ∀ text kind, node.label = .numeral text none →
    resolutions.numerals.get? node.id = some kind →
    (solved.solution.assignment node.typeVar).Consists fun name => env.isOfKind name kind.kind

section FunctorFree

variable {first own : SolvedClause} (hcontext : Context.ofProgram program = .ok context)
  (unionFree : context.env.UnionFree) (functorFree : clause.FunctorFree)
  (hfirst : solveClause context program {} clause = .ok first)
  (hown : solveClause context program resolutions clause = .ok own)

include hcontext unionFree functorFree hfirst hown

/-- Resolutions take types away. -/
theorem typeSets_covers (readable : ∀ node ∈ clause.nodes, ∀ text kind,
      node.label = .numeral text none → resolutions.numerals.get? node.id = some kind →
      kind ∈ Numeral.kinds text) :
    List.Forall₂ (TypeSet.Covers context.env) first.typing.typeSets own.typing.typeSets := by
  have wellFormed := Context.wellFormed_of_ofProgram hcontext
  have satisfied := solveClause_satisfiedBy hcontext (wellFormed.acyclic unionFree) hown
  have covers := solveClause_covers unionFree wellFormed.builtIns functorFree hfirst
    (satisfied.unresolved functorFree readable)
  have same := (solveClause_clause hfirst).trans (solveClause_clause hown).symm
  exact (SolvedClause.forall₂_typeSets_iff same).mpr fun argument _ => covers argument.typeVar

/-- They take none away exactly if they only say what kinds the types of numerals have. -/
theorem covers_typeSets_iff :
    List.Forall₂ (TypeSet.Covers context.env) own.typing.typeSets first.typing.typeSets ↔
      first.BearsOut context.env resolutions := by
  have wellFormed := Context.wellFormed_of_ofProgram hcontext
  have acyclic := wellFormed.acyclic unionFree
  have satisfied := solveClause_satisfiedBy hcontext acyclic hfirst
  have satisfied' := solveClause_satisfiedBy hcontext acyclic hown
  obtain rfl := solveClause_clause hfirst
  rw [SolvedClause.forall₂_typeSets_iff (solveClause_clause hown)]
  constructor
  · -- types that are covered by types of a kind are of that kind
    intro covers node hnode text kind hlabel hrecorded
    have hargument : node ∈ own.clause.arguments := by
      rw [solveClause_clause hown]
      exact List.mem_filter.mpr ⟨hnode, by rw [Node.isArgument, hlabel]; rfl⟩
    obtain ⟨uppers, huppers, kinds⟩ :=
      (numeral_resolved_iff hrecorded).mp (satisfied'.numeral hnode hlabel)
    obtain ⟨names, hnames, below⟩ := covers node hargument uppers huppers
    refine ⟨names, hnames, fun name hname => ?_⟩
    obtain ⟨upper, hupper, hsub⟩ := below name hname
    exact acyclic.isOfKind_down kind.kind_mem_primitives hsub (kinds upper hupper)
  · -- what satisfies the constraints without resolutions satisfies those with them
    intro bearsOut argument _
    refine solveClause_covers unionFree wellFormed.builtIns functorFree hown ?_ argument.typeVar
    intro visit hvisit constraints hconstraints
    have hnode := Node.mem_nodes_of_visit hvisit
    by_cases resolved : ∃ text kind, visit.node.label = .numeral text none ∧
        resolutions.numerals.get? visit.node.id = some kind
    · obtain ⟨text, kind, hlabel, hrecorded⟩ := resolved
      rw [nodeConstraints_numeral hlabel] at hconstraints
      obtain rfl := Except.ok.inj hconstraints
      intro constraint hconstraint
      obtain rfl := List.mem_singleton.mp hconstraint
      exact (numeral_resolved_iff hrecorded).mpr (bearsOut _ hnode text kind hlabel hrecorded)
    · have silent : resolutions.SilentOn visit.node :=
        ⟨fun symbol hlabel => absurd hlabel (functorFree visit.node hnode symbol),
          fun text kind hlabel hrecorded => absurd ⟨text, kind, hlabel, hrecorded⟩ resolved⟩
      rw [silent.nodeConstraints_eq] at hconstraints
      exact satisfied visit hvisit constraints hconstraints

end FunctorFree

end Copies

/-! ### Copies after a run -/

namespace Program

variable {context : Context} {program : Program} {resolutions : Resolutions} {count : Nat}

/-- Nothing is recorded for a node that is not of the program. -/
theorem get?_eq_none_of_absent (h : program.resolvedAfter? context {} count = some resolutions)
    {id : NodeId} (absent : ∀ node ∈ Node.nodesOf program.clauses, node.id ≠ id) (pass : Pass) :
    (resolutions.table pass).get? id = none := by
  refine resolvedAfter?_preserves (motive := fun resolutions =>
    (resolutions.table pass).get? id = none) ?_ h (by cases pass <;> rfl)
  intro changing known node after changed hnode hstep unrecorded
  obtain ⟨value, -, others, entries, -, -⟩ := Pass.step_eq_ok hstep
  by_cases hpass : pass = changing
  · subst hpass
    exact (entries id).trans ((if_neg (absent node hnode).symm).trans unrecorded)
  · exact (congrArg (·.get? id) (others pass hpass)).trans unrecorded

/-- If a first round was completed, each clause can be solved without resolutions. -/
theorem exists_solved_first (h : program.resolvedAfter? context {} count = some resolutions)
    (positive : 0 < count) {clause : Node} (hclause : clause ∈ program.clauses) :
    ∃ first, solveClause context program {} clause = .ok first := by
  cases hround : program.round? context {} with
  | none =>
      have stuck : program.resolvedAfter? context {} 1 = none := by
        rw [resolvedAfter?, resolvedAfter?, Option.bind_some, hround, Option.map_none]
      cases (resolvedAfter?_eq_none stuck positive).symm.trans h
  | some outcome =>
      obtain ⟨solved, hsolved, -⟩ := round?_eq_some.mp hround
      exact exists_solved_iff.mp ⟨solved, hsolved⟩ clause hclause

/-- When a run has returned, a copy of a clause has the types that the clause had in the
first round. These are the types of the clause in the end, if no resolution says more than
the label of its node. With neither functors nor unions they cover the types of the clause,
and they are covered by these exactly if all that the resolutions say of its numerals was
already so in the first round. -/
theorem solveClause_copy (hcontext : Context.ofProgram program = .ok context)
    (distinct : ((Node.nodesOf program.clauses).map Node.id).Nodup) {account : Bool} {limit : Nat}
    (returns : (program.run context account limit).fault = none) {clause : Node}
    (hclause : clause ∈ program.clauses) {next : NodeId}
    (free : ∀ node ∈ Node.nodesOf program.clauses, node.id < next) :
    let resolutions := (program.run context account limit).analysis.resolutions
    ∃ first own copy,
      solveClause context program {} clause = .ok first ∧
      solveClause context program resolutions clause = .ok own ∧
      solveClause context program resolutions (clause.copyFrom next).1 = .ok copy ∧
      copy.typing.typeSets = first.typing.typeSets ∧
      ((∀ node ∈ clause.nodes, resolutions.SilentOn node) →
        copy.typing.typeSets = own.typing.typeSets) ∧
      (context.env.UnionFree → clause.FunctorFree →
        List.Forall₂ (TypeSet.Covers context.env) copy.typing.typeSets own.typing.typeSets ∧
        (List.Forall₂ (TypeSet.Covers context.env) own.typing.typeSets copy.typing.typeSets ↔
          first.BearsOut context.env resolutions)) := by
  intro resolutions
  obtain ⟨count, -, ends⟩ := Analysis.run_returns returns
  have reached : program.resolvedAfter? context {} count = some resolutions := ends.reached
  obtain ⟨first, hfirst⟩ := exists_solved_first reached ends.positive hclause
  obtain ⟨solved, hsolved, -⟩ := round?_eq_some.mp ends.final.settled
  obtain ⟨own, hown⟩ := exists_solved_iff.mp ⟨solved, hsolved⟩ clause hclause
  have part := Node.nodes_sublist_nodesOf hclause
  have unknown : ∀ pass, ∀ id ≥ next, (resolutions.table pass).get? id = none :=
    fun pass id hid => get?_eq_none_of_absent reached
      (fun node hnode => ((free node hnode).trans_le hid).ne) pass
  obtain ⟨π, hcopy⟩ := solveClause_copyFrom context program
    (distinct.sublist (part.map Node.id)) unknown
  rw [hfirst] at hcopy
  refine ⟨first, own, first.renumber π, hfirst, hown, hcopy, first.typeSets_renumber π, ?_, ?_⟩
  · intro silent
    have unaffected : solveClause context program resolutions clause =
        solveClause context program {} clause :=
      solveClause_congr fun node hnode => (silent node hnode).nodeConstraints_eq
    have same : first = own := Except.ok.inj (hfirst.symm.trans (unaffected.symm.trans hown))
    rw [first.typeSets_renumber π, same]
  · intro unionFree functorFree
    have acyclic := (Context.wellFormed_of_ofProgram hcontext).acyclic unionFree
    have identified := identified_of_nodup distinct
    have legal := (Analysis.Reachable.fresh.runFrom account limit limit 0).legal hcontext acyclic
      identified
    rw [first.typeSets_renumber π]
    refine ⟨typeSets_covers hcontext unionFree functorFree hfirst hown ?_,
      covers_typeSets_iff hcontext unionFree functorFree hfirst hown⟩
    intro node hnode text kind hlabel hrecorded
    exact List.mem_filter.mpr ⟨NumericKind.mem_all kind,
      legal.resolutions.readable identified (part.subset hnode) hlabel hrecorded⟩

/-- The clause `size("a",1).` -/
def sizeFact : Node :=
  .mk 3 none .clause [.mk 4 none (.atom "size") [
    .mk 5 none (.string "a") [], .mk 6 none (.numeral "1" none) []]]

/-- The clause `ratio(2.5) :- !size("a",_).` -/
def ratioRule : Node :=
  .mk 7 none .clause [
    .mk 8 none (.atom "ratio") [.mk 9 none (.numeral "2.5" none) []],
    .mk 10 none .negation [.mk 11 none (.atom "size") [
      .mk 12 none (.string "a") [], .mk 13 none .wildcard []]]]

/-- The two clauses, where the second attribute of `size` is a number. -/
def sizeProgram : Program where
  relations := [.mk 0 none (.relationDecl "size") [
    .mk 1 none (.field "name" "symbol") [], .mk 2 none (.field "bytes" "number") []]]
  clauses := [sizeFact, ratioRule]

/-- The numeral of the one clause is resolved to one of three representations, but the
relation bounds it to the same. That of the other one can be read as a float only. -/
theorem solveClause_copy_sizeProgram :
    Context.ofProgram sizeProgram = .ok bareContext ∧
    ((Node.nodesOf sizeProgram.clauses).map Node.id).Nodup ∧
    (sizeProgram.run bareContext false 2).fault = none ∧
    (∀ node ∈ Node.nodesOf sizeProgram.clauses, node.id < 14) ∧
    let resolutions := (sizeProgram.run bareContext false 2).analysis.resolutions;
    Numeral.kinds "1" = [.int, .uint, .float] ∧ resolutions.numerals.get? 6 = some .int ∧
    (∃ first own copy, solveClause bareContext sizeProgram {} sizeFact = .ok first ∧
      solveClause bareContext sizeProgram resolutions sizeFact = .ok own ∧
      solveClause bareContext sizeProgram resolutions (sizeFact.copyFrom 14).1 = .ok copy ∧
      own.typing.typeSets = [.ofList ["symbol"], .ofList ["number"]] ∧
      copy.typing.typeSets = own.typing.typeSets ∧ first.BearsOut bareContext.env resolutions) ∧
    ∃ own copy, solveClause bareContext sizeProgram resolutions ratioRule = .ok own ∧
      solveClause bareContext sizeProgram resolutions (ratioRule.copyFrom 14).1 = .ok copy ∧
      copy.typing.typeSets = own.typing.typeSets := by
  have hcontext : Context.ofProgram sizeProgram = .ok bareContext := rfl
  have distinct : ((Node.nodesOf sizeProgram.clauses).map Node.id).Nodup := by decide
  have returns : (sizeProgram.run bareContext false 2).fault = none := by decide +kernel
  have free : ∀ node ∈ Node.nodesOf sizeProgram.clauses, node.id < 14 := by
    simp [sizeProgram, sizeFact, ratioRule, Node.nodesOf, Node.nodes, Node.id]
  refine ⟨hcontext, distinct, returns, free, by decide, by decide +kernel, ?_, ?_⟩
  · have functorFree : sizeFact.FunctorFree := by
      simp [Node.FunctorFree, sizeFact, Node.nodes, Node.nodesOf, Node.label]
    obtain ⟨first, own, copy, hfirst, hown, hcopy, -, -, covers⟩ :=
      solveClause_copy hcontext distinct returns (by simp [sizeProgram] : sizeFact ∈ _) free
    have sets : ∀ clause ∈ [sizeFact, (sizeFact.copyFrom 14).1],
        (solveClause bareContext sizeProgram
          (sizeProgram.run bareContext false 2).analysis.resolutions clause).toOption.map
          (·.typing.typeSets) = some [.ofList ["symbol"], .ofList ["number"]] := by decide +kernel
    have ownSets := Option.some.inj (hown ▸ sets sizeFact (by simp))
    have copySets := Option.some.inj (hcopy ▸ sets (sizeFact.copyFrom 14).1 (by simp))
    have same : copy.typing.typeSets = own.typing.typeSets := copySets.trans ownSets.symm
    refine ⟨first, own, copy, hfirst, hown, hcopy, ownSets, same, ?_⟩
    refine (covers bareContext_unionFree functorFree).2.mp ?_
    rw [same]
    exact List.forall₂_same.mpr fun types _ => TypeSet.covers_refl _ types
  · obtain ⟨-, own, copy, -, hown, hcopy, -, same, -⟩ :=
      solveClause_copy hcontext distinct returns (by simp [sizeProgram] : ratioRule ∈ _) free
    refine ⟨own, copy, hown, hcopy, same ?_⟩
    have resolved : (sizeProgram.run bareContext false 2).analysis.resolutions.numerals.get? 9 =
        some .float := by decide +kernel
    have readings : Numeral.kinds "2.5" = [.float] := by decide
    simp [Resolutions.SilentOn, ratioRule, Node.nodes, Node.nodesOf, Node.label, Node.id, resolved,
      readings]

/-- The clause `A(1).` -/
def loneNumeral : Node :=
  .mk 0 none .clause [.mk 1 none (.atom "A") [.mk 2 none (.numeral "1" none) []]]

/-- The clause alone. -/
def loneProgram : Program where
  clauses := [loneNumeral]

theorem exists_solved_of_typeSets {outcome : Except Fault SolvedClause} {sets : List TypeSet}
    (h : outcome.toOption.map (·.typing.typeSets) = some sets) :
    ∃ solved, outcome = .ok solved ∧ solved.typing.typeSets = sets := by
  cases outcome with
  | error fault => cases h
  | ok solved => exact ⟨solved, rfl, Option.some.inj h⟩

/-- Nothing but preference resolves the numeral, so a copy of the clause has other types. -/
theorem loneNumeral_copy_differs :
    Context.ofProgram loneProgram = .ok bareContext ∧
    ((Node.nodesOf loneProgram.clauses).map Node.id).Nodup ∧
    (loneProgram.run bareContext false 2).fault = none ∧
    let resolutions := (loneProgram.run bareContext false 2).analysis.resolutions;
    resolutions.numerals.get? 2 = some .int ∧
    ∃ own copy, solveClause bareContext loneProgram resolutions loneNumeral = .ok own ∧
      solveClause bareContext loneProgram resolutions (loneNumeral.copyFrom 3).1 = .ok copy ∧
      own.typing.typeSets = [.ofList ["__numberConstant"]] ∧
      copy.typing.typeSets =
        [.ofList ["__floatConstant", "__numberConstant", "__unsignedConstant"]] ∧
      copy.typing.typeSets ≠ own.typing.typeSets := by
  refine ⟨rfl, by decide, by decide +kernel, by decide +kernel, ?_⟩
  obtain ⟨own, hown, ownSets⟩ := exists_solved_of_typeSets
    (by decide +kernel : (solveClause bareContext loneProgram
      (loneProgram.run bareContext false 2).analysis.resolutions loneNumeral).toOption.map
      (·.typing.typeSets) = some [.ofList ["__numberConstant"]])
  obtain ⟨copy, hcopy, copySets⟩ := exists_solved_of_typeSets
    (by decide +kernel : (solveClause bareContext loneProgram
      (loneProgram.run bareContext false 2).analysis.resolutions
      (loneNumeral.copyFrom 3).1).toOption.map (·.typing.typeSets) =
        some [.ofList ["__floatConstant", "__numberConstant", "__unsignedConstant"]])
  refine ⟨own, copy, hown, hcopy, ownSets, copySets, ?_⟩
  rw [ownSets, copySets]
  decide

end Program

end DatalogTyping

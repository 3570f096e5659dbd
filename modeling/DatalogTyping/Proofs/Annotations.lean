import DatalogTyping.Inference.Analysis
import DatalogTyping.Proofs.Tours

/-!
# Annotated copies

To annotate a clause is to copy it, to carry its sets of types over to the copy, and to
replace the variables of the copy in place. Any of this might fail: the copy might not
have the shape of the clause, a variable might have no entry, its replacement might be
refused. And it might change what it should not, since nodes are changed wherever their
identity is found.

None of it happens, because the nodes of the copy are new and stand in the order of the
original. All variables can be replaced, so the tour of the copy is completed, and it
leaves new nodes only (`Sized.annotations_build`, `annotations_keep`). So the trees that
were there before stay as they are, and there is room for the next copy
(`annotate_eq_ok`). An analysis that keeps an account therefore solves clauses as one
that keeps none (`Analysis.solve_eq`).
-/

namespace DatalogTyping

/-! ### Typings of copies -/

namespace ClauseTyping

variable {typing : ClauseTyping} {node : Node}

theorem mismatch?_eq_none {mine theirs : List Node}
    (labels : mine.map Node.label = theirs.map Node.label) : mismatch? mine theirs = none := by
  refine List.find?_eq_none.mpr fun pair hpair => ?_
  obtain ⟨i, hi, rfl⟩ := List.getElem_of_mem hpair
  obtain ⟨hmine, htheirs⟩ := Nat.lt_min.mp (List.length_zip ▸ hi)
  have hlabel := congrArg (·[i]?) labels
  simp only [List.getElem?_map, List.getElem?_eq_getElem hmine, List.getElem?_eq_getElem htheirs,
    Option.map_some, Option.some.injEq] at hlabel
  simp [hlabel]

/-- The same sets of types for a copy of the clause, numbered from `next` on. -/
def onCopy (typing : ClauseTyping) (next : NodeId) : ClauseTyping :=
  { typing with clause := (typing.clause.copyFrom next).1 }

/-- The sets of types of a clause apply to its copies. -/
theorem transplant_copyFrom (typing : ClauseTyping) (next : NodeId) :
    typing.transplant (typing.clause.copyFrom next).1 = .ok (typing.onCopy next) := by
  have labels := (Node.map_label_arguments_copyFrom next typing.clause).symm
  have lengths : typing.clause.arguments.length =
      (typing.clause.copyFrom next).1.arguments.length := by
    simpa using congrArg List.length labels
  simp only [transplant, lengths, mismatch?_eq_none labels, if_true]
  rfl

/-- There is a set of types for every argument. -/
def Sized (typing : ClauseTyping) : Prop :=
  typing.typeSets.length = typing.clause.arguments.length

theorem Sized.onCopy (sized : typing.Sized) (next : NodeId) : (typing.onCopy next).Sized := by
  have lengths := congrArg List.length (Node.map_label_arguments_copyFrom next typing.clause)
  simp only [List.length_map] at lengths
  exact sized.trans lengths.symm

theorem get?_of_lookup_eq_ok {id : NodeId} {types : TypeSet} (h : typing.lookup id = .ok types) :
    typing.get? id = some types := by
  unfold lookup at h
  split at h
  · rename_i found
    exact found.trans (congrArg some (Except.ok.inj h))
  · cases h

theorem Sized.lookup_eq_ok (sized : typing.Sized) (h : node ∈ typing.clause.arguments) :
    ∃ types, typing.lookup node.id = .ok types := by
  obtain ⟨i, hi, rfl⟩ := List.getElem_of_mem h
  have hi' : i < typing.typeSets.length := sized.symm ▸ hi
  have hentry : (typing.clause.arguments[i], typing.typeSets[i]) ∈ typing.entries := by
    have hzip : i < (typing.clause.arguments.zip typing.typeSets).length := by
      rw [List.length_zip]
      exact Nat.lt_min.mpr ⟨hi, hi'⟩
    rw [entries, ← List.getElem_zip (h := hzip)]
    exact List.getElem_mem hzip
  have found : (typing.get? typing.clause.arguments[i].id).isSome := by
    rw [get?, Option.isSome_map, List.find?_isSome]
    exact ⟨_, hentry, by simp⟩
  obtain ⟨types, htypes⟩ := Option.isSome_iff_exists.mp found
  exact ⟨types, by rw [lookup, htypes]⟩

theorem annotatedName_isEmpty (name : String) (types : TypeSet) :
    (annotatedName name types).isEmpty = false := by
  have sign : toString "∈" ≠ "" := by decide
  simp [annotatedName, sign]

theorem typedVar_run {id : NodeId} {types : TypeSet} (h : typing.lookup id = .ok types)
    (name : String) (next : NodeId) :
    (typing.typedVar id name).run next =
      .ok (.mk next none (.var (annotatedName name types)) [], next + 1) := by
  simp only [typedVar, h, Build.var, Build.nonempty, annotatedName_isEmpty]
  rfl

/-- What takes the place of a node is a variable that shows the types of the node. -/
theorem annotations_eq_some {id : NodeId} {label : Label} {build : Build Node}
    (h : typing.annotations id label = some build) :
    label.isArgument ∧ ∃ name, build = typing.typedVar id name := by
  cases label with
  | var name => exact ⟨rfl, name, (Option.some.inj h).symm⟩
  | wildcard => exact ⟨rfl, "_", (Option.some.inj h).symm⟩
  | _ => cases h

theorem typedVar_run_eq_ok {id next later : NodeId} {name : String} {fresh : Node}
    (h : (typing.typedVar id name).run next = .ok (fresh, later)) :
    ∃ types, typing.lookup id = .ok types ∧
      fresh = .mk next none (.var (annotatedName name types)) [] ∧ later = next + 1 := by
  cases hlookup : typing.lookup id with
  | error fault =>
      rw [typedVar, hlookup] at h
      cases h
  | ok types =>
      rw [typedVar_run hlookup] at h
      cases h
      exact ⟨types, rfl, rfl, rfl⟩

theorem annotations_keep {P : NodeId → Label → Prop} {start : NodeId}
    (vars : ∀ id name, start ≤ id → P id (.var name)) (typing : ClauseTyping) :
    Forest.Replacement.Keeps P start typing.annotations := by
  intro id label build hbuild next fresh later h run
  obtain ⟨-, name, rfl⟩ := annotations_eq_some hbuild
  obtain ⟨types, -, rfl, rfl⟩ := typedVar_run_eq_ok run
  exact ⟨Nat.le_succ next, Node.within_singleton.mpr
    ⟨⟨Nat.lt_succ_self next, vars next _ h⟩, Node.within_nil⟩⟩

/-- Every variable has an entry, and a name that shows its types is not empty. -/
theorem Sized.annotations_build (sized : typing.Sized) (h : node ∈ typing.clause.nodes) :
    Forest.Replacement.Builds typing.annotations node := by
  intro build hbuild next
  obtain ⟨argument, name, rfl⟩ := annotations_eq_some hbuild
  obtain ⟨types, htypes⟩ := sized.lookup_eq_ok (List.mem_filter.mpr ⟨h, argument⟩)
  exact ⟨_, typedVar_run htypes name next⟩

/-- The copy of the clause with its variables replaced, numbered from `next` on. -/
def twin (typing : ClauseTyping) (next : NodeId) : Node :=
  let copy := (typing.onCopy next).clause
  copy.withChildren (Forest.tour (typing.onCopy next).annotations copy.label 0
    (typing.clause.copyFrom next).2 copy.children).nodes

end ClauseTyping

/-! ### Copies beside the clauses -/

namespace Forest

open Node

variable {P : NodeId → Label → Prop} {forest : Forest} {root : Node}

/-- The nodes below the last tree of a forest can be replaced. This leaves the trees
before it as they are. -/
theorem rewrite_last {replace : Replacement} {before : List Node} {slots : List NodeId}
    (trees : forest.trees = before ++ [root]) (hslots : forest.slots = slots ++ [root.id])
    (absent : ∀ node ∈ nodesOf before, node.id ≠ root.id)
    (earlier : Within (fun _ _ => True) forest.next before) (within : Within P forest.next [root])
    (keeps : replace.Keeps P forest.next) (builds : ∀ node ∈ root.nodes, replace.Builds node)
    {twin : Node} (htwin : twin =
      root.withChildren (tour replace root.label 0 forest.next root.children).nodes) :
    ∃ after, forest.rewrite root replace = (after, none) ∧ after.slot (-1) = .ok twin ∧
      after.Fresh ∧ before <+: after.trees ∧ Within P after.next [twin] := by
  obtain ⟨⟨hid, hlabel⟩, hchildren⟩ := within_singleton.mp within
  have left := keeps.tour (Nat.le_refl _) hchildren root.label 0
  have completed := tour_completed (fun node hnode =>
    builds node (root.nodes_eq ▸ List.mem_cons_of_mem _ hnode)) root.label 0 forest.next
  obtain ⟨tour, htour⟩ :
      ∃ tour, Forest.tour replace root.label 0 forest.next root.children = tour := ⟨_, rfl⟩
  rw [htour] at left completed htwin
  have changed : modifyAll root.id (·.withChildren tour.nodes) forest.trees = before ++ [twin] := by
    rw [trees, modifyAll_append, modifyAll_of_absent _ before absent, modifyAll, modifyAll,
      modify_self, htwin]
  have within : Within P tour.next [twin] := by
    rw [htwin]
    exact within_singleton.mpr ⟨⟨Nat.lt_of_lt_of_le hid left.grows, hlabel⟩, left.nodes⟩
  have same : twin.id = root.id := htwin ▸ rfl
  refine ⟨{ forest with trees := before ++ twin :: tour.cut, next := tour.next }, ?_, ?_, ?_, ?_,
    within⟩
  · simp only [rewrite, regrow, htour, changed, completed.1, List.append_assoc,
      List.singleton_append]
  · exact slot_last rfl (same ▸ hslots) (same ▸ absent)
  · have unlabelled {trees : List Node} (h : Within P tour.next trees) :
        Within (fun _ _ => True) tour.next trees := h.imp fun _ _ _ _ => trivial
    exact within_append.mpr ⟨earlier.mono left.grows,
      within_cons.mpr ⟨unlabelled within, unlabelled left.cut⟩⟩
  · exact List.prefix_append _ _

/-- A clause can be annotated in any forest. The trees of the forest stay as they are,
and the nodes of the copy satisfy what new nodes with the labels of the clause and new
variables satisfy. -/
theorem annotate_eq_ok (vars : ∀ id name, forest.next ≤ id → P id (.var name))
    (fresh : forest.Fresh) {typing : ClauseTyping} (sized : typing.Sized)
    (labels : ∀ node ∈ typing.clause.nodes, ∀ id, forest.next ≤ id → P id node.label) :
    ∃ after, forest.annotate typing = .ok (after, typing.twin forest.next) ∧ after.Fresh ∧
      forest.trees <+: after.trees ∧ Within P after.next [typing.twin forest.next] := by
  have slot := fresh.slot_clone typing.clause
  have transplant := typing.transplant_copyFrom forest.next
  have grows := le_copyFrom forest.next typing.clause
  have trees : (forest.clone typing.clause).trees =
    forest.trees ++ [(typing.clause.copyFrom forest.next).1] := rfl
  obtain ⟨after, hrewrite, hslot, hfresh, kept, within⟩ :=
    rewrite_last trees rfl
      (fresh.ne_of_le (Nat.le_of_eq (id_copyFrom forest.next typing.clause).symm))
      (fresh.mono grows) (within_copyFrom labels)
      (ClauseTyping.annotations_keep (fun id name h => vars id name (Nat.le_trans grows h)) _)
      (fun node => (sized.onCopy forest.next).annotations_build)
      (show typing.twin forest.next = _ from rfl)
  refine ⟨after, ?_, hfresh, kept, within⟩
  simp only [annotate, slot, transplant, hrewrite, hslot, bind, Except.bind]
  rfl

/-- Clauses can be annotated one after another, likewise. -/
theorem annotateAll_complete {P : Label → Prop} (vars : ∀ name, P (.var name))
    {typings : List ClauseTyping}
    (fresh : forest.Fresh) (sized : ∀ typing ∈ typings, typing.Sized)
    (labels : ∀ typing ∈ typings, ∀ node ∈ typing.clause.nodes, P node.label) :
    (forest.annotateAll typings).fault = none ∧
      forest.trees <+: (forest.annotateAll typings).forest.trees ∧
      (forest.annotateAll typings).twins.length = typings.length ∧
      ∀ twin ∈ (forest.annotateAll typings).twins, ∀ node ∈ twin.nodes, P node.label := by
  induction typings generalizing forest with
  | nil => exact ⟨rfl, List.prefix_rfl, rfl, by simp [annotateAll]⟩
  | cons typing rest ih =>
      obtain ⟨hsized, sized⟩ := List.forall_mem_cons.mp sized
      obtain ⟨hlabels, labels⟩ := List.forall_mem_cons.mp labels
      obtain ⟨after, hannotate, hfresh, kept, htwin⟩ := annotate_eq_ok (P := fun _ => P)
        (fun _ name _ => vars name) fresh hsized fun node hnode _ _ => hlabels node hnode
      obtain ⟨fault, kept', length, twins⟩ := ih hfresh sized labels
      simp only [annotateAll, hannotate]
      refine ⟨fault, kept.trans kept', congrArg (· + 1) length,
        List.forall_mem_cons.mpr ⟨fun node hnode => (htwin node ?_).2, twins⟩⟩
      rwa [nodesOf_singleton]

end Forest

theorem SolvedClause.typing_sized (solved : SolvedClause) : solved.typing.Sized :=
  List.length_map _

theorem ClauseTyping.clauses_fresh (typings : List ClauseTyping) : (clauses typings).Fresh :=
  fun _ hnode => ⟨Node.id_lt_unused hnode, trivial⟩

/-- Clauses that were solved can be annotated, so an account does not change which are
solved. -/
theorem Analysis.solve_eq (analysis : Analysis) (context : Context) (program : Program)
    (account : Bool) :
    analysis.solve context program account =
      (analysis.record account
          (solveClauses context program analysis.resolutions program.clauses).1,
        (solveClauses context program analysis.resolutions program.clauses).2) := by
  rcases hsolved : solveClauses context program analysis.resolutions program.clauses with
    ⟨solved, fault⟩
  have faultless : (ClauseTyping.annotateAll account (solved.map SolvedClause.typing)).fault =
      none := by
    cases account with
    | false => rfl
    | true =>
        refine (Forest.annotateAll_complete (P := fun _ => True) (fun _ => trivial)
          (ClauseTyping.clauses_fresh _) ?_ fun _ _ _ _ => trivial).1
        intro typing htyping
        obtain ⟨one, -, rfl⟩ := List.mem_map.mp htyping
        exact one.typing_sized
  simp only [solve, hsolved, faultless]

end DatalogTyping

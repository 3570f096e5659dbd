import DatalogTyping.Inference.Printer
import DatalogTyping.Proofs.ChosenOverloads

/-!
# Accounts of a run

The account of a run shows annotated copies of the clauses, and every node of the program
with what is known about it. It asks for the types of arguments, the return types of
calls, the kinds of functors and the operators of aggregates and comparisons.

Whatever has been solved has no declarations in it, so that its annotated copy can be
shown (`Annotations.Complete`). At the end of a run every argument has types, and every
aggregate and every comparison is resolved, since no pass had to add an entry. What need
not be resolved is not asked for. So the account can be given (`account_eq_ok`).
-/

namespace DatalogTyping

namespace Knowledge

variable {known : Knowledge} {program : Program} {node : Node}

/-- What an account asks for. -/
structure Tells (program : Program) (known : Knowledge) : Prop where
  informed : ∀ node ∈ Node.nodesOf program.clauses, node.isArgument →
    ∃ types, known.types.get? node.id = some types
  labels : ∀ node ∈ Node.nodesOf program.clauses, node.label.isDeclaration = false
  aggregates : ∀ node ∈ Node.nodesOf program.clauses, ∀ op targeted,
    node.label = .aggregate op targeted →
      ∃ variant, known.resolutions.aggregates.get? node.id = some variant
  comparisons : ∀ node ∈ Node.nodesOf program.clauses, ∀ op, node.label = .comparison op →
    ∃ variant, known.resolutions.comparisons.get? node.id = some variant

theorem returnType_eq_ok {name : String}
    (hlabel : node.label = .call name ∨ node.label = .fold name)
    (settled : known.isSettled node) : ∃ result, known.returnType node = .ok result := by
  obtain ⟨hname, signature, hsignature, usable⟩ :
      node.label.name? = some name ∧ ∃ signature, known.context.signature? name = some signature ∧
        known.context.isUsable signature := by
    have settled' := settled
    rcases hlabel with hlabel | hlabel
    all_goals
      simp only [isSettled, hlabel] at settled'
      refine ⟨by rw [hlabel]; rfl, ?_⟩
      split at settled'
      · exact ⟨_, ‹_›, settled'⟩
      · cases settled'
  obtain ⟨definition, hfind⟩ :=
    Option.isSome_iff_exists.mp (Context.isType_of_isUsable usable).1
  refine ⟨signature.result, ?_⟩
  simp [returnType, signatureOf, settled, hname, hsignature, TypeEnv.require, TypeEnv.get, hfind,
    bind, Except.bind, Except.map]

theorem shownReturn_eq_ok (known : Knowledge) {name : String}
    (hlabel : node.label = .call name ∨ node.label = .fold name) :
    ∃ text, known.shownReturn node = .ok text := by
  unfold shownReturn
  split
  · rename_i settled
    obtain ⟨result, hresult⟩ := returnType_eq_ok hlabel settled
    exact ⟨_, by rw [hresult]; rfl⟩
  · exact ⟨_, rfl⟩

namespace Tells

variable (tells : known.Tells program) (hnode : node ∈ Node.nodesOf program.clauses)

include tells hnode

theorem shownTypes_eq_ok (isArgument : node.isArgument) :
    ∃ text, known.shownTypes node = .ok text := by
  obtain ⟨types, htypes⟩ := tells.informed node hnode isArgument
  exact ⟨_, by simp only [shownTypes, typesOf, htypes]; rfl⟩

theorem shownOperator_eq_ok : ∃ text, known.shownOperator node = .ok text := by
  unfold shownOperator
  cases hlabel : node.label with
  | aggregate op targeted =>
      obtain ⟨variant, hvariant⟩ := tells.aggregates node hnode op targeted hlabel
      exact ⟨variant.keyword, by simp [operatorOf, hlabel, hvariant]⟩
  | comparison op =>
      obtain ⟨variant, hvariant⟩ := tells.comparisons node hnode op hlabel
      exact ⟨variant.sign, by simp [operatorOf, hlabel, hvariant]⟩
  | _ => exact ⟨_, rfl⟩

/-- Once its parts are shown, a node can be shown. -/
theorem compose_eq_ok (operator : String) (texts : List String) :
    ∃ text, known.compose program node operator texts = .ok text := by
  have label := tells.labels node hnode
  have types := tells.shownTypes_eq_ok hnode
  unfold compose
  cases hlabel : node.label with
  | var | cast | record | branch | aggregate =>
      obtain ⟨text, htext⟩ := types (by rw [Node.isArgument, hlabel]; rfl)
      exact ⟨_, by rw [htext]; rfl⟩
  | call name =>
      obtain ⟨text, htext⟩ := shownReturn_eq_ok known (.inl hlabel)
      exact ⟨_, by rw [htext]; rfl⟩
  | fold name =>
      obtain ⟨text, htext⟩ := shownReturn_eq_ok known (.inr hlabel)
      exact ⟨_, by rw [htext]; rfl⟩
  | functor symbol =>
      dsimp only
      split
      · rename_i settled
        obtain ⟨kind, hkind⟩ := returnKind_functor hlabel settled
        exact ⟨_, by rw [hkind]; rfl⟩
      · exact ⟨_, rfl⟩
  | clause | comparison =>
      dsimp only
      split <;> exact ⟨_, rfl⟩
  | field | relationDecl | functorDecl | subsetDecl | aliasDecl | unionDecl | recordDecl | branchDecl
  | adtDecl =>
      rw [hlabel] at label
      cases label
  | _ => exact ⟨_, rfl⟩

end Tells

theorem annotatedTexts_eq_ok {nodes : List Node}
    (h : ∀ node ∈ nodes, ∃ text, known.annotatedText program node = .ok text) :
    ∃ texts, known.annotatedTexts program nodes = .ok texts := by
  induction nodes with
  | nil => exact ⟨[], by rw [annotatedTexts]⟩
  | cons node rest ih =>
      obtain ⟨⟨text, htext⟩, hrest⟩ := List.forall_mem_cons.mp h
      obtain ⟨texts, htexts⟩ := ih hrest
      exact ⟨text :: texts, by rw [annotatedTexts, htext, htexts]; rfl⟩

theorem Tells.annotatedText_eq_ok (tells : known.Tells program) (node : Node)
    (hnode : node ∈ Node.nodesOf program.clauses) :
    ∃ text, known.annotatedText program node = .ok text := by
  induction node using Node.childInduction with
  | step node ih =>
      obtain ⟨texts, htexts⟩ := annotatedTexts_eq_ok fun child hchild =>
        ih child hchild (Node.child_mem_nodesOf _ hnode hchild)
      obtain ⟨operator, hoperator⟩ := tells.shownOperator_eq_ok hnode
      obtain ⟨text, htext⟩ := tells.compose_eq_ok hnode operator texts
      obtain ⟨id, span, label, children⟩ := node
      refine ⟨text, ?_⟩
      rw [annotatedText]
      simp only [hoperator, bind, Except.bind]
      rw [show known.annotatedTexts program children = .ok texts from htexts]
      exact htext

end Knowledge

/-- If everything is known that it asks for, the account can be given. -/
theorem Analysis.account_eq_ok {analysis : Analysis} {context : Context} {program : Program}
    (legible : ∀ twin ∈ analysis.annotated, twin.legibleText = .ok twin.text)
    (tells : (analysis.known context).Tells program) :
    ∃ text, analysis.account context program = .ok text := by
  obtain ⟨shown, hshown⟩ := mapM_eq_ok fun twin htwin => ⟨_, legible twin htwin⟩
  obtain ⟨texts, htexts⟩ := Knowledge.annotatedTexts_eq_ok fun clause hclause =>
    tells.annotatedText_eq_ok clause (Node.mem_nodesOf.mpr ⟨clause, hclause, clause.mem_nodes_self⟩)
  simp only [account, Knowledge.annotatedProgram, hshown, htexts, Except.map, bind, Except.bind]
  exact ⟨_, rfl⟩

/-! ### What has been solved -/

section Solved

variable {context : Context} {program : Program} {resolutions : Resolutions}

theorem nodeConstraints_label {negated : List NodeId} {node : Node} {constraints : List Constraint}
    (h : nodeConstraints context program resolutions negated node = .ok constraints) :
    node.label.isDeclaration = false := by
  unfold nodeConstraints at h
  cases hlabel : node.label with
  | field | relationDecl | functorDecl | subsetDecl | aliasDecl | unionDecl | recordDecl | branchDecl
  | adtDecl =>
      rw [hlabel] at h
      cases h
  | _ => rfl

/-- A clause that has been solved has no declarations in it. -/
theorem solveClause_labels {clause : Node} {one : SolvedClause}
    (h : solveClause context program resolutions clause = .ok one) :
    ∀ node ∈ clause.nodes, node.label.isDeclaration = false := by
  intro node hnode
  unfold solveClause at h
  split at h
  · rename_i problem hproblem
    obtain ⟨visit, hvisit, rfl⟩ := Node.exists_visit hnode
    obtain ⟨constraints, hconstraints, -⟩ := (visitsProblem_poses hproblem).2 visit hvisit
    exact nodeConstraints_label hconstraints
  · cases h

/-- The clauses of the typings were annotated: each has a copy that can be shown, and
they are themselves what they were. -/
structure Annotations.Complete (typings : List ClauseTyping) (annotations : Annotations) :
    Prop where
  faultless : annotations.fault = none
  untouched : typings.map ClauseTyping.clause <+: annotations.forest.trees
  each : annotations.twins.length = typings.length
  legible : ∀ twin ∈ annotations.twins, twin.legibleText = .ok twin.text

/-- Clauses can be annotated as far as they can be solved. -/
theorem annotateAll_complete (context : Context) (program : Program) (resolutions : Resolutions)
    {typings : List ClauseTyping}
    (htypings : typings = (solveClauses context program resolutions program.clauses).1.map
      SolvedClause.typing) :
    (ClauseTyping.annotateAll true typings).Complete typings := by
  obtain ⟨-, solves⟩ := solveClauses_first context program resolutions program.clauses
  have sized : ∀ typing ∈ typings, typing.Sized := by
    rw [htypings]
    exact List.forall_mem_map.mpr fun one _ => one.typing_sized
  have labels : ∀ typing ∈ typings, ∀ node ∈ typing.clause.nodes,
      node.label.isDeclaration = false := by
    rw [htypings]
    exact List.forall_mem_map.mpr fun one hone => solveClause_labels (solves one hone)
  obtain ⟨faultless, untouched, each, twins⟩ := Forest.annotateAll_complete
    (P := fun label => label.isDeclaration = false) (fun _ => rfl)
    (ClauseTyping.clauses_fresh typings) sized labels
  exact ⟨faultless, untouched, each, fun twin htwin => Node.legibleText_eq_ok (twins twin htwin)⟩

end Solved

/-! ### The end of a run -/

namespace Knowledge

variable {known : Knowledge} {node : Node}

/-- Every aggregate gets an operator. -/
theorem exists_of_aggregateChoice {op : AggregateOp} {value : Option AggregateOp}
    (h : known.aggregateChoice node op = .ok value) : ∃ variant, value = some variant := by
  unfold aggregateChoice at h
  split at h
  · split at h
    · cases h
    · obtain ⟨kinds, -, h⟩ := bind_eq_ok.mp h
      obtain ⟨variant, -, h⟩ := bind_eq_ok.mp h
      exact ⟨variant, (Except.ok.inj h).symm⟩
  · exact ⟨op, fixedChoice_eq_ok h⟩

/-- Every comparison gets an operator. -/
theorem exists_of_comparisonChoice {op : ComparisonOp} {value : Option ComparisonOp}
    (h : known.comparisonChoice node op = .ok value) : ∃ variant, value = some variant := by
  unfold comparisonChoice at h
  split at h
  · split at h
    · obtain ⟨left, -, h⟩ := bind_eq_ok.mp h
      obtain ⟨right, -, h⟩ := bind_eq_ok.mp h
      obtain ⟨variant, -, h⟩ := bind_eq_ok.mp h
      exact ⟨variant, (Except.ok.inj h).symm⟩
    · cases h
  · exact ⟨op, fixedChoice_eq_ok h⟩

end Knowledge

/-- Where nothing changes any more, everything is known that an account asks for. -/
theorem Program.IsSettled.tells {context : Context} {program : Program} {resolutions : Resolutions}
    (settled : program.IsSettled context resolutions) :
    (program.knowledge context resolutions).Tells program := by
  obtain ⟨solved, hsolved, -⟩ := Program.round?_eq_some.mp settled
  have solves : ∀ clause ∈ program.clauses, ∃ one ∈ solved, one.clause = clause ∧
      solveClause context program resolutions clause = .ok one := by
    intro clause hclause
    rw [← solveClauses_clauses hsolved] at hclause
    obtain ⟨one, hone, rfl⟩ := List.mem_map.mp hclause
    have solves := (solveClauses_first context program resolutions program.clauses).2
    rw [hsolved] at solves
    exact ⟨one, hone, rfl, solves one hone⟩
  refine ⟨?_, ?_, ?_, ?_⟩
  · intro node hnode isArgument
    obtain ⟨clause, hclause, hnode⟩ := Node.mem_nodesOf.mp hnode
    obtain ⟨one, hone, rfl, -⟩ := solves clause hclause
    obtain ⟨other, -, argument, -, -, hget⟩ :=
      exists_get?_tabulate hone (List.mem_filter.mpr ⟨hnode, isArgument⟩)
    exact ⟨_, by rw [knowledge, hsolved]; exact hget⟩
  · intro node hnode
    obtain ⟨clause, hclause, hnode⟩ := Node.mem_nodesOf.mp hnode
    obtain ⟨one, -, -, hone⟩ := solves clause hclause
    exact solveClause_labels hone node hnode
  · intro node hnode op targeted hlabel
    have choice := settled.isStable .aggregates hnode
    simp only [Knowledge.IsStable, Knowledge.choice, hlabel] at choice
    exact Knowledge.exists_of_aggregateChoice choice
  · intro node hnode op hlabel
    have choice := settled.isStable .comparisons hnode
    simp only [Knowledge.IsStable, Knowledge.choice, hlabel] at choice
    exact Knowledge.exists_of_comparisonChoice choice

/-- At the end of a run the account can be given, whether the run kept one or not. -/
theorem Analysis.IsFinal.account_eq_ok {context : Context} {program : Program} {account : Bool}
    {analysis : Analysis} (final : analysis.IsFinal context program account) :
    ∃ text, analysis.account context program = .ok text := by
  obtain ⟨solved, hsolved, recorded⟩ := final.recorded
  have tells := final.settled.tells
  rw [← final.known_eq] at tells
  refine Analysis.account_eq_ok ?_ tells
  have annotated : analysis.annotated =
      (ClauseTyping.annotateAll account (solved.map SolvedClause.typing)).twins :=
    (congrArg Analysis.annotated recorded).symm
  rw [annotated]
  cases account with
  | false => simp [ClauseTyping.annotateAll]
  | true =>
      refine (annotateAll_complete context program analysis.resolutions ?_).legible
      rw [hsolved]

theorem SessionM.canRecount {session : Session} (returns : (SessionM.begun session).fault = none) :
    SessionM.CanRecount session := by
  obtain ⟨count, -, ends⟩ := Analysis.run_returns returns
  exact fun _ => ends.final.account_eq_ok

end DatalogTyping

import DatalogTyping.Proofs.Runs

/-!
# What belongs to a clause

The tables of an analysis are about all nodes of a program, but nothing that is done
for a node looks beyond its clause. The constraints of a clause depend on the entries
of its own nodes (`solveClause_local`), and so does the entry that a pass makes at a
node (`Knowledge.AgreeOn.choice_eq`). So a pass over the nodes of a clause does the
same whatever the entries of other nodes are (`Pass.run_local`).

For a node that several clauses have, the table holds what the last of them was solved
with (`get?_tabulate_last`). Where clauses have no nodes in common, the set of types of an
argument is therefore the one that its own clause was solved with (`get?_tabulate_solved`).
-/

namespace DatalogTyping

/-! ### Nodes of a clause -/

namespace Node

/-- The identities of the nodes of a tree. -/
def ids (root : Node) : List NodeId := root.nodes.map Node.id

/-- Two trees have no node in common. -/
def Apart (root other : Node) : Prop := ∀ id ∈ root.ids, id ∉ other.ids

variable {root node child : Node}

theorem id_mem_ids (h : node ∈ root.nodes) : node.id ∈ root.ids := List.mem_map_of_mem h

theorem target?_mem (h : node.target? = some child) : child ∈ node.children := by
  unfold target? at h
  split at h
  · exact List.mem_of_head? h
  · cases h

end Node

/-- No two clauses have a node in common. -/
def Program.ClausesApart (program : Program) : Prop := program.clauses.Pairwise Node.Apart

/-! ### Agreement on some nodes -/

/-- The tables have the same entries for some nodes. -/
def Resolutions.AgreeOn (ids : List NodeId) (resolutions others : Resolutions) : Prop :=
  ∀ (pass : Pass), ∀ id ∈ ids, (resolutions.table pass).get? id = (others.table pass).get? id

theorem Resolutions.AgreeOn.trans {ids : List NodeId} {first second third : Resolutions}
    (h : first.AgreeOn ids second) (h' : second.AgreeOn ids third) : first.AgreeOn ids third :=
  fun pass id hid => (h pass id hid).trans (h' pass id hid)

/-- The same is known about some nodes. -/
structure Knowledge.AgreeOn (ids : List NodeId) (known other : Knowledge) : Prop where
  context : known.context = other.context
  types : ∀ id ∈ ids, known.types.get? id = other.types.get? id
  resolutions : known.resolutions.AgreeOn ids other.resolutions

/-! ### Solved clauses -/

section Solved

variable {context : Context} {program : Program} {resolutions : Resolutions}

/-- All clauses are solved exactly if each is. -/
theorem solveClauses_eq_iff {clauses : List Node} {solved : List SolvedClause} :
    solveClauses context program resolutions clauses = (solved, none) ↔
      List.Forall₂ (fun clause one => solveClause context program resolutions clause = .ok one)
        clauses solved := by
  induction clauses generalizing solved with
  | nil => simp [solveClauses, eq_comm]
  | cons clause rest ih =>
      rw [solveClauses, List.forall₂_cons_left_iff]
      cases solveClause context program resolutions clause with
      | error fault => simp
      | ok first =>
          simp only [Except.ok.injEq, ← ih, Prod.mk.injEq]
          constructor
          · rintro ⟨rfl, hfault⟩
            exact ⟨first, _, rfl, Prod.ext rfl hfault, rfl⟩
          · rintro ⟨_, others, rfl, hothers, rfl⟩
            rw [hothers]
            exact ⟨rfl, rfl⟩

theorem exists_solved_iff {clauses : List Node} :
    (∃ solved, solveClauses context program resolutions clauses = (solved, none)) ↔
      ∀ clause ∈ clauses, ∃ one, solveClause context program resolutions clause = .ok one := by
  simp only [solveClauses_eq_iff]
  induction clauses with
  | nil => simp
  | cons clause rest ih =>
      rw [List.forall_mem_cons, ← ih]
      constructor
      · rintro ⟨_, _ | ⟨hfirst, hrest⟩⟩
        exact ⟨⟨_, hfirst⟩, _, hrest⟩
      · rintro ⟨⟨first, hfirst⟩, others, hrest⟩
        exact ⟨first :: others, .cons hfirst hrest⟩

theorem solveClause_clause {clause : Node} {solved : SolvedClause}
    (h : solveClause context program resolutions clause = .ok solved) :
    solved.clause = clause := by
  unfold solveClause at h
  split at h
  · split at h
    · obtain rfl := Except.ok.inj h
      rfl
    · cases h
  · cases h

theorem solveClauses_clauses {clauses : List Node} {solved : List SolvedClause}
    (h : solveClauses context program resolutions clauses = (solved, none)) :
    solved.map SolvedClause.clause = clauses := by
  have solves := solveClauses_eq_iff.mp h
  clear h
  induction solves with
  | nil => rfl
  | cons hfirst _ ih => rw [List.map_cons, solveClause_clause hfirst, ih]

/-- What is solved before one cannot be are the first clauses. -/
theorem solveClauses_first (context : Context) (program : Program) (resolutions : Resolutions)
    (clauses : List Node) :
    (solveClauses context program resolutions clauses).1.map SolvedClause.clause <+: clauses ∧
      ∀ one ∈ (solveClauses context program resolutions clauses).1,
        solveClause context program resolutions one.clause = .ok one := by
  induction clauses with
  | nil => exact ⟨List.prefix_rfl, by simp [solveClauses]⟩
  | cons clause rest ih =>
      rw [solveClauses]
      cases hfirst : solveClause context program resolutions clause with
      | error fault => exact ⟨List.nil_prefix, by simp⟩
      | ok first =>
          obtain rfl := solveClause_clause hfirst
          exact ⟨List.cons_prefix_cons.mpr ⟨rfl, ih.1⟩, List.forall_mem_cons.mpr ⟨hfirst, ih.2⟩⟩

/-- The constraints of a node depend on what the node itself is resolved to. -/
theorem nodeConstraints_local {other : Program} {others : Resolutions} {negated : List NodeId}
    {node : Node} (relations : program.relations = other.relations)
    (functors : resolutions.functors.get? node.id = others.functors.get? node.id)
    (numerals : resolutions.numerals.get? node.id = others.numerals.get? node.id) :
    nodeConstraints context program resolutions negated node =
      nodeConstraints context other others negated node := by
  simp only [nodeConstraints, atomConstraints, Program.relation?, functorConstraints,
    numeralConstraint, relations, functors, numerals]

/-- How a clause is solved depends on what its own nodes are resolved to. -/
theorem solveClause_local {other : Program} {others : Resolutions} {clause : Node}
    (relations : program.relations = other.relations)
    (agree : resolutions.AgreeOn clause.ids others) :
    solveClause context program resolutions clause = solveClause context other others clause := by
  refine solveClause_congr fun node hnode negated => ?_
  have hid := Node.id_mem_ids hnode
  exact nodeConstraints_local relations (agree .functors node.id hid) (agree .numerals node.id hid)

end Solved

/-! ### Tables of types -/

/-- What is entered later for an identity replaces what was entered before. -/
theorem get?_tabulate_append (earlier later : List ClauseTyping) (id : NodeId) :
    (tabulate (earlier ++ later)).get? id =
      ((tabulate later).get? id).or ((tabulate earlier).get? id) := by
  rw [get?_tabulate, get?_tabulate, get?_tabulate, List.flatMap_append, List.filter_append,
    List.getLast?_append, Option.map_or]

/-- The table has no entry for what is in none of the clauses. -/
theorem get?_tabulate_eq_none {solved : List SolvedClause} {id : NodeId}
    (h : ∀ one ∈ solved, id ∉ one.clause.ids) :
    (tabulate (solved.map SolvedClause.typing)).get? id = none := by
  refine Option.eq_none_iff_forall_ne_some.mpr fun types hget => ?_
  obtain ⟨one, hone, argument, hargument, rfl, -⟩ := exists_of_get?_tabulate hget
  exact h one hone (Node.id_mem_ids (List.mem_filter.mp hargument).1)

/-- What a clause says about an identity is not replaced by later clauses that lack it. -/
theorem get?_tabulate_last {before after : List SolvedClause} {one : SolvedClause} {id : NodeId}
    (last : ∀ later ∈ after, id ∉ later.clause.ids) :
    (tabulate ((before ++ one :: after).map SolvedClause.typing)).get? id =
      ((tabulate [one.typing]).get? id).or
        ((tabulate (before.map SolvedClause.typing)).get? id) := by
  rw [List.append_cons, List.map_append, List.map_append, get?_tabulate_append,
    get?_tabulate_eq_none last, Option.none_or, get?_tabulate_append, List.map_singleton]

/-- Where clauses have no nodes in common, the table has for the nodes of a clause what
that clause alone says about them. -/
theorem get?_tabulate_solved {solved : List SolvedClause}
    (apart : (solved.map SolvedClause.clause).Pairwise Node.Apart) {one : SolvedClause}
    (hone : one ∈ solved) {id : NodeId} (hid : id ∈ one.clause.ids) :
    (tabulate (solved.map SolvedClause.typing)).get? id = (tabulate [one.typing]).get? id := by
  obtain ⟨before, after, rfl⟩ := List.append_of_mem hone
  rw [List.map_append, List.map_cons, List.pairwise_append, List.pairwise_cons] at apart
  obtain ⟨-, ⟨fromLater, -⟩, fromEarlier⟩ := apart
  have earlier : ∀ other ∈ before, id ∉ other.clause.ids := fun other hother h =>
    fromEarlier _ (List.mem_map_of_mem hother) _ List.mem_cons_self id h hid
  have later : ∀ other ∈ after, id ∉ other.clause.ids := fun other hother =>
    fromLater _ (List.mem_map_of_mem hother) id hid
  rw [get?_tabulate_last later, get?_tabulate_eq_none earlier, Option.or_none]

/-! ### Choices -/

namespace Knowledge.AgreeOn

variable {ids : List NodeId} {known other : Knowledge} {node : Node} {pass : Pass}

theorem symm (agree : known.AgreeOn ids other) : other.AgreeOn ids known :=
  ⟨agree.context.symm, fun id hid => (agree.types id hid).symm,
    fun pass id hid => (agree.resolutions pass id hid).symm⟩

theorem trans {third : Knowledge} (agree : known.AgreeOn ids other)
    (agree' : other.AgreeOn ids third) : known.AgreeOn ids third :=
  ⟨agree.context.trans agree'.context,
    fun id hid => (agree.types id hid).trans (agree'.types id hid),
    agree.resolutions.trans agree'.resolutions⟩

theorem with_resolutions (agree : known.AgreeOn ids other) {resolutions others : Resolutions}
    (h : resolutions.AgreeOn ids others) :
    AgreeOn ids { known with resolutions } { other with resolutions := others } :=
  ⟨agree.context, agree.types, h⟩

theorem typesOf_eq (agree : known.AgreeOn ids other) (hnode : node.id ∈ ids) :
    known.typesOf node = other.typesOf node := by
  simp only [typesOf, agree.types node.id hnode]

theorem isSettled_eq (agree : known.AgreeOn ids other) (hnode : node.id ∈ ids) :
    known.isSettled node = other.isSettled node := by
  have functors : known.resolutions.functors.get? node.id =
      other.resolutions.functors.get? node.id := agree.resolutions .functors node.id hnode
  have numerals : known.resolutions.numerals.get? node.id =
      other.resolutions.numerals.get? node.id := agree.resolutions .numerals node.id hnode
  have aggregates : known.resolutions.aggregates.get? node.id =
      other.resolutions.aggregates.get? node.id := agree.resolutions .aggregates node.id hnode
  simp only [isSettled, Table.contains, functors, numerals, aggregates, agree.context]

theorem kindsOf_eq (agree : known.AgreeOn ids other) (hnode : node.id ∈ ids) :
    known.kindsOf node = other.kindsOf node := by
  have functors : known.resolutions.functors.get? node.id =
      other.resolutions.functors.get? node.id := agree.resolutions .functors node.id hnode
  have returnKind : known.returnKind node = other.returnKind node := by
    simp only [Knowledge.returnKind, overloadOf, returnType, signatureOf,
      agree.isSettled_eq hnode, agree.context, functors]
  have kindsIn : known.kindsIn = other.kindsIn := by
    funext types
    simp only [Knowledge.kindsIn, agree.context]
  simp only [kindsOf, returnKind, kindsIn, agree.isSettled_eq hnode, agree.typesOf_eq hnode]

theorem kindsPresent_eq (agree : known.AgreeOn ids other) (hnode : node.id ∈ ids) :
    known.kindsPresent node = other.kindsPresent node := by
  simp only [kindsPresent, agree.typesOf_eq hnode, agree.kindsOf_eq hnode]

/-- The entry that a pass wants a node to have depends on the node and its children. -/
theorem choice_eq (agree : known.AgreeOn ids other) (hnode : node.id ∈ ids)
    (hchildren : ∀ child ∈ node.children, child.id ∈ ids) (pass : Pass) :
    known.choice node pass = other.choice node pass := by
  have entry := agree.resolutions pass node.id hnode
  cases pass with
  | functors =>
      have functors : known.resolutions.functors.get? node.id =
          other.resolutions.functors.get? node.id := entry
      have kinds : node.children.mapM known.kindsOf = node.children.mapM other.kindsOf :=
        mapM_congr_mem fun child hchild => agree.kindsOf_eq (hchildren child hchild)
      simp only [choice, validOverloads, functors, kinds, agree.kindsOf_eq hnode]
  | numerals =>
      have numerals : known.resolutions.numerals.get? node.id =
          other.resolutions.numerals.get? node.id := entry
      simp only [choice, numerals, agree.kindsOf_eq hnode]
  | aggregates =>
      have aggregates : known.resolutions.aggregates.get? node.id =
          other.resolutions.aggregates.get? node.id := entry
      cases htarget : node.target? with
      | none => simp only [choice, aggregateChoice, fixedChoice, aggregates, htarget]
      | some target =>
          have hmem : target.id ∈ ids := hchildren target (Node.target?_mem htarget)
          simp only [choice, aggregateChoice, fixedChoice, aggregates, htarget,
            agree.kindsPresent_eq hmem]
  | comparisons =>
      have comparisons : known.resolutions.comparisons.get? node.id =
          other.resolutions.comparisons.get? node.id := entry
      rcases hsides : node.children with _ | ⟨left, _ | ⟨right, _ | ⟨third, rest⟩⟩⟩
      · simp only [choice, comparisonChoice, fixedChoice, comparisons, hsides]
      · simp only [choice, comparisonChoice, fixedChoice, comparisons, hsides]
      · simp only [hsides, List.forall_mem_cons] at hchildren
        simp only [choice, comparisonChoice, fixedChoice, comparisons, hsides,
          agree.kindsPresent_eq hchildren.1, agree.kindsPresent_eq hchildren.2.1]
      · simp only [choice, comparisonChoice, fixedChoice, comparisons, hsides]

end Knowledge.AgreeOn

/-! ### Passes -/

namespace Pass

variable {ids : List NodeId} {known other : Knowledge} {node : Node} {nodes : List Node}
  {pass : Pass} {resolutions : Resolutions} {changed : Bool}

/-- A step at a node of which the same is known does the same there. -/
theorem step_local (agree : known.AgreeOn ids other) (hnode : node.id ∈ ids)
    (hchildren : ∀ child ∈ node.children, child.id ∈ ids)
    (h : pass.step known node = .ok (resolutions, changed)) :
    ∃ others, pass.step other node = .ok (others, changed) ∧ resolutions.AgreeOn ids others := by
  obtain ⟨value, hchoice, untouched, entries, hchanged, -⟩ := step_eq_ok h
  rw [agree.choice_eq hnode hchildren] at hchoice
  obtain ⟨others, changed', h'⟩ :
      ∃ others changed', pass.step other node = .ok (others, changed') :=
    ⟨_, _, by rw [step_eq, hchoice]; rfl⟩
  obtain ⟨value', hchoice', untouched', entries', hchanged', -⟩ := step_eq_ok h'
  obtain rfl : value = value' := Except.ok.inj (hchoice.symm.trans hchoice')
  obtain rfl : changed = changed' := by
    rw [hchanged, hchanged', agree.resolutions pass node.id hnode]
  refine ⟨others, h', fun kind id hid => ?_⟩
  by_cases hkind : kind = pass
  · subst hkind
    rw [entries, entries', agree.resolutions kind id hid]
  · rw [untouched kind hkind, untouched' kind hkind]
    exact agree.resolutions kind id hid

/-- A pass over nodes of which the same is known, and of their children, does the same
to their entries. -/
theorem run_local (agree : known.AgreeOn ids other)
    (closed : ∀ node ∈ nodes, node.id ∈ ids ∧ ∀ child ∈ node.children, child.id ∈ ids)
    (h : pass.run known nodes = (resolutions, .ok changed)) :
    ∃ others, pass.run other nodes = (others, .ok changed) ∧ resolutions.AgreeOn ids others := by
  induction nodes generalizing known other changed with
  | nil =>
      cases h
      exact ⟨other.resolutions, rfl, agree.resolutions⟩
  | cons node rest ih =>
      obtain ⟨⟨hnode, hchildren⟩, hrest⟩ := List.forall_mem_cons.mp closed
      obtain ⟨between, here, there, hstep, hrun, rfl⟩ := run_cons_eq_ok h
      obtain ⟨between', hstep', agree'⟩ := step_local agree hnode hchildren hstep
      obtain ⟨others, hothers, agree''⟩ := ih (agree.with_resolutions agree') hrest hrun
      exact ⟨others, Knowledge.refineEach_cons_eq_ok.mpr
        ⟨between', here, there, attempt_eq_ok.mpr hstep', hothers, rfl⟩, agree''⟩

end Pass

end DatalogTyping

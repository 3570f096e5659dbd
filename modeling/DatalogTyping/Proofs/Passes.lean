import DatalogTyping.Inference.Refine

/-!
# What the passes do

The four passes differ in the nodes they are about and in what they settle on, and
agree in everything else: a step makes its choice the entry of the node
(`step_eq`). A pass takes its nodes one after another, and a round its passes, and
both stop at the first that fails (`Knowledge.refineEach_cons_cases`). A node at which a pass would change nothing is stable for it. A pass
that reports no change found all nodes stable and left the tables as they were
(`run_unchanged`); over nodes that are all different, one that reports a change
leaves some node with another entry (`run_changed`).

Functors and numerals come first, and what they are resolved to decides the
choices for aggregates and comparisons. So if functors and numerals keep their
entries, all nodes are stable afterwards (`runAll_stable`).
-/

namespace DatalogTyping

/-! ### Tables -/

namespace Table

variable {α : Type} {table : Table α} {id other : NodeId}

theorem get?_erase :
    (table.erase id).get? other = if other = id then none else table.get? other := by
  obtain ⟨entries⟩ := table
  simp only [get?, erase]
  induction entries with
  | nil => simp
  | cons entry rest ih =>
      by_cases hkey : entry.1 = id
      · rw [List.filter_cons_of_neg (by simpa using hkey), ih, List.lookup_cons, hkey]
        by_cases hother : other = id
        · simp [hother]
        · simp [hother, beq_false_of_ne hother]
      · rw [List.filter_cons_of_pos (by simpa using hkey), List.lookup_cons, List.lookup_cons, ih]
        by_cases hother : other = entry.1
        · simp [hother, hkey]
        · simp [beq_false_of_ne hother]

theorem get?_insert {value : α} :
    (table.insert id value).get? other = if other = id then some value else table.get? other := by
  have rest : (table.insert id value).get? other =
      if other = id then some value else (table.erase id).get? other := by
    simp only [insert, get?, List.lookup_cons]
    by_cases h : other = id
    · simp [h]
    · simp [h, beq_false_of_ne h]
  rw [rest, get?_erase]
  split <;> rfl

variable [DecidableEq α] {value : Option α}

@[simp] theorem get?_settle :
    (table.settle id value).1.get? other = if other = id then value else table.get? other := by
  unfold settle
  by_cases same : table.get? id = value
  · rw [if_pos same]
    split
    · rename_i h
      rw [h, same]
    · rfl
  · rw [if_neg same]
    cases value with
    | none => exact get?_erase
    | some value => exact get?_insert

theorem settle_eq_self (h : table.get? id = value) : table.settle id value = (table, false) :=
  if_pos h

theorem settle_snd : (table.settle id value).2 = decide (table.get? id ≠ value) := by
  unfold settle
  by_cases same : table.get? id = value
  · simp [same]
  · cases value <;> simp [same]

end Table

/-! ### The four tables as one -/

namespace Pass

/-- What a pass settles on for a node. -/
def Value : Pass → Type
  | functors => Overload
  | numerals => NumericKind
  | aggregates => AggregateOp
  | comparisons => ComparisonOp

instance instDecidableEqValue : (pass : Pass) → DecidableEq pass.Value
  | functors => inferInstanceAs (DecidableEq Overload)
  | numerals => inferInstanceAs (DecidableEq NumericKind)
  | aggregates => inferInstanceAs (DecidableEq AggregateOp)
  | comparisons => inferInstanceAs (DecidableEq ComparisonOp)

/-- Is a pass about the node? -/
def concerns (pass : Pass) (node : Node) : Bool :=
  match pass, node.label with
  | functors, .functor _ | numerals, .numeral _ _ | aggregates, .aggregate _ _
  | comparisons, .comparison _ => true
  | _, _ => false

/-- Does the solver look at what the pass settles on? -/
def feedsBack : Pass → Bool
  | functors | numerals => true
  | aggregates | comparisons => false

end Pass

namespace Resolutions

variable {resolutions : Resolutions} {pass other : Pass}

/-- The table that a pass is about. -/
def table (resolutions : Resolutions) : (pass : Pass) → Table pass.Value
  | .functors => resolutions.functors
  | .numerals => resolutions.numerals
  | .aggregates => resolutions.aggregates
  | .comparisons => resolutions.comparisons

/-- The resolutions with another table for a pass. -/
def replace (resolutions : Resolutions) : (pass : Pass) → Table pass.Value → Resolutions
  | .functors, functors => { resolutions with functors }
  | .numerals, numerals => { resolutions with numerals }
  | .aggregates, aggregates => { resolutions with aggregates }
  | .comparisons, comparisons => { resolutions with comparisons }

@[simp] theorem table_replace_same {table : Table pass.Value} :
    (resolutions.replace pass table).table pass = table := by
  cases pass <;> rfl

theorem table_replace_of_ne {table : Table pass.Value} (h : other ≠ pass) :
    (resolutions.replace pass table).table other = resolutions.table other := by
  cases pass <;> cases other <;> first | rfl | exact absurd rfl h

@[simp] theorem replace_table :
    resolutions.replace pass (resolutions.table pass) = resolutions := by
  cases pass <;> rfl

end Resolutions

/-! ### Choices -/

/-- The choice for an operator that has no variants. -/
def fixedChoice {α : Type} [DecidableEq α] (table : Table α) (node : Node) (op : α) :
    Except Fault (Option α) :=
  match table.get? node.id with
  | some recorded =>
    if recorded = op then .ok (some op) else .error (.fixedOperatorChanged node.text)
  | none => .ok (some op)

theorem settleFixed_eq {α : Type} [DecidableEq α] (table : Table α) (node : Node) (op : α) :
    settleFixed table node op = (fixedChoice table node op).map (table.settle node.id) := by
  unfold settleFixed fixedChoice
  cases hrecorded : table.get? node.id with
  | none => simp [Except.map, Table.settle, hrecorded]
  | some recorded =>
      by_cases same : recorded = op
      · simp [Except.map, same, Table.settle_eq_self (hrecorded.trans (congrArg some same))]
      · simp [Except.map, same]

theorem fixedChoice_eq_ok {α : Type} [DecidableEq α] {table : Table α} {node : Node} {op : α}
    {value : Option α} (h : fixedChoice table node op = .ok value) : value = some op := by
  unfold fixedChoice at h
  split at h
  · split at h
    · exact (Except.ok.inj h).symm
    · cases h
  · exact (Except.ok.inj h).symm

theorem fixedChoice_again {α : Type} [DecidableEq α] {table other : Table α} {node : Node} {op : α}
    {value : Option α} (h : fixedChoice table node op = .ok value)
    (entry : other.get? node.id = value) : fixedChoice other node op = .ok value := by
  obtain rfl := fixedChoice_eq_ok h
  simp [fixedChoice, entry]

namespace Knowledge

/-- The choice for an aggregate. -/
def aggregateChoice (known : Knowledge) (node : Node) (op : AggregateOp) :
    Except Fault (Option AggregateOp) :=
  if op.isOverloaded then
    match node.target? with
    | none => .error (.missingTarget node.text)
    | some target => do
      let kinds ← known.kindsPresent target
      let variant ← op.convert (firstOr [.float, .unsigned] kinds.contains)
      return some variant
  else fixedChoice known.resolutions.aggregates node op

/-- The choice for a comparison. -/
def comparisonChoice (known : Knowledge) (node : Node) (op : ComparisonOp) :
    Except Fault (Option ComparisonOp) :=
  if op.isOverloaded then
    match node.children with
    | [left, right] => do
      let left ← known.kindsPresent left
      let right ← known.kindsPresent right
      let variant ← op.convert (firstOr [.float, .unsigned, .symbol] fun kind =>
        left.contains kind && right.contains kind)
      return some variant
    | _ => .error .lacksProperty
  else fixedChoice known.resolutions.comparisons node op

/-- The entry that a pass wants a node to have: a node that it is not about keeps
the one it has. -/
def choice (known : Knowledge) (node : Node) : (pass : Pass) → Except Fault (Option pass.Value)
  | .functors => match node.label with
    | .functor _ => (known.validOverloads node).map List.head?
    | _ => .ok (known.resolutions.functors.get? node.id)
  | .numerals => match node.label with
    | .numeral _ (some kind) => .ok (some kind)
    | .numeral _ none => (known.kindsOf node).map numeralChoice
    | _ => .ok (known.resolutions.numerals.get? node.id)
  | .aggregates => match node.label with
    | .aggregate op _ => known.aggregateChoice node op
    | _ => .ok (known.resolutions.aggregates.get? node.id)
  | .comparisons => match node.label with
    | .comparison op => known.comparisonChoice node op
    | _ => .ok (known.resolutions.comparisons.get? node.id)

theorem choice_of_not_concerns {known : Knowledge} {node : Node} {pass : Pass}
    (h : pass.concerns node = false) :
    known.choice node pass = .ok ((known.resolutions.table pass).get? node.id) := by
  obtain ⟨id, span, label, children⟩ := node
  cases pass <;> cases label <;> first | rfl | cases h

/-- The resolutions once a node has the entry that a pass wants it to have; whether
that is a change. -/
def enter (known : Knowledge) (pass : Pass) (node : Node) (value : Option pass.Value) :
    Resolutions × Bool :=
  let outcome := (known.resolutions.table pass).settle node.id value
  (known.resolutions.replace pass outcome.1, outcome.2)

theorem refineAggregate_eq (known : Knowledge) (node : Node) (op : AggregateOp) :
    known.refineAggregate node op =
      (known.aggregateChoice node op).map (known.enter .aggregates node) := by
  unfold refineAggregate aggregateChoice
  by_cases overloaded : op.isOverloaded
  · simp only [overloaded, ↓reduceIte]
    rcases node.target? with _ | target
    · rfl
    · dsimp only
      rcases known.kindsPresent target with _ | kinds
      · rfl
      · dsimp only [bind, Except.bind]
        rcases op.convert (firstOr [.float, .unsigned] kinds.contains) with _ | variant <;> rfl
  · simp only [overloaded, Bool.false_eq_true, ↓reduceIte, settleFixed_eq]
    cases fixedChoice known.resolutions.aggregates node op <;> rfl

theorem refineComparison_eq (known : Knowledge) (node : Node) (op : ComparisonOp) :
    known.refineComparison node op =
      (known.comparisonChoice node op).map (known.enter .comparisons node) := by
  unfold refineComparison comparisonChoice
  by_cases overloaded : op.isOverloaded
  · simp only [overloaded, ↓reduceIte]
    rcases node.children with _ | ⟨left, _ | ⟨right, _ | ⟨third, others⟩⟩⟩
    · rfl
    · rfl
    · dsimp only
      rcases known.kindsPresent left with _ | leftKinds
      · rfl
      · dsimp only [bind, Except.bind]
        rcases known.kindsPresent right with _ | rightKinds
        · rfl
        · dsimp only [bind, Except.bind]
          rcases op.convert (firstOr [.float, .unsigned, .symbol] fun kind =>
            leftKinds.contains kind && rightKinds.contains kind) with _ | variant <;> rfl
    · rfl
  · simp only [overloaded, Bool.false_eq_true, ↓reduceIte, settleFixed_eq]
    cases fixedChoice known.resolutions.comparisons node op <;> rfl

/-- What is known of kinds depends on functors alone among the resolutions. -/
theorem kindsOf_congr {context : Context} {types : Table TypeSet} {resolutions other : Resolutions}
    (functors : resolutions.functors = other.functors) :
    kindsOf ⟨context, resolutions, types⟩ = kindsOf ⟨context, other, types⟩ := by
  obtain ⟨functors, numerals, aggregates, comparisons⟩ := resolutions
  obtain ⟨_, numerals', aggregates', comparisons'⟩ := other
  obtain rfl := functors
  funext node
  obtain ⟨id, span, label, children⟩ := node
  cases label <;> rfl

theorem kindsPresent_congr {context : Context} {types : Table TypeSet}
    {resolutions other : Resolutions} (functors : resolutions.functors = other.functors) :
    kindsPresent ⟨context, resolutions, types⟩ = kindsPresent ⟨context, other, types⟩ := by
  funext node
  simp only [kindsPresent, kindsOf_congr functors]
  rfl

/-- The choice for a node depends on functors and, apart from them, on the entry of
the node itself. -/
theorem choice_congr {context : Context} {types : Table TypeSet} {resolutions other : Resolutions}
    {node : Node} {pass : Pass} (functors : resolutions.functors = other.functors)
    (entry : (resolutions.table pass).get? node.id = (other.table pass).get? node.id) :
    choice ⟨context, resolutions, types⟩ node pass = choice ⟨context, other, types⟩ node pass := by
  cases pass with
  | functors =>
      have valid : validOverloads ⟨context, resolutions, types⟩ node =
          validOverloads ⟨context, other, types⟩ node := by
        simp only [validOverloads, kindsOf_congr functors, functors]
      simp only [choice, valid, functors]
  | numerals =>
      have entry : resolutions.numerals.get? node.id = other.numerals.get? node.id := entry
      simp only [choice, kindsOf_congr functors, entry]
  | aggregates =>
      have entry : resolutions.aggregates.get? node.id = other.aggregates.get? node.id := entry
      simp only [choice, aggregateChoice, fixedChoice, kindsPresent_congr functors, entry]
  | comparisons =>
      have entry : resolutions.comparisons.get? node.id = other.comparisons.get? node.id := entry
      simp only [choice, comparisonChoice, fixedChoice, kindsPresent_congr functors, entry]

/-- Apart from functors, the choice for a node does not change once it is made. -/
theorem choice_again {context : Context} {types : Table TypeSet} {resolutions other : Resolutions}
    {node : Node} {pass : Pass} {value : Option pass.Value} (hpass : pass ≠ .functors)
    (hchoice : choice ⟨context, resolutions, types⟩ node pass = .ok value)
    (functors : resolutions.functors = other.functors)
    (entry : (other.table pass).get? node.id = value) :
    choice ⟨context, other, types⟩ node pass = .ok value := by
  cases pass with
  | functors => exact absurd rfl hpass
  | numerals =>
      simp only [choice, kindsOf_congr functors] at hchoice ⊢
      split at hchoice
      · exact hchoice
      · exact hchoice
      · exact congrArg Except.ok entry
  | aggregates =>
      cases hlabel : node.label with
      | aggregate op targeted =>
          simp only [choice, hlabel, aggregateChoice, kindsPresent_congr functors] at hchoice ⊢
          by_cases overloaded : op.isOverloaded
          · simpa only [overloaded, ↓reduceIte] using hchoice
          · simp only [overloaded, Bool.false_eq_true, ↓reduceIte] at hchoice ⊢
            exact fixedChoice_again hchoice entry
      | _ =>
          simp only [choice, hlabel]
          exact congrArg Except.ok entry
  | comparisons =>
      cases hlabel : node.label with
      | comparison op =>
          simp only [choice, hlabel, comparisonChoice, kindsPresent_congr functors] at hchoice ⊢
          by_cases overloaded : op.isOverloaded
          · simpa only [overloaded, ↓reduceIte] using hchoice
          · simp only [overloaded, Bool.false_eq_true, ↓reduceIte] at hchoice ⊢
            exact fixedChoice_again hchoice entry
      | _ =>
          simp only [choice, hlabel]
          exact congrArg Except.ok entry

end Knowledge

/-- A step makes the choice of the pass the entry of the node. -/
theorem Pass.step_eq (pass : Pass) (known : Knowledge) (node : Node) :
    pass.step known node = (known.choice node pass).map (known.enter pass node) := by
  have kept : known.enter pass node ((known.resolutions.table pass).get? node.id) =
      (known.resolutions, false) := by
    simp [Knowledge.enter, Table.settle_eq_self rfl]
  cases pass with
  | functors =>
      cases hlabel : node.label with
      | functor symbol =>
          simp only [step, Knowledge.choice, hlabel]
          unfold Knowledge.refineFunctor
          cases known.validOverloads node <;> rfl
      | _ =>
          simp only [step, Knowledge.choice, hlabel]
          exact congrArg Except.ok kept.symm
  | numerals =>
      cases hlabel : node.label with
      | numeral text fixed =>
          simp only [step, Knowledge.choice, hlabel]
          unfold Knowledge.refineNumeral
          cases fixed with
          | some kind => rfl
          | none => cases known.kindsOf node <;> rfl
      | _ =>
          simp only [step, Knowledge.choice, hlabel]
          exact congrArg Except.ok kept.symm
  | aggregates =>
      cases hlabel : node.label with
      | aggregate op targeted =>
          simp only [step, Knowledge.choice, hlabel]
          exact known.refineAggregate_eq node op
      | _ =>
          simp only [step, Knowledge.choice, hlabel]
          exact congrArg Except.ok kept.symm
  | comparisons =>
      cases hlabel : node.label with
      | comparison op =>
          simp only [step, Knowledge.choice, hlabel]
          exact known.refineComparison_eq node op
      | _ =>
          simp only [step, Knowledge.choice, hlabel]
          exact congrArg Except.ok kept.symm

/-! ### One item after another -/

namespace Knowledge

variable {α : Type} {refine : Knowledge → α → Resolutions × Except Fault Bool} {known : Knowledge}
  {item : α} {items : List α} {resolutions : Resolutions}

/-- Either the first item fails, or the others go on from what it leaves behind. -/
theorem refineEach_cons_cases {outcome : Except Fault Bool}
    (h : known.refineEach refine (item :: items) = (resolutions, outcome)) :
    (∃ fault, refine known item = (resolutions, .error fault) ∧ outcome = .error fault) ∨
      ∃ between here last, refine known item = (between, .ok here) ∧
        refineEach refine { known with resolutions := between } items = (resolutions, last) ∧
        outcome = last.map (here || ·) := by
  rw [refineEach] at h
  split at h
  · rename_i fault hitem
    cases h
    exact .inl ⟨fault, hitem, rfl⟩
  · rename_i between here hitem
    split at h
    all_goals
      rename_i hrest
      cases h
      exact .inr ⟨between, here, _, hitem, hrest, rfl⟩

theorem refineEach_cons_eq_ok {changed : Bool} :
    known.refineEach refine (item :: items) = (resolutions, .ok changed) ↔
      ∃ between here there, refine known item = (between, .ok here) ∧
        refineEach refine { known with resolutions := between } items = (resolutions, .ok there) ∧
        changed = (here || there) := by
  constructor
  · intro h
    obtain ⟨fault, -, heq⟩ | ⟨between, here, fault | there, hitem, hrest, heq⟩ :=
      refineEach_cons_cases h
    · cases heq
    · cases heq
    · exact ⟨between, here, there, hitem, hrest, Except.ok.inj heq⟩
  · rintro ⟨between, here, there, hitem, hrest, rfl⟩
    simp only [refineEach, hitem, hrest]

/-- What fails does so at an item, with what is left of the resolutions in the end. -/
theorem refineEach_eq_error {fault : Fault}
    (h : known.refineEach refine items = (resolutions, .error fault)) :
    ∃ before, ∃ item ∈ items,
      refine { known with resolutions := before } item = (resolutions, .error fault) := by
  induction items generalizing known with
  | nil => cases h
  | cons item rest ih =>
      rcases refineEach_cons_cases h with
        ⟨other, hitem, heq⟩ | ⟨between, here, other | there, -, hrest, heq⟩
      · cases heq
        exact ⟨known.resolutions, item, List.mem_cons_self, hitem⟩
      · cases heq
        obtain ⟨before, other, hother, hfault⟩ := ih hrest
        exact ⟨before, other, List.mem_cons_of_mem _ hother, hfault⟩
      · cases heq

/-- What is preserved at every item is preserved at all of them, also if one fails. -/
theorem refineEach_preserves {motive : Resolutions → Prop} {outcome : Except Fault Bool}
    (preserved : ∀ {before after : Resolutions} {item outcome}, item ∈ items →
      refine { known with resolutions := before } item = (after, outcome) →
      motive before → motive after)
    (h : known.refineEach refine items = (resolutions, outcome))
    (start : motive known.resolutions) : motive resolutions := by
  induction items generalizing known outcome with
  | nil =>
      cases h
      exact start
  | cons item rest ih =>
      rcases refineEach_cons_cases h with ⟨fault, hitem, -⟩ | ⟨_, _, _, hitem, hrest, -⟩
      · exact preserved List.mem_cons_self hitem start
      · refine ih ?_ hrest (preserved List.mem_cons_self hitem start)
        exact fun hmem => preserved (List.mem_cons_of_mem _ hmem)

end Knowledge

/-! ### Stable nodes -/

/-- A pass would not change the entry of the node. -/
def Knowledge.IsStable (known : Knowledge) (pass : Pass) (node : Node) : Prop :=
  known.choice node pass = .ok ((known.resolutions.table pass).get? node.id)

theorem Knowledge.IsStable.transfer {known : Knowledge} {pass : Pass} {node : Node}
    {resolutions : Resolutions} (stable : known.IsStable pass node)
    (functors : known.resolutions.functors = resolutions.functors)
    (same : known.resolutions.table pass = resolutions.table pass) :
    IsStable { known with resolutions } pass node := by
  rw [IsStable, ← choice_congr functors (congrArg (Table.get? · node.id) same), ← same]
  exact stable

namespace Pass

variable {pass : Pass} {known : Knowledge} {node : Node} {nodes : List Node}
  {resolutions : Resolutions} {changed : Bool}

/-- All that a step can do. -/
theorem step_eq_ok (h : pass.step known node = .ok (resolutions, changed)) :
    ∃ value, known.choice node pass = .ok value ∧
      (∀ other ≠ pass, resolutions.table other = known.resolutions.table other) ∧
      (∀ id, (resolutions.table pass).get? id =
        if id = node.id then value else (known.resolutions.table pass).get? id) ∧
      changed = decide ((known.resolutions.table pass).get? node.id ≠ value) ∧
      (changed = false → resolutions = known.resolutions) := by
  rw [step_eq] at h
  cases hchoice : known.choice node pass with
  | error fault => simp [hchoice, Except.map] at h
  | ok value =>
      obtain ⟨rfl, rfl⟩ : (known.enter pass node value).1 = resolutions ∧
          (known.enter pass node value).2 = changed := by
        simpa [hchoice, Except.map, Prod.ext_iff] using h
      refine ⟨value, rfl, fun other hother => Resolutions.table_replace_of_ne hother, ?_,
        Table.settle_snd, fun unchanged => ?_⟩
      · intro id
        simp [Knowledge.enter]
      · have same : (known.resolutions.table pass).get? node.id = value := by
          simpa [Knowledge.enter, Table.settle_snd] using unchanged
        simp [Knowledge.enter, Table.settle_eq_self same]

theorem step_unchanged_iff :
    (∃ resolutions, pass.step known node = .ok (resolutions, false)) ↔
      known.IsStable pass node := by
  constructor
  · rintro ⟨resolutions, h⟩
    obtain ⟨value, hchoice, -, -, same, -⟩ := step_eq_ok h
    rw [Knowledge.IsStable, hchoice, Decidable.not_not.mp (of_decide_eq_false same.symm)]
  · intro stable
    refine ⟨known.resolutions, ?_⟩
    rw [step_eq, stable]
    simp [Except.map, Knowledge.enter, Table.settle_eq_self rfl]

theorem attempt_eq_ok :
    pass.attempt known node = (resolutions, .ok changed) ↔
      pass.step known node = .ok (resolutions, changed) := by
  unfold attempt
  rcases pass.step known node with fault | ⟨after, flag⟩ <;> simp

theorem attempt_eq_error {fault : Fault} :
    pass.attempt known node = (resolutions, .error fault) ↔
      pass.step known node = .error fault ∧ known.resolutions = resolutions := by
  unfold attempt
  cases pass.step known node <;> simp [and_comm]

/-! ### Runs of a pass -/

theorem run_cons_eq_ok (h : pass.run known (node :: nodes) = (resolutions, .ok changed)) :
    ∃ between here there, pass.step known node = .ok (between, here) ∧
      pass.run { known with resolutions := between } nodes = (resolutions, .ok there) ∧
      changed = (here || there) := by
  obtain ⟨between, here, there, hstep, hrest, flags⟩ := Knowledge.refineEach_cons_eq_ok.mp h
  exact ⟨between, here, there, attempt_eq_ok.mp hstep, hrest, flags⟩

/-- A pass changes no table but its own, and there no entries but those of the
nodes it goes over. -/
theorem run_frame (h : pass.run known nodes = (resolutions, .ok changed)) :
    (∀ other ≠ pass, resolutions.table other = known.resolutions.table other) ∧
      ∀ id ∉ nodes.map Node.id,
        (resolutions.table pass).get? id = (known.resolutions.table pass).get? id := by
  induction nodes generalizing known changed with
  | nil =>
      cases h
      exact ⟨fun _ _ => rfl, fun _ _ => rfl⟩
  | cons node rest ih =>
      obtain ⟨between, here, there, hstep, hrest, -⟩ := run_cons_eq_ok h
      obtain ⟨value, -, hothers, hentries, -, -⟩ := step_eq_ok hstep
      obtain ⟨others, entries⟩ := ih hrest
      refine ⟨fun other hother => (others other hother).trans (hothers other hother), ?_⟩
      intro id hid
      rw [List.map_cons, List.mem_cons, not_or] at hid
      rw [entries id hid.2]
      exact (hentries id).trans (if_neg hid.1)

theorem run_unchanged (h : pass.run known nodes = (resolutions, .ok false)) :
    resolutions = known.resolutions ∧ ∀ node ∈ nodes, known.IsStable pass node := by
  induction nodes with
  | nil =>
      cases h
      exact ⟨rfl, by simp⟩
  | cons node rest ih =>
      obtain ⟨between, here, there, hstep, hrest, flags⟩ := run_cons_eq_ok h
      obtain ⟨rfl, rfl⟩ : here = false ∧ there = false := by simpa using flags.symm
      obtain ⟨-, -, -, -, -, same⟩ := step_eq_ok hstep
      obtain rfl := same rfl
      obtain ⟨same, stable⟩ := ih hrest
      exact ⟨same, List.forall_mem_cons.mpr ⟨step_unchanged_iff.mp ⟨_, hstep⟩, stable⟩⟩

theorem run_of_stable (stable : ∀ node ∈ nodes, known.IsStable pass node) :
    pass.run known nodes = (known.resolutions, .ok false) := by
  induction nodes with
  | nil => rfl
  | cons node rest ih =>
      obtain ⟨here, there⟩ := List.forall_mem_cons.mp stable
      obtain ⟨resolutions, hstep⟩ := step_unchanged_iff.mpr here
      obtain ⟨-, -, -, -, -, same⟩ := step_eq_ok hstep
      obtain rfl := same rfl
      exact Knowledge.refineEach_cons_eq_ok.mpr
        ⟨_, false, false, attempt_eq_ok.mpr hstep, ih there, rfl⟩

/-- A pass that reports a change has changed the entry of a node: none of its steps
takes back what another did, since the nodes are all different. -/
theorem run_changed (distinct : (nodes.map Node.id).Nodup)
    (h : pass.run known nodes = (resolutions, .ok true)) :
    ∃ node ∈ nodes, pass.concerns node ∧
      (resolutions.table pass).get? node.id ≠ (known.resolutions.table pass).get? node.id := by
  induction nodes generalizing known with
  | nil => cases h
  | cons node rest ih =>
      obtain ⟨between, here, there, hstep, hrest, flags⟩ := run_cons_eq_ok h
      obtain ⟨value, hchoice, -, hentries, hhere, same⟩ := step_eq_ok hstep
      rw [List.map_cons, List.nodup_cons] at distinct
      cases here with
      | true =>
          -- the rest of the run is over other nodes, so the change is there in the end
          have differs := of_decide_eq_true hhere.symm
          have concerned : pass.concerns node := by
            rw [← Bool.not_eq_false]
            intro unconcerned
            rw [Knowledge.choice_of_not_concerns unconcerned] at hchoice
            exact differs (Except.ok.inj hchoice)
          refine ⟨node, List.mem_cons_self, concerned, ?_⟩
          rw [(run_frame hrest).2 node.id distinct.1, hentries, if_pos rfl]
          exact differs.symm
      | false =>
          obtain rfl := same rfl
          obtain rfl : there = true := by simpa using flags.symm
          obtain ⟨changed, hmem, differs⟩ := ih distinct.2 hrest
          exact ⟨changed, List.mem_cons_of_mem _ hmem, differs⟩

/-- A pass that leaves the nodes it is about with their entries reports no change. -/
theorem run_reports (distinct : (nodes.map Node.id).Nodup)
    (h : pass.run known nodes = (resolutions, .ok changed))
    (same : ∀ node ∈ nodes, pass.concerns node →
      (resolutions.table pass).get? node.id = (known.resolutions.table pass).get? node.id) :
    changed = false := by
  rw [← Bool.not_eq_true]
  rintro rfl
  obtain ⟨node, hnode, concerned, differs⟩ := run_changed distinct h
  exact differs (same node hnode concerned)

/-- After a pass over numerals, aggregates or comparisons, all nodes are stable. -/
theorem run_stable (hpass : pass ≠ .functors) (distinct : (nodes.map Node.id).Nodup)
    (h : pass.run known nodes = (resolutions, .ok changed)) :
    ∀ node ∈ nodes, Knowledge.IsStable { known with resolutions } pass node := by
  induction nodes generalizing known changed with
  | nil => simp
  | cons node rest ih =>
      obtain ⟨between, here, there, hstep, hrest, -⟩ := run_cons_eq_ok h
      obtain ⟨value, hchoice, others, hentries, -, -⟩ := step_eq_ok hstep
      rw [List.map_cons, List.nodup_cons] at distinct
      have restStable := ih distinct.2 hrest
      refine List.forall_mem_cons.mpr ⟨?_, restStable⟩
      have entry : (resolutions.table pass).get? node.id = value := by
        rw [(run_frame hrest).2 node.id distinct.1]
        exact (hentries node.id).trans (if_pos rfl)
      have functors : known.resolutions.functors = resolutions.functors :=
        ((run_frame h).1 .functors hpass.symm).symm
      rw [Knowledge.IsStable, entry]
      exact Knowledge.choice_again hpass hchoice functors entry

/-! ### All passes -/

theorem runAll_cons_eq_ok {passes : List Pass}
    (h : runAll known nodes (pass :: passes) = (resolutions, .ok changed)) :
    ∃ between here there, pass.run known nodes = (between, .ok here) ∧
      runAll { known with resolutions := between } nodes passes = (resolutions, .ok there) ∧
      changed = (here || there) :=
  Knowledge.refineEach_cons_eq_ok.mp h

theorem runAll_unchanged {passes : List Pass}
    (h : runAll known nodes passes = (resolutions, .ok false)) :
    resolutions = known.resolutions := by
  induction passes with
  | nil =>
      cases h
      rfl
  | cons pass rest ih =>
      obtain ⟨between, here, there, hrun, hrest, flags⟩ := runAll_cons_eq_ok h
      obtain ⟨rfl, rfl⟩ : here = false ∧ there = false := by simpa using flags.symm
      obtain rfl := (run_unchanged hrun).1
      exact ih hrest

theorem runAll_of_stable {passes : List Pass}
    (stable : ∀ pass ∈ passes, ∀ node ∈ nodes, known.IsStable pass node) :
    runAll known nodes passes = (known.resolutions, .ok false) := by
  induction passes with
  | nil => rfl
  | cons pass rest ih =>
      obtain ⟨here, there⟩ := List.forall_mem_cons.mp stable
      exact Knowledge.refineEach_cons_eq_ok.mpr
        ⟨_, false, false, run_of_stable here, ih there, rfl⟩

/-- If functors and numerals keep their entries, then all nodes are stable once all
passes have run. -/
theorem runAll_stable (distinct : (nodes.map Node.id).Nodup)
    (h : runAll known nodes all = (resolutions, .ok changed))
    (same : ∀ pass : Pass, pass.feedsBack → ∀ node ∈ nodes, pass.concerns node →
      (resolutions.table pass).get? node.id = (known.resolutions.table pass).get? node.id) :
    resolutions.functors = known.resolutions.functors ∧
      resolutions.numerals = known.resolutions.numerals ∧
      ∀ pass, ∀ node ∈ nodes, Knowledge.IsStable { known with resolutions } pass node := by
  obtain ⟨first, changed₁, _, run₁, h, -⟩ := runAll_cons_eq_ok h
  obtain ⟨second, changed₂, _, run₂, h, -⟩ := runAll_cons_eq_ok h
  obtain ⟨third, _, _, run₃, h, -⟩ := runAll_cons_eq_ok h
  obtain ⟨fourth, _, _, run₄, h, -⟩ := runAll_cons_eq_ok h
  obtain rfl : fourth = resolutions := congrArg Prod.fst h
  obtain ⟨others₂, -⟩ := run_frame run₂
  obtain ⟨others₃, -⟩ := run_frame run₃
  obtain ⟨others₄, -⟩ := run_frame run₄
  have frame : ∀ pass : Pass, pass.feedsBack → fourth.table pass = second.table pass := by
    intro pass hpass
    cases pass with
    | functors => exact (others₄ .functors (by decide)).trans (others₃ .functors (by decide))
    | numerals => exact (others₄ .numerals (by decide)).trans (others₃ .numerals (by decide))
    | _ => cases hpass
  -- neither functors nor numerals changed, so both passes left everything alone
  obtain rfl : changed₁ = false := by
    refine run_reports distinct run₁ fun node hnode concerned => ?_
    rw [← same .functors rfl node hnode concerned, frame .functors rfl,
      others₂ .functors (by decide)]
  obtain ⟨rfl, stable₁⟩ := run_unchanged run₁
  obtain rfl : changed₂ = false := by
    refine run_reports distinct run₂ fun node hnode concerned => ?_
    rw [← same .numerals rfl node hnode concerned, frame .numerals rfl]
  obtain ⟨rfl, stable₂⟩ := run_unchanged run₂
  have functors : known.resolutions.functors = fourth.functors := (frame .functors rfl).symm
  have stable₃ := run_stable (by decide) distinct run₃
  have stable₄ := run_stable (by decide) distinct run₄
  refine ⟨functors.symm, frame .numerals rfl, ?_⟩
  intro pass node hnode
  cases pass with
  | functors => exact (stable₁ node hnode).transfer functors functors
  | numerals => exact (stable₂ node hnode).transfer functors (frame .numerals rfl).symm
  | aggregates =>
      exact (stable₃ node hnode).transfer (others₄ .functors (by decide)).symm
        (others₄ .aggregates (by decide)).symm
  | comparisons => exact stable₄ node hnode

end Pass

end DatalogTyping

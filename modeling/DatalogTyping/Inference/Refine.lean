import DatalogTyping.Inference.Knowledge

/-!
# Refinement

After every round of solving, four passes go over the nodes of the program and
bring the resolutions in line with what the round found: functors, numerals,
aggregates, comparisons, in this order. Each step of a pass sees what the steps
before it settled.
-/

namespace DatalogTyping

/-- The first of some kinds that satisfies a condition, or else the signed kind,
which is the default. -/
def firstOr (kinds : List Kind) (condition : Kind → Bool) : Kind :=
  (kinds.find? condition).getD .signed

/-- Record an operator that has no variants: it never changes. -/
def settleFixed {α : Type} [DecidableEq α] (table : Table α) (node : Node) (op : α) :
    Except Fault (Table α × Bool) :=
  match table.get? node.id with
  | some recorded =>
    if recorded = op then .ok (table, false) else .error (.fixedOperatorChanged node.text)
  | none => .ok (table.insert node.id op, true)

namespace Knowledge

/-- The representation that suits the kinds of a numeral best. -/
def numeralChoice (kinds : List Kind) : Option NumericKind :=
  NumericKind.all.find? fun representation => kinds.contains representation.kind

/-- Resolve a functor to the best overload that fits. If none does, it goes back
to being unresolved. -/
def refineFunctor (known : Knowledge) (node : Node) : Except Fault (Resolutions × Bool) := do
  let candidates ← known.validOverloads node
  let (functors, changed) := known.resolutions.functors.settle node.id candidates.head?
  return ({ known.resolutions with functors }, changed)

/-- Resolve a numeral to the representation that is fixed, or else to the first
one its kinds allow. -/
def refineNumeral (known : Knowledge) (node : Node) (fixed : Option NumericKind) :
    Except Fault (Resolutions × Bool) := do
  let choice ← match fixed with
    | some kind => pure (some kind)
    | none => (known.kindsOf node).map numeralChoice
  let (numerals, changed) := known.resolutions.numerals.settle node.id choice
  return ({ known.resolutions with numerals }, changed)

/-- Resolve an aggregate to its variant for the kinds of its target. -/
def refineAggregate (known : Knowledge) (node : Node) (op : AggregateOp) :
    Except Fault (Resolutions × Bool) := do
  let table := known.resolutions.aggregates
  let (aggregates, changed) ←
    if op.isOverloaded then
      match node.target? with
      | none => throw (.missingTarget node.text)
      | some target =>
        let kinds ← known.kindsPresent target
        let variant ← op.convert (firstOr [.float, .unsigned] kinds.contains)
        pure (table.settle node.id (some variant))
    else settleFixed table node op
  return ({ known.resolutions with aggregates }, changed)

/-- Resolve a comparison to its variant for a kind that both sides have. -/
def refineComparison (known : Knowledge) (node : Node) (op : ComparisonOp) :
    Except Fault (Resolutions × Bool) := do
  let table := known.resolutions.comparisons
  let (comparisons, changed) ←
    if op.isOverloaded then
      match node.children with
      | [left, right] =>
        let left ← known.kindsPresent left
        let right ← known.kindsPresent right
        let variant ← op.convert (firstOr [.float, .unsigned, .symbol] fun kind =>
          left.contains kind && right.contains kind)
        pure (table.settle node.id (some variant))
      | _ => throw .lacksProperty
    else settleFixed table node op
  return ({ known.resolutions with comparisons }, changed)

end Knowledge

/-- Refine the resolutions for one item after another: what is left of them, and
whether they were changed, unless it failed on the way. -/
def Knowledge.refineEach {α : Type} (refine : Knowledge → α → Resolutions × Except Fault Bool)
    (known : Knowledge) : List α → Resolutions × Except Fault Bool
  | [] => (known.resolutions, .ok false)
  | item :: rest =>
    match refine known item with
    | (resolutions, .error fault) => (resolutions, .error fault)
    | (resolutions, .ok here) =>
      match refineEach refine { known with resolutions } rest with
      | (resolutions, .ok there) => (resolutions, .ok (here || there))
      | (resolutions, .error fault) => (resolutions, .error fault)

/-- The passes. -/
inductive Pass where
  | functors
  | numerals
  | aggregates
  | comparisons
  deriving DecidableEq, Repr

namespace Pass

/-- The passes, in the order they run. -/
def all : List Pass := [functors, numerals, aggregates, comparisons]

/-- What a pass does to the resolutions at one node; whether that changes them.
A pass is about one class of nodes and does nothing at the others. -/
def step (pass : Pass) (known : Knowledge) (node : Node) : Except Fault (Resolutions × Bool) :=
  match pass, node.label with
  | functors, .functor _ => known.refineFunctor node
  | numerals, .numeral _ fixed => known.refineNumeral node fixed
  | aggregates, .aggregate op _ => known.refineAggregate node op
  | comparisons, .comparison op => known.refineComparison node op
  | _, _ => .ok (known.resolutions, false)

/-- Take a step. One that fails leaves the resolutions as they were. -/
def attempt (pass : Pass) (known : Knowledge) (node : Node) : Resolutions × Except Fault Bool :=
  match pass.step known node with
  | .ok (resolutions, changed) => (resolutions, .ok changed)
  | .error fault => (known.resolutions, .error fault)

/-- Run a pass over some nodes. -/
def run (pass : Pass) (known : Knowledge) (nodes : List Node) : Resolutions × Except Fault Bool :=
  known.refineEach pass.attempt nodes

/-- Run passes one after another. -/
def runAll (known : Knowledge) (nodes : List Node) (passes : List Pass) :
    Resolutions × Except Fault Bool :=
  known.refineEach (fun known pass => pass.run known nodes) passes

end Pass

end DatalogTyping

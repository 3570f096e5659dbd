import DatalogTyping.Operator.Variant

/-!
# Aggregates

The built-in aggregate operators. Some of them stand for a family of variants,
one for each numeric kind.
-/

namespace DatalogTyping

/-- The aggregate operators. -/
inductive AggregateOp where
  | count | mean | sum | usum | fsum | min | umin | fmin | max | umax | fmax
  deriving DecidableEq, Repr

namespace AggregateOp

/-- All aggregate operators. -/
def all : List AggregateOp := [count, mean, sum, usum, fsum, min, umin, fmin, max, umax, fmax]

/-- The word an aggregate is written by. -/
def keyword : AggregateOp → String
  | count => "count"
  | mean => "mean"
  | sum => "sum"
  | usum => "usum"
  | fsum => "fsum"
  | min => "min"
  | umin => "umin"
  | fmin => "fmin"
  | max => "max"
  | umax => "umax"
  | fmax => "fmax"

/-- The name of an aggregate operator in full. -/
def fullName : AggregateOp → String
  | count => "AggregateOp.COUNT"
  | mean => "AggregateOp.MEAN"
  | sum => "AggregateOp.SUM"
  | usum => "AggregateOp.USUM"
  | fsum => "AggregateOp.FSUM"
  | min => "AggregateOp.MIN"
  | umin => "AggregateOp.UMIN"
  | fmin => "AggregateOp.FMIN"
  | max => "AggregateOp.MAX"
  | umax => "AggregateOp.UMAX"
  | fmax => "AggregateOp.FMAX"

/-- The aggregate written by the given word. -/
def ofKeyword (text : String) : Except Fault AggregateOp :=
  match all.find? fun op => op.keyword = text with
  | some op => .ok op
  | none => .error (.notAMember text "AggregateOp")

/-- Does the operator stand for a family of variants? -/
def isOverloaded : AggregateOp → Bool
  | sum | min | max => true
  | _ => false

/-- The variant of an operator for a kind, where there is one. -/
def variant? : AggregateOp → Kind → Option AggregateOp
  | sum, .signed => some sum
  | sum, .unsigned => some usum
  | sum, .float => some fsum
  | min, .signed => some min
  | min, .unsigned => some umin
  | min, .float => some fmin
  | max, .signed => some max
  | max, .unsigned => some umax
  | max, .float => some fmax
  | _, _ => none

/-- The variant of an overloaded operator for a kind. -/
def convert (op : AggregateOp) (kind : Kind) : Except Fault AggregateOp :=
  requireVariant op.fullName op.isOverloaded .noAggregateVariant (op.variant? kind)

end AggregateOp

end DatalogTyping

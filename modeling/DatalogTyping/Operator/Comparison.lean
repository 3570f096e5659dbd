import DatalogTyping.Operator.Variant

/-!
# Comparisons

The operators of binary constraints. Equality and ordering stand for families
of variants, one for each primitive kind; equality looks at the representation
only, so it distinguishes no kind but floats. Pattern tests are about symbols.
-/

namespace DatalogTyping

/-- The operators of binary constraints. -/
inductive ComparisonOp where
  | eq | feq | ne | fne | lt | ult | flt | slt
  | le | ule | fle | sle | gt | ugt | fgt | sgt
  | ge | uge | fge | sge | matching | contains | notMatching | notContains
  deriving DecidableEq, Repr

namespace ComparisonOp

/-- All comparison operators. -/
def all : List ComparisonOp := [
  eq, feq, ne, fne, lt, ult, flt, slt,
  le, ule, fle, sle, gt, ugt, fgt, sgt,
  ge, uge, fge, sge, matching, contains, notMatching, notContains]

/-- The sign or word a comparison is written by. -/
def sign : ComparisonOp → String
  | eq => "="
  | feq => "f="
  | ne => "!="
  | fne => "f!="
  | lt => "<"
  | ult => "u<"
  | flt => "f<"
  | slt => "s<"
  | le => "<="
  | ule => "u<="
  | fle => "f<="
  | sle => "s<="
  | gt => ">"
  | ugt => "u>"
  | fgt => "f>"
  | sgt => "s>"
  | ge => ">="
  | uge => "u>="
  | fge => "f>="
  | sge => "s>="
  | matching => "match"
  | contains => "contains"
  | notMatching => "not_match"
  | notContains => "not_contains"

/-- The name of a comparison operator in full. -/
def fullName : ComparisonOp → String
  | eq => "BinaryConstraintOp.EQ"
  | feq => "BinaryConstraintOp.FEQ"
  | ne => "BinaryConstraintOp.NE"
  | fne => "BinaryConstraintOp.FNE"
  | lt => "BinaryConstraintOp.LT"
  | ult => "BinaryConstraintOp.ULT"
  | flt => "BinaryConstraintOp.FLT"
  | slt => "BinaryConstraintOp.SLT"
  | le => "BinaryConstraintOp.LE"
  | ule => "BinaryConstraintOp.ULE"
  | fle => "BinaryConstraintOp.FLE"
  | sle => "BinaryConstraintOp.SLE"
  | gt => "BinaryConstraintOp.GT"
  | ugt => "BinaryConstraintOp.UGT"
  | fgt => "BinaryConstraintOp.FGT"
  | sgt => "BinaryConstraintOp.SGT"
  | ge => "BinaryConstraintOp.GE"
  | uge => "BinaryConstraintOp.UGE"
  | fge => "BinaryConstraintOp.FGE"
  | sge => "BinaryConstraintOp.SGE"
  | matching => "BinaryConstraintOp.MATCH"
  | contains => "BinaryConstraintOp.CONTAINS"
  | notMatching => "BinaryConstraintOp.NOT_MATCH"
  | notContains => "BinaryConstraintOp.NOT_CONTAINS"

/-- The comparison written by the given sign. -/
def ofSign (text : String) : Except Fault ComparisonOp :=
  match all.find? fun op => op.sign = text with
  | some op => .ok op
  | none => .error (.notAMember text "BinaryConstraintOp")

/-- Is the operator a test of symbols against a pattern? Such a test is written
as a word in front of its operands. -/
def isSymbolic : ComparisonOp → Bool
  | matching | contains | notMatching | notContains => true
  | _ => false

/-- Does the operator stand for a family of variants? -/
def isOverloaded : ComparisonOp → Bool
  | eq | ne | lt | le | gt | ge => true
  | _ => false

/-- The variant of an operator for a kind, where there is one. -/
def variant? : ComparisonOp → Kind → Option ComparisonOp
  | eq, .float => some feq
  | eq, .signed | eq, .unsigned | eq, .symbol => some eq
  | ne, .float => some fne
  | ne, .signed | ne, .unsigned | ne, .symbol => some ne
  | lt, .signed => some lt
  | lt, .unsigned => some ult
  | lt, .float => some flt
  | lt, .symbol => some slt
  | le, .signed => some le
  | le, .unsigned => some ule
  | le, .float => some fle
  | le, .symbol => some sle
  | gt, .signed => some gt
  | gt, .unsigned => some ugt
  | gt, .float => some fgt
  | gt, .symbol => some sgt
  | ge, .signed => some ge
  | ge, .unsigned => some uge
  | ge, .float => some fge
  | ge, .symbol => some sge
  | _, _ => none

/-- The variant of an overloaded operator for a kind. -/
def convert (op : ComparisonOp) (kind : Kind) : Except Fault ComparisonOp :=
  requireVariant op.fullName op.isOverloaded (.noComparisonVariant kind) (op.variant? kind)

end ComparisonOp

end DatalogTyping

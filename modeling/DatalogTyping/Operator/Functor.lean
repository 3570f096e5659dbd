import DatalogTyping.Position

/-!
# Intrinsic functors

The operations a functor symbol can stand for, and the table of their
overloads: which kinds an operation takes and which it yields. The table's
order, and the rank of an overload, make every choice among overloads
deterministic.
-/

namespace DatalogTyping

/-- The concrete operations that intrinsic functors resolve to. -/
inductive FunctorOp where
  | ord | strlen | neg | fneg | bnot | ubnot | lnot | ulnot | f2i | f2s | f2u | i2f | i2s | i2u
  | s2f | s2i | s2u | u2f | u2i | u2s | add | uadd | fadd | sub | usub | fsub | mul | umul
  | fmul | div | udiv | fdiv | exp | uexp | fexp | mod | umod | band | uband | bor | ubor
  | bxor | ubxor | bshl | ubshl | bshr | ubshr | bshru | ubshru | land | uland | lor | ulor
  | lxor | ulxor | max | umax | fmax | smax | min | umin | fmin | smin | cat | substr | range
  | urange | frange
  deriving DecidableEq, Repr

namespace FunctorOp

/-- All operations, in the order of their declaration. -/
def all : List FunctorOp := [
  ord, strlen, neg, fneg, bnot, ubnot, lnot, ulnot, f2i, f2s, f2u, i2f, i2s, i2u, s2f, s2i,
  s2u, u2f, u2i, u2s, add, uadd, fadd, sub, usub, fsub, mul, umul, fmul, div, udiv, fdiv, exp,
  uexp, fexp, mod, umod, band, uband, bor, ubor, bxor, ubxor, bshl, ubshl, bshr, ubshr, bshru,
  ubshru, land, uland, lor, ulor, lxor, ulxor, max, umax, fmax, smax, min, umin, fmin, smin,
  cat, substr, range, urange, frange]

/-- The name an operation is shown by among the overloads of a functor. -/
def name : FunctorOp → String
  | ord => "ORD"
  | strlen => "STRLEN"
  | neg => "NEG"
  | fneg => "FNEG"
  | bnot => "BNOT"
  | ubnot => "UBNOT"
  | lnot => "LNOT"
  | ulnot => "ULNOT"
  | f2i => "F2I"
  | f2s => "F2S"
  | f2u => "F2U"
  | i2f => "I2F"
  | i2s => "I2S"
  | i2u => "I2U"
  | s2f => "S2F"
  | s2i => "S2I"
  | s2u => "S2U"
  | u2f => "U2F"
  | u2i => "U2I"
  | u2s => "U2S"
  | add => "ADD"
  | uadd => "UADD"
  | fadd => "FADD"
  | sub => "SUB"
  | usub => "USUB"
  | fsub => "FSUB"
  | mul => "MUL"
  | umul => "UMUL"
  | fmul => "FMUL"
  | div => "DIV"
  | udiv => "UDIV"
  | fdiv => "FDIV"
  | exp => "EXP"
  | uexp => "UEXP"
  | fexp => "FEXP"
  | mod => "MOD"
  | umod => "UMOD"
  | band => "BAND"
  | uband => "UBAND"
  | bor => "BOR"
  | ubor => "UBOR"
  | bxor => "BXOR"
  | ubxor => "UBXOR"
  | bshl => "BSHIFT_L"
  | ubshl => "UBSHIFT_L"
  | bshr => "BSHIFT_R"
  | ubshr => "UBSHIFT_R"
  | bshru => "BSHIFT_R_UNSIGNED"
  | ubshru => "UBSHIFT_R_UNSIGNED"
  | land => "LAND"
  | uland => "ULAND"
  | lor => "LOR"
  | ulor => "ULOR"
  | lxor => "LXOR"
  | ulxor => "ULXOR"
  | max => "MAX"
  | umax => "UMAX"
  | fmax => "FMAX"
  | smax => "SMAX"
  | min => "MIN"
  | umin => "UMIN"
  | fmin => "FMIN"
  | smin => "SMIN"
  | cat => "CAT"
  | substr => "SUBSTR"
  | range => "RANGE"
  | urange => "URANGE"
  | frange => "FRANGE"

/-- The mnemonic of an operation. -/
def mnemonic : FunctorOp → String
  | ord => "ord"
  | strlen => "strlen"
  | neg => "neg"
  | fneg => "fneg"
  | bnot => "bnot"
  | ubnot => "ubnot"
  | lnot => "lnot"
  | ulnot => "ulnot"
  | f2i => "f2i"
  | f2s => "f2s"
  | f2u => "f2u"
  | i2f => "i2f"
  | i2s => "i2s"
  | i2u => "i2u"
  | s2f => "s2f"
  | s2i => "s2i"
  | s2u => "s2u"
  | u2f => "u2f"
  | u2i => "u2i"
  | u2s => "u2s"
  | add => "add"
  | uadd => "uadd"
  | fadd => "fadd"
  | sub => "sub"
  | usub => "usub"
  | fsub => "fsub"
  | mul => "mul"
  | umul => "umul"
  | fmul => "fmul"
  | div => "div"
  | udiv => "udiv"
  | fdiv => "fdiv"
  | exp => "exp"
  | uexp => "uexp"
  | fexp => "fexp"
  | mod => "mod"
  | umod => "umod"
  | band => "band"
  | uband => "uband"
  | bor => "bor"
  | ubor => "ubor"
  | bxor => "bxor"
  | ubxor => "ubxor"
  | bshl => "bshl"
  | ubshl => "ubshl"
  | bshr => "bshr"
  | ubshr => "ubshr"
  | bshru => "bshru"
  | ubshru => "ubshru"
  | land => "land"
  | uland => "uland"
  | lor => "lor"
  | ulor => "ulor"
  | lxor => "lxor"
  | ulxor => "ulxor"
  | max => "max"
  | umax => "umax"
  | fmax => "fmax"
  | smax => "smax"
  | min => "min"
  | umin => "umin"
  | fmin => "fmin"
  | smin => "smin"
  | cat => "cat"
  | substr => "substr"
  | range => "range"
  | urange => "urange"
  | frange => "frange"

/-- The operation with the given mnemonic. -/
def ofMnemonic (text : String) : Except Fault FunctorOp :=
  match all.find? fun op => op.mnemonic = text with
  | some op => .ok op
  | none => .error (.notAMember text "FunctorOp")

end FunctorOp

/-- One way to read a functor symbol. -/
structure Overload where
  /-- The symbol as written in programs. -/
  symbol : String
  /-- The kinds of the parameters; a variadic overload uses the first only. -/
  params : List Kind
  /-- The kind of the result. -/
  result : Kind
  /-- The operation the overload stands for. -/
  op : FunctorOp
  /-- Does it take any number of arguments, all of one kind? -/
  variadic : Bool := false
  /-- Can one application have several results? -/
  multiple : Bool := false
  deriving DecidableEq, Repr

namespace Overload

/-- The kind of the parameter at a position counted from the front. -/
def param? (overload : Overload) (index : Nat) : Option Kind :=
  overload.params[if overload.variadic then 0 else index]?

/-- The kind of the parameter at a position counted from either end. -/
def paramAt (overload : Overload) (position : Int) : Except Fault Kind :=
  elementAt overload.params (if overload.variadic then 0 else position)

/-- Can the overload be applied to that many arguments? -/
def acceptsArity (overload : Overload) (arity : Nat) : Bool :=
  overload.variadic || arity == overload.params.length

/-- The sort key that makes the choice among overloads deterministic: first the
rank of the result, then fixed arity before variadic, then the ranks of the
parameters. -/
def rank (overload : Overload) : List Nat :=
  overload.result.rank :: overload.variadic.toNat :: overload.params.map Kind.rank

/-- Put an overload before the first of a ranked list that it does not
outrank. -/
def insertRanked (overload : Overload) : List Overload → List Overload
  | [] => [overload]
  | other :: rest =>
    if other.rank < overload.rank then other :: insertRanked overload rest
    else overload :: other :: rest

/-- The overloads in the order of their ranks; equal ranks keep their order. -/
def ranked (overloads : List Overload) : List Overload :=
  overloads.foldr insertRanked []

/-- An overload as a signature, such as `+(Signed, Signed)->Signed [ADD]`. -/
def render (overload : Overload) : String :=
  let params := ", ".intercalate (overload.params.map Kind.name)
  let dots := if overload.variadic then "..." else ""
  s!"{overload.symbol}({params}{dots})->{overload.result.name} [{overload.op.name}]"

/-! ## The table -/

private def unary (symbol : String) (op : FunctorOp) (param result : Kind) : Overload :=
  { symbol, params := [param], result, op }

private def binary (symbol : String) (op : FunctorOp) (kind : Kind) : Overload :=
  { symbol, params := [kind, kind], result := kind, op }

private def integral (symbol : String) (signed unsigned : FunctorOp) : List Overload :=
  [binary symbol signed .signed, binary symbol unsigned .unsigned]

private def numeric (symbol : String) (signed unsigned floating : FunctorOp) : List Overload :=
  integral symbol signed unsigned ++ [binary symbol floating .float]

private def folding (symbol : String) (op : FunctorOp) (kind : Kind) : Overload :=
  { symbol, params := [kind], result := kind, op, variadic := true }

private def ranging (op : FunctorOp) (kind : Kind) : Overload :=
  { symbol := "range", params := [kind, kind, kind], result := kind, op, variadic := true,
    multiple := true }

/-- Every overload of every intrinsic functor. `ord` yields the representation
of anything at all, so it has an overload for each kind. -/
def table : List Overload :=
  Kind.all.map (unary "ord" .ord · .signed) ++
  [ unary "strlen" .strlen .symbol .signed,
    unary "-" .neg .signed .signed,
    unary "-" .fneg .float .float,
    unary "bnot" .bnot .signed .signed,
    unary "bnot" .ubnot .unsigned .unsigned,
    unary "lnot" .lnot .signed .signed,
    unary "lnot" .ulnot .unsigned .unsigned,
    unary "to_number" .f2i .float .signed,
    unary "to_string" .f2s .float .symbol,
    unary "to_unsigned" .f2u .float .unsigned,
    unary "to_float" .i2f .signed .float,
    unary "to_string" .i2s .signed .symbol,
    unary "to_unsigned" .i2u .signed .unsigned,
    unary "to_float" .s2f .symbol .float,
    unary "to_number" .s2i .symbol .signed,
    unary "to_unsigned" .s2u .symbol .unsigned,
    unary "to_float" .u2f .unsigned .float,
    unary "to_number" .u2i .unsigned .signed,
    unary "to_string" .u2s .unsigned .symbol ] ++
  numeric "+" .add .uadd .fadd ++
  numeric "-" .sub .usub .fsub ++
  numeric "*" .mul .umul .fmul ++
  numeric "/" .div .udiv .fdiv ++
  numeric "^" .exp .uexp .fexp ++
  integral "%" .mod .umod ++
  integral "band" .band .uband ++
  integral "bor" .bor .ubor ++
  integral "bxor" .bxor .ubxor ++
  integral "bshl" .bshl .ubshl ++
  integral "bshr" .bshr .ubshr ++
  integral "bshru" .bshru .ubshru ++
  integral "land" .land .uland ++
  integral "lor" .lor .ulor ++
  integral "lxor" .lxor .ulxor ++
  [ folding "max" .max .signed,
    folding "max" .umax .unsigned,
    folding "max" .fmax .float,
    folding "max" .smax .symbol,
    folding "min" .min .signed,
    folding "min" .umin .unsigned,
    folding "min" .fmin .float,
    folding "min" .smin .symbol,
    folding "cat" .cat .symbol,
    { symbol := "substr", params := [.symbol, .signed, .signed], result := .symbol,
      op := .substr },
    ranging .range .signed,
    ranging .urange .unsigned,
    ranging .frange .float ]

/-- Every overload that goes by the given symbol, in table order. -/
def ofSymbol (symbol : String) : List Overload :=
  table.filter fun overload => overload.symbol = symbol

/-- Every overload that stands for the given operation, in table order. -/
def ofOp (op : FunctorOp) : List Overload :=
  table.filter fun overload => overload.op = op

end Overload

/-- The symbols written between their arguments when there are two of them. -/
def betweenSymbols : List String :=
  ["+", "-", "*", "/", "^", "%", "band", "bor", "bxor", "bshl", "bshr", "bshru", "land", "lor",
    "lxor"]

/-- Is a functor of that many arguments written between them? -/
def isWrittenBetween (symbol : String) (arity : Nat) : Bool :=
  arity == 2 && betweenSymbols.contains symbol

end DatalogTyping

/-!
# Kinds

The coarse kinds that overload matching works with. Every type has at most one
of them; the six are ranked, and the rank decides among equally good overloads.
-/

namespace DatalogTyping

/-- The kind of a type. The order of the constructors is the ranking order. -/
inductive Kind where
  | symbol
  | signed
  | unsigned
  | float
  | record
  | adt
  deriving DecidableEq, Repr

namespace Kind

/-- All kinds, in ranking order. -/
def all : List Kind := [symbol, signed, unsigned, float, record, adt]

/-- The kinds that have a constant type at their root, in ranking order. -/
def primitives : List Kind := [symbol, signed, unsigned, float]

/-- The kinds a numeral can have. -/
def numerics : List Kind := [signed, unsigned, float]

/-- What an expression might be about which nothing is known. -/
def unconstrained : List Kind := [symbol, signed, unsigned, float, record]

/-- The place of a kind in the ranking. -/
def rank : Kind → Nat
  | symbol => 0
  | signed => 1
  | unsigned => 2
  | float => 3
  | record => 4
  | adt => 5

/-- The name a kind is shown by. -/
def name : Kind → String
  | symbol => "Symbol"
  | signed => "Signed"
  | unsigned => "Unsigned"
  | float => "Float"
  | record => "Record"
  | adt => "ADT"

/-- The kind shown by the given name. -/
def ofName? (name : String) : Option Kind :=
  all.find? fun kind => kind.name = name

/-- A set of kinds, given as any list of its members, in ranking order and
without repetition. -/
def ranked (kinds : List Kind) : List Kind :=
  all.filter fun kind => kind ∈ kinds

end Kind

/-- The concrete representation chosen for a numeral. -/
inductive NumericKind where
  | int
  | uint
  | float
  deriving DecidableEq, Repr

namespace NumericKind

/-- All representations, in the order they are tried. -/
def all : List NumericKind := [int, uint, float]

/-- The name a representation is shown by. -/
def name : NumericKind → String
  | int => "Int"
  | uint => "Uint"
  | float => "Float"

/-- The kind of the values that have this representation. -/
def kind : NumericKind → Kind
  | int => .signed
  | uint => .unsigned
  | float => .float

end NumericKind

end DatalogTyping

import DatalogTyping.Node.Basic

/-!
# Resolutions

What the analysis has settled on for particular nodes of a program: an overload
for a functor, a representation for a numeral, a variant for an aggregate or a
comparison. A table holds one kind of resolution, by the identity of the node.
-/

namespace DatalogTyping

/-- An entry for each of some nodes. -/
structure Table (α : Type) where
  entries : List (NodeId × α)
  deriving DecidableEq

namespace Table

variable {α : Type}

/-- The table without entries. -/
def empty : Table α := ⟨[]⟩

/-- The entry of a node. -/
def get? (table : Table α) (id : NodeId) : Option α :=
  table.entries.lookup id

/-- Does the node have an entry? -/
def contains (table : Table α) (id : NodeId) : Bool :=
  (table.get? id).isSome

/-- The table without an entry for the node. -/
def erase (table : Table α) (id : NodeId) : Table α :=
  ⟨table.entries.filter fun entry => entry.1 ≠ id⟩

/-- The table with the given entry for the node. -/
def insert (table : Table α) (id : NodeId) (value : α) : Table α :=
  ⟨(id, value) :: (table.erase id).entries⟩

/-- Make `value` the entry of the node, or leave the node without one; say
whether that changes the table. -/
def settle [DecidableEq α] (table : Table α) (id : NodeId) (value : Option α) :
    Table α × Bool :=
  if table.get? id = value then (table, false)
  else match value with
    | some value => (table.insert id value, true)
    | none => (table.erase id, true)

end Table

/-- Everything the analysis has settled on. -/
structure Resolutions where
  functors : Table Overload := .empty
  numerals : Table NumericKind := .empty
  aggregates : Table AggregateOp := .empty
  comparisons : Table ComparisonOp := .empty
  deriving DecidableEq

end DatalogTyping

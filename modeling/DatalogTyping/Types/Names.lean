/-!
# Sets of names

A set of names is kept as the list of its members in increasing order. There is
one such list for each set, so equality of sets is equality of lists, and the
members are enumerated in the order of their names.
-/

namespace DatalogTyping

/-- Put a name in its place in an increasing list, unless it is there already. -/
def insertName (name : String) : List String → List String
  | [] => [name]
  | other :: rest =>
    if name < other then name :: other :: rest
    else if other < name then other :: insertName name rest
    else other :: rest

/-- The members after an insertion are the name and the members before it, or
just the latter. -/
theorem mem_of_mem_insertName {name x : String} :
    ∀ {names : List String}, x ∈ insertName name names → x = name ∨ x ∈ names
  | [], h => by simpa [insertName] using h
  | other :: rest, h => by
    unfold insertName at h
    split at h
    · simpa using h
    · split at h
      · rcases List.mem_cons.mp h with h | h
        · exact .inr (by simp [h])
        · rcases mem_of_mem_insertName h with h | h
          · exact .inl h
          · exact .inr (List.mem_cons_of_mem _ h)
      · exact .inr h

/-- Insertion keeps a list increasing. -/
theorem pairwise_insertName (name : String) :
    ∀ {names : List String}, names.Pairwise (· < ·) → (insertName name names).Pairwise (· < ·)
  | [], _ => by simp [insertName]
  | other :: rest, h => by
    obtain ⟨below, ordered⟩ := List.pairwise_cons.mp h
    unfold insertName
    split
    · rename_i lt
      refine List.pairwise_cons.mpr ⟨fun x hx => ?_, h⟩
      rcases List.mem_cons.mp hx with rfl | hx
      · exact lt
      · exact String.lt_trans lt (below x hx)
    · split
      · rename_i lt
        refine List.pairwise_cons.mpr ⟨fun x hx => ?_, pairwise_insertName name ordered⟩
        rcases mem_of_mem_insertName hx with rfl | hx
        · exact lt
        · exact below x hx
      · exact h

/-- A finite set of names. -/
structure Names where
  /-- The members, in increasing order. -/
  toList : List String
  /-- The order is strict, so no member occurs twice. -/
  ordered : toList.Pairwise (· < ·)
  deriving DecidableEq

namespace Names

/-- The set without members. -/
def empty : Names := ⟨[], .nil⟩

/-- The set with one more member. -/
def insert (names : Names) (name : String) : Names :=
  ⟨insertName name names.toList, pairwise_insertName name names.ordered⟩

/-- The set of the names in a list. -/
def ofList (names : List String) : Names :=
  names.foldr (fun name set => set.insert name) empty

/-- The set of one name. -/
def single (name : String) : Names := empty.insert name

/-- Is the name a member? -/
def contains (names : Names) (name : String) : Bool :=
  names.toList.contains name

/-- The members that satisfy a condition. -/
def filter (names : Names) (keep : String → Bool) : Names :=
  ⟨names.toList.filter keep, names.ordered.filter keep⟩

/-- The members of either set. -/
def union (names others : Names) : Names :=
  names.toList.foldr (fun name set => set.insert name) others

/-- The members of both sets. -/
def inter (names others : Names) : Names :=
  names.filter others.contains

end Names

end DatalogTyping

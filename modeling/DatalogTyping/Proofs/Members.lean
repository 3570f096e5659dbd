import Mathlib.Data.List.Sort
import DatalogTyping.Types.TypeSet

/-!
# Members of sets of types

What each operation on sets of names does to the members, as an equivalence.
A set is determined by its members, so these lemmas are all that later proofs
need to know about the sorted lists behind it.
-/

namespace DatalogTyping

theorem mem_insertName {name x : String} {names : List String} :
    x ∈ insertName name names ↔ x = name ∨ x ∈ names := by
  induction names with
  | nil => simp [insertName]
  | cons other rest ih =>
      unfold insertName
      split
      · simp
      · split
        · simp only [List.mem_cons, ih]
          exact or_left_comm
        · rename_i notBelow notAbove
          -- neither name is below the other, so they are the same name
          have same : name = other :=
            String.le_antisymm (String.not_lt.mp notAbove) (String.not_lt.mp notBelow)
          simp [same]

namespace Names

instance : Membership String Names := ⟨fun names name => name ∈ names.toList⟩

@[simp] theorem mem_toList {names : Names} {name : String} :
    name ∈ names.toList ↔ name ∈ names := Iff.rfl

/-- A set is determined by its members. -/
theorem ext_mem {names others : Names} (h : ∀ name, name ∈ names ↔ name ∈ others) :
    names = others := by
  obtain ⟨xs, hxs⟩ := names
  obtain ⟨ys, hys⟩ := others
  -- both lists are sorted, so one is a rearrangement of the other only if they agree
  have nodup : ∀ {zs : List String}, zs.Pairwise (· < ·) → zs.Nodup := by
    intro zs hzs
    refine hzs.imp ?_
    rintro a b hlt rfl
    exact String.lt_irrefl a hlt
  have perm : xs.Perm ys :=
    (List.perm_ext_iff_of_nodup (nodup hxs) (nodup hys)).mpr h
  have same : xs = ys :=
    perm.eq_of_pairwise
      (fun a b _ _ hab hba => absurd (String.lt_trans hab hba) (String.lt_irrefl a)) hxs hys
  subst same
  rfl

@[simp] theorem notMem_empty (name : String) : name ∉ Names.empty :=
  List.not_mem_nil

@[simp] theorem mem_insert {names : Names} {name x : String} :
    x ∈ names.insert name ↔ x = name ∨ x ∈ names :=
  mem_insertName

@[simp] theorem mem_single {name x : String} : x ∈ Names.single name ↔ x = name := by
  simp [Names.single]

@[simp] theorem mem_ofList {xs : List String} {x : String} : x ∈ Names.ofList xs ↔ x ∈ xs := by
  induction xs with
  | nil => simp [Names.ofList]
  | cons y ys ih =>
      simp only [Names.ofList, List.foldr_cons, mem_insert, List.mem_cons]
      exact or_congr Iff.rfl ih

@[simp] theorem mem_filter {names : Names} {keep : String → Bool} {x : String} :
    x ∈ names.filter keep ↔ x ∈ names ∧ keep x = true :=
  List.mem_filter

@[simp] theorem mem_inter {names others : Names} {x : String} :
    x ∈ names.inter others ↔ x ∈ names ∧ x ∈ others := by
  simp only [Names.inter, mem_filter, Names.contains, List.contains_iff_mem, mem_toList]

/-- A filter that changes nothing keeps every member. -/
theorem filter_eq_self {names : Names} {keep : String → Bool} :
    names.filter keep = names ↔ ∀ x ∈ names, keep x = true := by
  constructor
  · intro h x hx
    rw [← h] at hx
    exact (mem_filter.mp hx).2
  · intro h
    apply ext_mem
    intro x
    simp only [mem_filter, and_iff_left_iff_imp]
    exact h x

end Names

namespace TypeSet

instance : Membership String TypeSet := ⟨fun types name => types.contains name = true⟩

instance (name : String) (types : TypeSet) : Decidable (name ∈ types) :=
  inferInstanceAs (Decidable (types.contains name = true))

@[simp] theorem mem_all (name : String) : name ∈ TypeSet.all := rfl

@[simp] theorem mem_only {names : Names} {name : String} :
    name ∈ TypeSet.only names ↔ name ∈ names := by
  simp [Membership.mem, contains, Names.contains]

@[simp] theorem isAll_all : TypeSet.all.isAll = true := rfl

@[simp] theorem isAll_only (names : Names) : (TypeSet.only names).isAll = false := rfl

theorem ne_all_iff {types : TypeSet} : types ≠ .all ↔ ∃ names, types = .only names := by
  cases types <;> simp

end TypeSet

end DatalogTyping

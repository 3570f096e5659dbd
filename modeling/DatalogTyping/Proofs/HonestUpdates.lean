import DatalogTyping.Proofs.OverloadMemory

/-!
# Updates that narrow, and say so

An assignment stores whatever set it is given, so it is for the constraints to see to it
that sets only narrow. They do, for any assignment: a set that an update touches had all
types, or has only types below its members afterwards. The new set need not be part of the
old one, and may even have more members, since a meet replaces a union by those of its
elements that the other side allows.

The flag of an update is true exactly if some set is another one afterwards. Both together
are `Constraint.update_honest`. An update comes to its end unless it is about a field that
is counted from the end of a record (`Constraint.fault?_of_fromFront`).
-/

namespace DatalogTyping

namespace Constraint

variable {env : TypeEnv} {A : Assignment} {constraint : Constraint}

/-- The flag of an update says whether any variable has another set than before. -/
theorem update_changed_iff (separate : constraint.Separate) :
    (constraint.update env A).changed ↔
      ∃ var, (constraint.update env A).assignment var ≠ A var := by
  constructor
  · intro changed
    by_contra same
    have unchanged := update_reports separate (funext fun var => not_exists_not.mp same var)
    exact Bool.false_ne_true (unchanged.symm.trans changed)
  · rintro ⟨var, differs⟩
    by_contra unchanged
    exact differs (congrFun (update_unchanged (Bool.eq_false_of_not_eq_true unchanged)) var)

/-- After an update a variable has the set it had, or it had all types, or all its types are
below types it had; no finite set becomes that of all types; variables that the constraint
does not mention keep their sets; and the update reports a change exactly if some variable
has another set. -/
theorem update_honest (acyclic : env.Acyclic) (finite : constraint.GivesFinite)
    (separate : constraint.Separate) (A : Assignment) :
    (constraint.FromFront → constraint.fault? env A = none) ∧
      (∀ var, (constraint.update env A).assignment var = A var ∨ A var = .all ∨
        ∃ before after, A var = .only before ∧
          (constraint.update env A).assignment var = .only after ∧
          ∀ name ∈ after, ∃ upper ∈ before, env.isSubtype name upper) ∧
      (∀ var, A var ≠ .all → (constraint.update env A).assignment var ≠ .all) ∧
      (∀ var, var ∉ constraint.vars → (constraint.update env A).assignment var = A var) ∧
      ((constraint.update env A).changed ↔
        ∃ var, (constraint.update env A).assignment var ≠ A var) := by
  have covers := constraint.covers_update acyclic A
  refine ⟨fault?_of_fromFront finite, fun var => ?_, fun var hfinite => ?_,
    fun var => update_frame, update_changed_iff separate⟩
  · cases hvar : A var with
    | all => exact .inr (.inl rfl)
    | only before =>
        obtain ⟨after, hafter, below⟩ := covers var before hvar
        exact .inr (.inr ⟨before, after, rfl, hafter, below⟩)
  · obtain ⟨before, hvar⟩ := TypeSet.ne_all_iff.mp hfinite
    obtain ⟨after, hafter, -⟩ := covers var before hvar
    exact TypeSet.ne_all_iff.mpr ⟨after, hafter⟩

/-- A union on one side, and subsets of numbers on the other. -/
def unionAndSubsets : Assignment :=
  fun var => .ofList (if var = .named "x" then ["U"] else ["A", "B", "C"])

/-- The union gives way to the two elements of it that the bound allows. -/
theorem update_honest_union :
    unionAndSubsets (.named "x") = .ofList ["U"] ∧
      ((below (.named "x") (.named "y")).update Problem.overlappingEnv
        unionAndSubsets).assignment (.named "x") = .ofList ["A", "B"] ∧
      (∃ before after, unionAndSubsets (.named "x") = .only before ∧
        ((below (.named "x") (.named "y")).update Problem.overlappingEnv
          unionAndSubsets).assignment (.named "x") = .only after ∧
        ∀ name ∈ after, ∃ upper ∈ before, Problem.overlappingEnv.isSubtype name upper) ∧
      ((below (.named "x") (.named "y")).update Problem.overlappingEnv
        unionAndSubsets).changed = true := by
  have grown : ((below (.named "x") (.named "y")).update Problem.overlappingEnv
      unionAndSubsets).assignment (.named "x") = .ofList ["A", "B"] := by decide +kernel
  have differs : ((below (.named "x") (.named "y")).update Problem.overlappingEnv
      unionAndSubsets).assignment (.named "x") ≠ unionAndSubsets (.named "x") := by
    rw [grown]
    decide
  have finite : (below (.named "x") (.named "y")).GivesFinite := trivial
  have separate : (below (.named "x") (.named "y")).Separate := trivial
  obtain ⟨-, narrows, -, -, reports⟩ :=
    update_honest Problem.overlappingEnv_acyclic finite separate unionAndSubsets
  refine ⟨rfl, grown, ?_, reports.mpr ⟨_, differs⟩⟩
  rcases narrows (.named "x") with same | all | below
  · exact absurd same differs
  · cases all
  · exact below

end Constraint

end DatalogTyping

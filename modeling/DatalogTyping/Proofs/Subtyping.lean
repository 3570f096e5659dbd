import DatalogTyping.Proofs.Acyclic

/-!
# Subtyping is a preorder

In an environment without cycles, `isSubtype` is reflexive and transitive, and an
alias may be replaced by its target on either side. Greatest common subtypes are
below both of the types they are made from, hence so are the members of `meet`.

Empty unions need no exception: such a union is below nothing but itself and its
aliases.

To be of a primitive kind is to be below its constant type, so whatever is below a
type of such a kind is of that kind, too.
-/

namespace DatalogTyping

namespace TypeEnv

variable {env : TypeEnv} {a b : String}

@[simp] theorem isSubtype_refl (env : TypeEnv) (a : String) : env.isSubtype a a := by
  obtain ⟨bound, hbound⟩ := Nat.exists_eq_add_one_of_ne_zero
    (Nat.mul_ne_zero (Nat.succ_ne_zero (env.size + 1)) (Nat.succ_ne_zero (env.size + 1)))
  unfold isSubtype
  rw [hbound, subtypeIn_succ]
  simp [subtypeStep]

namespace Acyclic

variable (acyclic : env.Acyclic)

include acyclic

/-! ### Aliases -/

theorem isSubtype_eq_target_left {target : String} (h : env.target? a = some target)
    (hne : a ≠ b) : env.isSubtype a b = env.isSubtype target b := by
  rw [acyclic.isSubtype_eq]
  simp [subtypeStep, h, hne]

theorem isSubtype_eq_target_right {target : String} (ha : env.target? a = none)
    (h : env.target? b = some target) : env.isSubtype a b = env.isSubtype a target := by
  have hne : a ≠ b := by
    rintro rfl
    simp [ha] at h
  rw [acyclic.isSubtype_eq]
  simp [subtypeStep, ha, h, hne]

/-- What is below the target is below the alias. The walk resolves the aliases on
the left first, so the induction is along these. -/
theorem isSubtype_to_alias {a b target : String} (h : env.target? b = some target)
    (hsub : env.isSubtype a target) : env.isSubtype a b := by
  cases ha : env.target? a with
  | none => rwa [acyclic.isSubtype_eq_target_right ha h]
  | some next =>
      have lower : env.height next < env.height a := acyclic.height_lt (.inl ha)
      by_cases hab : a = b
      · rw [hab]; exact env.isSubtype_refl b
      rw [acyclic.isSubtype_eq_target_left ha hab]
      refine isSubtype_to_alias h ?_
      by_cases hat : a = target
      · -- the alias on the right leads to the one on the left
        rw [← hat]
        exact isSubtype_to_alias ha (env.isSubtype_refl next)
      · rwa [acyclic.isSubtype_eq_target_left ha hat] at hsub
termination_by env.height a

/-- An alias on the left may be replaced by its target. -/
theorem isSubtype_alias_left {target : String} (h : env.target? a = some target) :
    env.isSubtype a b ↔ env.isSubtype target b := by
  by_cases hab : a = b
  · subst hab
    have back : env.isSubtype target a := acyclic.isSubtype_to_alias h (env.isSubtype_refl target)
    simp [back]
  · rw [acyclic.isSubtype_eq_target_left h hab]

theorem isSubtype_of_alias {a b target : String} (h : env.target? b = some target)
    (hsub : env.isSubtype a b) : env.isSubtype a target := by
  cases ha : env.target? a with
  | none => rwa [acyclic.isSubtype_eq_target_right ha h] at hsub
  | some next =>
      have lower : env.height next < env.height a := acyclic.height_lt (.inl ha)
      rw [acyclic.isSubtype_alias_left ha] at hsub ⊢
      exact isSubtype_of_alias h hsub
termination_by env.height a

/-- An alias on the right may be replaced by its target. -/
theorem isSubtype_alias_right {target : String} (h : env.target? b = some target) :
    env.isSubtype a b ↔ env.isSubtype a target :=
  ⟨acyclic.isSubtype_of_alias h, acyclic.isSubtype_to_alias h⟩

/-! ### Unions and subset types -/

theorem isSubtype_union_iff {elements : List String} (ha : env.elements? a = some elements)
    (hb : env.target? b = none) :
    env.isSubtype a b ↔
      a = b ∨ elements ≠ [] ∧ ∀ element ∈ elements, env.isSubtype element b := by
  rw [acyclic.isSubtype_eq]
  simp [subtypeStep, target?_of_elements? ha, ha, hb]

theorem isSubtype_leaf_iff (ha : env.target? a = none) (hea : env.elements? a = none)
    (hb : env.target? b = none) :
    env.isSubtype a b ↔
      a = b ∨
      (∃ elements, env.elements? b = some elements ∧
        ∃ element ∈ elements, env.isSubtype a element) ∨
      (∃ base, env.parent? a = some base ∧ env.isSubtype base b) := by
  rw [acyclic.isSubtype_eq]
  cases hb' : env.elements? b <;> cases ha' : env.parent? a <;>
    simp [subtypeStep, ha, hea, hb, hb', ha']

/-- A type is below whatever its base is below. -/
theorem isSubtype_of_parent {a b base : String} (h : env.parent? a = some base)
    (hsub : env.isSubtype base b) : env.isSubtype a b := by
  cases hb : env.target? b with
  | none =>
      rw [acyclic.isSubtype_leaf_iff (target?_of_parent? h) (elements?_of_parent? h) hb]
      exact .inr (.inr ⟨base, h, hsub⟩)
  | some next =>
      have lower : env.height next < env.height b := acyclic.height_lt (.inl hb)
      rw [acyclic.isSubtype_alias_right hb] at hsub ⊢
      exact isSubtype_of_parent h hsub
termination_by env.height b

/-- A union with elements is below whatever all of them are below. -/
theorem isSubtype_of_elements {a b : String} {elements : List String}
    (h : env.elements? a = some elements)
    (hne : elements ≠ []) (hsub : ∀ element ∈ elements, env.isSubtype element b) :
    env.isSubtype a b := by
  cases hb : env.target? b with
  | none => exact (acyclic.isSubtype_union_iff h hb).mpr (.inr ⟨hne, hsub⟩)
  | some next =>
      have lower : env.height next < env.height b := acyclic.height_lt (.inl hb)
      rw [acyclic.isSubtype_alias_right hb]
      refine isSubtype_of_elements h hne fun element helement => ?_
      exact acyclic.isSubtype_of_alias hb (hsub element helement)
termination_by env.height b

/-! ### Transitivity -/

theorem isSubtype_trans {a b c : String} (hab : env.isSubtype a b) (hbc : env.isSubtype b c) :
    env.isSubtype a c := by
  -- aliases first, wherever they stand
  cases ta : env.target? a with
  | some target =>
      have := acyclic.height_lt (.inl ta)
      rw [acyclic.isSubtype_alias_left ta] at hab ⊢
      exact isSubtype_trans hab hbc
  | none =>
  cases tc : env.target? c with
  | some target =>
      have := acyclic.height_lt (.inl tc)
      rw [acyclic.isSubtype_alias_right tc] at hbc ⊢
      exact isSubtype_trans hab hbc
  | none =>
  cases tb : env.target? b with
  | some target =>
      have := acyclic.height_lt (.inl tb)
      rw [acyclic.isSubtype_alias_right tb] at hab
      rw [acyclic.isSubtype_alias_left tb] at hbc
      exact isSubtype_trans hab hbc
  | none =>
  -- then a union on the left, then one in the middle
  cases ea : env.elements? a with
  | some elements =>
      rcases (acyclic.isSubtype_union_iff ea tb).mp hab with rfl | ⟨hne, hall⟩
      · exact hbc
      · refine acyclic.isSubtype_of_elements ea hne fun element helement => ?_
        have := acyclic.height_lt (.inr (.inl ⟨elements, ea, helement⟩))
        exact isSubtype_trans (hall element helement) hbc
  | none =>
  rcases (acyclic.isSubtype_leaf_iff ta ea tb).mp hab with
    rfl | ⟨elements, eb, element, helement, hsub⟩ | ⟨base, hbase, hsub⟩
  · exact hbc
  · have := acyclic.height_lt (.inr (.inl ⟨elements, eb, helement⟩))
    rcases (acyclic.isSubtype_union_iff eb tc).mp hbc with rfl | ⟨-, hall⟩
    · exact hab
    · exact isSubtype_trans hsub (hall element helement)
  · have := acyclic.height_lt (.inr (.inr hbase))
    exact acyclic.isSubtype_of_parent hbase (isSubtype_trans hsub hbc)
termination_by env.height a + env.height b + env.height c

end Acyclic

/-! ### Primitive kinds -/

section PrimitiveKinds

variable {name low high : String} {kind : Kind}

theorem exists_constant_of_primitive (h : kind ∈ Kind.primitives) :
    ∃ constant, constantName? kind = some constant := by
  cases kind <;> simp_all [Kind.primitives, constantName?]

theorem primitive_of_constantName? (h : constantName? kind = some name) :
    kind ∈ Kind.primitives := by
  cases kind <;> simp_all [Kind.primitives, constantName?]

theorem isOfKind_iff {constant : String} (h : constantName? kind = some constant) :
    env.isOfKind name kind ↔ env.isSubtype name constant := by
  cases kind <;> simp_all [isOfKind, constantName?]

/-- What is below a type of a primitive kind is of that kind. -/
theorem Acyclic.isOfKind_down (acyclic : env.Acyclic) (hkind : kind ∈ Kind.primitives)
    (hsub : env.isSubtype low high) (h : env.isOfKind high kind) : env.isOfKind low kind := by
  obtain ⟨constant, hconstant⟩ := exists_constant_of_primitive hkind
  rw [isOfKind_iff hconstant] at h ⊢
  exact acyclic.isSubtype_trans hsub h

end PrimitiveKinds

end TypeEnv

end DatalogTyping

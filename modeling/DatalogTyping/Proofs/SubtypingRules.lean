import DatalogTyping.Proofs.Subtyping

/-!
# The rules of subtyping

What being below another type means, as rules that may be applied in any order
(`Derives`): identity, the base of a subset type, the target of an alias on either
side, an element of a union on the right, all elements of a union on the left.

`isSubtype` commits to one rule for each pair of types: it resolves aliases first,
those on the left before those on the right, then takes a union on the left apart,
and so on, and never goes back on a choice. In an environment without cycles in which
every union has an element no derivation is lost by that (`isSubtype_iff_derives`).

* Every answer is a derivation: the steps of the walk are rules.
* Every rule is an answer. Only a union on the right takes work, because the walk
  may have to take the left side apart before it looks at elements at all.

A union without elements is below nothing but itself, although all of its elements
are below everything. For the preorder such unions make no difference.
-/

namespace DatalogTyping

namespace TypeEnv

variable {env : TypeEnv} {a b : String}

/-- One type is below another by the rules of subtyping. -/
inductive Derives (env : TypeEnv) : String → String → Prop
  /-- Every type is below itself. -/
  | same (a : String) : Derives env a a
  /-- A subset type is below whatever its base is below. -/
  | subset {a b base : String} (h : env.parent? a = some base) (below : Derives env base b) :
      Derives env a b
  /-- An alias is below whatever its target is below. -/
  | aliasBelow {a b target : String} (h : env.target? a = some target)
      (below : Derives env target b) : Derives env a b
  /-- An alias is above whatever its target is above. -/
  | aliasAbove {a b target : String} (h : env.target? b = some target)
      (below : Derives env a target) : Derives env a b
  /-- What is below an element is below the union. -/
  | intoUnion {a b element : String} {elements : List String}
      (h : env.elements? b = some elements) (mem : element ∈ elements)
      (below : Derives env a element) : Derives env a b
  /-- A union is below whatever all of its elements are below. -/
  | ofUnion {a b : String} {elements : List String} (h : env.elements? a = some elements)
      (below : ∀ element ∈ elements, Derives env element b) : Derives env a b

/-- Every union has an element. -/
def UnionsInhabited (env : TypeEnv) : Prop :=
  ∀ name elements, env.elements? name = some elements → elements ≠ []

theorem unionsInhabited_of_names
    (h : ∀ name ∈ env.names, ∀ elements ∈ env.elements? name, elements ≠ []) :
    env.UnionsInhabited := by
  intro name elements helements
  refine h name (mem_names_iff.mpr ?_) elements helements
  simp [isType, elements?_eq_some.mp helements]

namespace Acyclic

variable (acyclic : env.Acyclic)

include acyclic

/-! ### Answers are derivations -/

theorem derives_of_isSubtype {a b : String} (h : env.isSubtype a b) : env.Derives a b := by
  cases ta : env.target? a with
  | some target =>
      have := acyclic.height_lt (.inl ta)
      exact .aliasBelow ta (derives_of_isSubtype ((acyclic.isSubtype_alias_left ta).mp h))
  | none =>
  cases tb : env.target? b with
  | some target =>
      have := acyclic.height_lt (.inl tb)
      exact .aliasAbove tb (derives_of_isSubtype ((acyclic.isSubtype_alias_right tb).mp h))
  | none =>
  cases ea : env.elements? a with
  | some elements =>
      rcases (acyclic.isSubtype_union_iff ea tb).mp h with rfl | ⟨-, hall⟩
      · exact .same a
      · refine .ofUnion ea fun element helement => ?_
        have := acyclic.height_lt (.inr (.inl ⟨elements, ea, helement⟩))
        exact derives_of_isSubtype (hall element helement)
  | none =>
  rcases (acyclic.isSubtype_leaf_iff ta ea tb).mp h with
    rfl | ⟨elements, eb, element, helement, hsub⟩ | ⟨base, hbase, hsub⟩
  · exact .same a
  · have := acyclic.height_lt (.inr (.inl ⟨elements, eb, helement⟩))
    exact .intoUnion eb helement (derives_of_isSubtype hsub)
  · have := acyclic.height_lt (.inr (.inr hbase))
    exact .subset hbase (derives_of_isSubtype hsub)
termination_by env.height a + env.height b

/-! ### Rules are answers -/

/-- What is below an element is below the union. The induction is along the left side,
which the walk takes apart first. -/
theorem isSubtype_of_element (inhabited : env.UnionsInhabited) {a b element : String}
    {elements : List String} (hb : env.elements? b = some elements) (mem : element ∈ elements)
    (hsub : env.isSubtype a element) : env.isSubtype a b := by
  cases ta : env.target? a with
  | some target =>
      have := acyclic.height_lt (.inl ta)
      rw [acyclic.isSubtype_alias_left ta] at hsub ⊢
      exact isSubtype_of_element inhabited hb mem hsub
  | none =>
  cases ea : env.elements? a with
  | some parts =>
      refine acyclic.isSubtype_of_elements ea (inhabited a parts ea) fun part hpart => ?_
      have := acyclic.height_lt (.inr (.inl ⟨parts, ea, hpart⟩))
      -- the parts of the left side are below it, by the same argument
      have own : env.isSubtype part a :=
        isSubtype_of_element inhabited ea hpart (env.isSubtype_refl part)
      exact isSubtype_of_element inhabited hb mem (acyclic.isSubtype_trans own hsub)
  | none =>
      rw [acyclic.isSubtype_leaf_iff ta ea (target?_of_elements? hb)]
      exact .inr (.inl ⟨elements, hb, element, mem, hsub⟩)
termination_by env.height a

theorem isSubtype_of_derives (inhabited : env.UnionsInhabited) (h : env.Derives a b) :
    env.isSubtype a b := by
  induction h with
  | same a => exact env.isSubtype_refl a
  | subset h _ ih => exact acyclic.isSubtype_of_parent h ih
  | aliasBelow h _ ih => exact (acyclic.isSubtype_alias_left h).mpr ih
  | aliasAbove h _ ih => exact (acyclic.isSubtype_alias_right h).mpr ih
  | intoUnion h mem _ ih => exact acyclic.isSubtype_of_element inhabited h mem ih
  | ofUnion h _ ih => exact acyclic.isSubtype_of_elements h (inhabited _ _ h) ih

/-! ### The relation as a whole -/

/-- Subtyping is reflexive and transitive, and does not tell an alias from its
target. -/
theorem isSubtype_preorder :
    (∀ a, env.isSubtype a a) ∧
    (∀ a b c, env.isSubtype a b → env.isSubtype b c → env.isSubtype a c) ∧
    ∀ name target, env.target? name = some target → ∀ other,
      env.isSubtype name other = env.isSubtype target other ∧
      env.isSubtype other name = env.isSubtype other target := by
  refine ⟨env.isSubtype_refl, fun a b c => acyclic.isSubtype_trans, ?_⟩
  intro name target h other
  exact ⟨Bool.eq_iff_iff.mpr (acyclic.isSubtype_alias_left h),
    Bool.eq_iff_iff.mpr (acyclic.isSubtype_alias_right h)⟩

end Acyclic

/-- Even numbers and an alias of these, a union of them with the symbols, a subset of
that union, a larger union and an alias of it. -/
def layeredEnv : TypeEnv :=
  ⟨builtIn.entries ++ [("even", .subset "number"), ("paired", .synonym "even"),
    ("scalar", .union ["paired", "symbol"]), ("chosen", .subset "scalar"),
    ("wide", .union ["float", "scalar"]), ("broad", .synonym "wide")]⟩

/-- The same with a union that has no elements, and an alias of it. -/
def hollowEnv : TypeEnv :=
  ⟨layeredEnv.entries ++ [("void", .union []), ("nothing", .synonym "void")]⟩

/-- A subset of a union is below an alias of a larger union by way of its base, and the
alias of the union without elements is no more below that than its target. -/
theorem isSubtype_preorder_hollowEnv :
    hollowEnv.isSubtype "chosen" "scalar" ∧ hollowEnv.isSubtype "scalar" "broad" ∧
      hollowEnv.isSubtype "chosen" "broad" ∧
      hollowEnv.isSubtype "nothing" "broad" = hollowEnv.isSubtype "void" "broad" := by
  have acyclic : hollowEnv.Acyclic := acyclic_of_ordered (by decide)
  obtain ⟨-, transitive, interchange⟩ := acyclic.isSubtype_preorder
  have lower : hollowEnv.isSubtype "chosen" "scalar" := by decide +kernel
  have upper : hollowEnv.isSubtype "scalar" "broad" := by decide +kernel
  exact ⟨lower, upper, transitive _ _ _ lower upper,
    (interchange "nothing" "void" (by decide) "broad").1⟩

/-- If every union has an element, the types below another are exactly those that are
below it by the rules. -/
theorem Acyclic.isSubtype_iff_derives (acyclic : env.Acyclic) (inhabited : env.UnionsInhabited)
    (a b : String) : env.isSubtype a b = true ↔ env.Derives a b :=
  ⟨acyclic.derives_of_isSubtype, acyclic.isSubtype_of_derives inhabited⟩

/-- The walk finds the way from a subset of a union into a larger union, and where it
finds none there is no derivation. -/
theorem isSubtype_iff_derives_layeredEnv :
    layeredEnv.UnionsInhabited ∧ layeredEnv.Derives "chosen" "broad" ∧
      ¬ layeredEnv.Derives "broad" "scalar" := by
  have acyclic : layeredEnv.Acyclic := acyclic_of_ordered (by decide)
  have inhabited : layeredEnv.UnionsInhabited := unionsInhabited_of_names (by decide)
  have decides := acyclic.isSubtype_iff_derives inhabited
  exact ⟨inhabited, (decides "chosen" "broad").mp (by decide +kernel),
    mt (decides "broad" "scalar").mpr (by decide +kernel)⟩

end TypeEnv

end DatalogTyping

import Mathlib.Algebra.Order.BigOperators.Group.List
import Mathlib.Algebra.Order.Ring.Nat
import DatalogTyping.Proofs.Effects
import DatalogTyping.Proofs.Rounds

/-!
# How sets of types narrow

A set of types does not only lose members. A meet may replace a type by several
lower ones, so neither the number of members nor the set of members decreases.
What does decrease, for a meet, is the cone of all types below a member, or else
the cone stays and the set grows within it. The `weight` of a set counts both.

A filter decreases the weight as long as no type that it drops is below one that
it keeps. Tests for records can violate this: a subset type of a record is below
it but is no record. `DropsBelow` says that a constraint is about to do so, and
any update that does not do so decreases the weight of the assignment if it
changes anything (`update_totalWeight`).
-/

namespace DatalogTyping

/-! ### Narrowing a set -/

/-- The second set consists of types below members of the first, and has every
member of the first that is below one of its own. -/
def TypeSet.Narrows (env : TypeEnv) : TypeSet → TypeSet → Prop
  | .all, _ => True
  | .only _, .all => False
  | .only names, .only others =>
    (∀ low ∈ others, ∃ name ∈ names, env.isSubtype low name) ∧
      ∀ name ∈ names, ∀ other ∈ others, env.isSubtype name other → name ∈ others

namespace Constraint

variable {env : TypeEnv} {A : Assignment}

/-- The test of the constraint drops a type although it keeps one above it. -/
def DropsBelow (env : TypeEnv) (A : Assignment) (constraint : Constraint) : Prop :=
  ∃ var keep names, constraint.test? env = some (var, keep) ∧ A var = .only names ∧
    ∃ dropped ∈ names, ∃ kept ∈ names,
      env.isSubtype dropped kept ∧ keep kept = true ∧ keep dropped = false

theorem Effect.narrows (acyclic : env.Acyclic) {constraint : Constraint} {var : TypeVar}
    {after : TypeSet} (effect : Effect env A constraint var (A var) after)
    (tidy : ¬ constraint.DropsBelow env A) : (A var).Narrows env after := by
  generalize hvar : A var = before at effect
  cases effect with
  | @met _ others known =>
      rcases before with _ | types
      · trivial
      rcases others with _ | others
      · exact ⟨fun low hlow => ⟨low, hlow, env.isSubtype_refl low⟩, fun name hname _ _ _ => hname⟩
      refine ⟨fun low hlow => (acyclic.exists_above_of_mem_commonNames hlow).1, ?_⟩
      -- a member below a common subtype is below the other side, and stays as it is
      intro name hname common hcommon hsub
      obtain ⟨bound, hbound, hcommon⟩ := (acyclic.exists_above_of_mem_commonNames hcommon).2
      exact TypeEnv.mem_commonNames_of_isSubtype hname hbound
        (acyclic.isSubtype_trans hsub hcommon)
  | @kept names keep down =>
      refine ⟨fun low hlow => ⟨low, (Names.mem_filter.mp hlow).1, env.isSubtype_refl low⟩, ?_⟩
      intro name hname other hother hsub
      exact Names.mem_filter.mpr ⟨hname, down hsub (Names.mem_filter.mp hother).2⟩
  | @tested names keep test =>
      refine ⟨fun low hlow => ⟨low, (Names.mem_filter.mp hlow).1, env.isSubtype_refl low⟩, ?_⟩
      intro name hname other hother hsub
      obtain ⟨hother, hkeep⟩ := Names.mem_filter.mp hother
      refine Names.mem_filter.mpr ⟨hname, ?_⟩
      by_contra hdropped
      exact tidy ⟨var, keep, names, test, hvar, name, hname, other, hother, hsub, hkeep,
        by simpa using hdropped⟩

end Constraint

/-! ### Weights -/

namespace TypeEnv

variable {env : TypeEnv}

/-- The types below a member of the set. -/
def cone (env : TypeEnv) (names : Names) : Finset String :=
  env.names.toFinset.filter fun name => env.isBelowOne names name

/-- A measure of how much a set of types can still be narrowed. -/
def weight (env : TypeEnv) : TypeSet → Nat
  | .all => 2 * env.size + 1
  | .only names => 2 * (env.cone names).card - names.toList.toFinset.card

theorem mem_cone {names : Names} {name : String} :
    name ∈ env.cone names ↔ env.isType name ∧ ∃ upper ∈ names, env.isSubtype name upper := by
  simp [cone, isBelowOne, mem_names_iff]

theorem card_cone_le (env : TypeEnv) (names : Names) : (env.cone names).card ≤ env.size := by
  refine (Finset.card_filter_le _ _).trans ?_
  exact (List.toFinset_card_le _).trans (length_names env).le

theorem toFinset_subset_cone {names : Names} (known : (TypeSet.only names).Known env) :
    names.toList.toFinset ⊆ env.cone names := by
  intro name hname
  have hname : name ∈ names := by simpa using hname
  exact mem_cone.mpr ⟨known name hname, name, hname, env.isSubtype_refl name⟩

/-- Narrowing a set decreases its weight, if it makes any difference. -/
theorem weight_lt (acyclic : env.Acyclic) {before after : TypeSet}
    (hbefore : before.Known env) (hafter : after.Known env) (narrows : before.Narrows env after)
    (differs : after ≠ before) : env.weight after < env.weight before := by
  rcases before with _ | names
  · rcases after with _ | others
    · exact absurd rfl differs
    · have := card_cone_le env others
      simp only [weight]
      omega
  rcases after with _ | others
  · exact narrows.elim
  obtain ⟨below, keeps⟩ := narrows
  -- what is lost from the set is lost from the cone as well
  have lost : env.cone others ∪ (names.toList.toFinset \ others.toList.toFinset) ⊆
      env.cone names := by
    refine Finset.union_subset ?_ (Finset.sdiff_subset.trans (toFinset_subset_cone hbefore))
    intro name hname
    obtain ⟨htype, upper, hupper, hsub⟩ := mem_cone.mp hname
    obtain ⟨top, htop, habove⟩ := below upper hupper
    exact mem_cone.mpr ⟨htype, top, htop, acyclic.isSubtype_trans hsub habove⟩
  have apart : Disjoint (env.cone others) (names.toList.toFinset \ others.toList.toFinset) := by
    rw [Finset.disjoint_left]
    intro name hname hlost
    obtain ⟨-, upper, hupper, hsub⟩ := mem_cone.mp hname
    simp only [Finset.mem_sdiff, List.mem_toFinset, Names.mem_toList] at hlost
    exact hlost.2 (keeps name hlost.1 upper hupper hsub)
  have hlost := Finset.card_le_card lost
  rw [Finset.card_union_of_disjoint apart] at hlost
  have hsplit := Finset.card_le_card_sdiff_add_card (s := names.toList.toFinset)
    (t := others.toList.toFinset)
  have hnames := Finset.card_le_card (toFinset_subset_cone hbefore)
  have hothers := Finset.card_le_card (toFinset_subset_cone hafter)
  simp only [weight]
  rcases Nat.eq_zero_or_pos (names.toList.toFinset \ others.toList.toFinset).card with
    hzero | hpos
  · -- nothing is lost, so the set has grown
    have grown : names.toList.toFinset.card < others.toList.toFinset.card := by
      apply Finset.card_lt_card
      rw [Finset.card_eq_zero, Finset.sdiff_eq_empty_iff_subset] at hzero
      refine hzero.ssubset_of_ne fun same => differs ?_
      rw [TypeSet.only.injEq]
      refine Names.ext_mem fun name => ?_
      simpa using (Finset.ext_iff.mp same name).symm
    omega
  · omega

end TypeEnv

/-! ### Weights of assignments -/

/-- The weights of the given variables together. -/
def Assignment.totalWeight (env : TypeEnv) (vars : List TypeVar) (A : Assignment) : Nat :=
  (vars.map fun var => env.weight (A var)).sum

namespace Constraint

variable {env : TypeEnv} {A : Assignment}

theorem update_weight_le (acyclic : env.Acyclic) (complete : env.Complete)
    {constraint : Constraint} (proper : constraint.Proper env)
    (known : ∀ var, (A var).Known env) (tidy : ¬ constraint.DropsBelow env A) (var : TypeVar) :
    env.weight ((constraint.update env A).assignment var) ≤ env.weight (A var) ∧
      ((constraint.update env A).assignment var ≠ A var →
        env.weight ((constraint.update env A).assignment var) < env.weight (A var)) := by
  have falls : (constraint.update env A).assignment var ≠ A var →
      env.weight ((constraint.update env A).assignment var) < env.weight (A var) :=
    TypeEnv.weight_lt acyclic (known var) (update_known acyclic complete proper.namesTypes known var)
      ((update_effect acyclic constraint var).narrows acyclic tidy)
  refine ⟨?_, falls⟩
  by_cases same : (constraint.update env A).assignment var = A var
  · rw [same]
  · exact (falls same).le

/-- An update that drops no type below one that it keeps takes away from the
weight of an assignment whatever it changes. -/
theorem update_totalWeight (acyclic : env.Acyclic) (complete : env.Complete)
    {constraint : Constraint} (proper : constraint.Proper env)
    (known : ∀ var, (A var).Known env) (tidy : ¬ constraint.DropsBelow env A)
    {vars : List TypeVar} (mentioned : ∀ var ∈ constraint.vars, var ∈ vars) :
    (constraint.update env A).assignment.totalWeight env vars ≤ A.totalWeight env vars ∧
      ((constraint.update env A).changed →
        (constraint.update env A).assignment.totalWeight env vars < A.totalWeight env vars) := by
  have falls := update_weight_le acyclic complete proper known tidy
  refine ⟨List.sum_le_sum fun var _ => (falls var).1, fun changed => ?_⟩
  -- a reported change is a change of some variable of the constraint
  obtain ⟨var, hvar⟩ : ∃ var, (constraint.update env A).assignment var ≠ A var := by
    by_contra none
    have same : (constraint.update env A).assignment = A :=
      funext fun var => by_contra fun hne => none ⟨var, hne⟩
    rw [update_reports proper.separate same] at changed
    cases changed
  have hmentioned : var ∈ vars := by
    by_contra hnot
    exact hvar (update_frame fun hmem => hnot (mentioned var hmem))
  exact List.sum_lt_sum _ _ (fun other _ => (falls other).1) ⟨var, hmentioned, (falls var).2 hvar⟩

end Constraint

end DatalogTyping

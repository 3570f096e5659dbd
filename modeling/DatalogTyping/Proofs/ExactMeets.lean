import DatalogTyping.Proofs.Questions
import DatalogTyping.Proofs.SubtypingRules

/-!
# Meets are exact

`commonSubtypes` looks for the lower of two types, and if neither is below the other
for the lower ones among the pairs of types that the two consist of. That loses no
common subtype whose own way up meets no union (`commonSubtypes_exact`).

The way up from such a type is a chain, and it has to pass through whatever the type
is below: through one of the elements of a union (`exists_element_above`), hence
through one of the leaves (`exists_leaf_above`), and through a leaf itself
(`reaches_of_isSubtype`). So a type below both of two types has a leaf of each on its
way up, and of two types on one way up one is below the other.
-/

namespace DatalogTyping

namespace TypeEnv

variable {env : TypeEnv} {a b c : String}

/-! ### Types whose way up meets no union -/

/-- Neither an alias nor carved from another type, and no union either. -/
def IsGround (env : TypeEnv) (name : String) : Prop :=
  (∃ kind, env.find? name = some (.constant kind)) ∨
  (∃ fields, env.find? name = some (.record fields)) ∨
  ∃ branches, env.find? name = some (.adt branches)

/-- The way up, along the targets of aliases and the bases of subset types, leads to a
constant type, a record or a sum type. A union has no way up, so it meets none. -/
def Grounded (env : TypeEnv) (name : String) : Prop :=
  ∃ root, env.Reaches name root ∧ env.IsGround root

theorem IsGround.elements?_eq_none (h : env.IsGround a) : env.elements? a = none := by
  rcases h with ⟨_, h⟩ | ⟨_, h⟩ | ⟨_, h⟩ <;> simp [elements?, h]

theorem IsGround.next?_eq_none (h : env.IsGround a) : env.next? a = none := by
  rcases h with ⟨_, h⟩ | ⟨_, h⟩ | ⟨_, h⟩
  · exact next?_of_constant h
  · exact next?_of_record h
  · exact next?_of_adt h

/-- One step up from a grounded type is a grounded type. -/
theorem Grounded.next (grounded : env.Grounded a) (h : env.next? a = some b) :
    env.Grounded b := by
  obtain ⟨root, up, ground⟩ := grounded
  rcases Relation.ReflTransGen.cases_head up with rfl | ⟨other, link, up⟩
  · rw [ground.next?_eq_none] at h
    cases h
  · obtain rfl := leads_rightUnique env.next? link h
    exact ⟨root, up, ground⟩

theorem Grounded.elements?_eq_none (grounded : env.Grounded a) : env.elements? a = none := by
  obtain ⟨root, up, ground⟩ := grounded
  cases h : env.elements? a with
  | none => rfl
  | some elements =>
      have stuck : env.next? a = none := by
        rw [next?_of_not_alias (target?_of_elements? h)]
        simp [parent?, elements?_eq_some.mp h, TypeDef.base?]
      obtain rfl := eq_of_leads_of_end up stuck
      cases ground.elements?_eq_none.symm.trans h

namespace Acyclic

variable (acyclic : env.Acyclic)

include acyclic

/-! ### What is on the way up -/

/-- A grounded type that is below a union is below one of its elements. -/
theorem exists_element_above {c : String} (grounded : env.Grounded c) {elements : List String}
    (ha : env.elements? a = some elements) (h : env.isSubtype c a) :
    ∃ element ∈ elements, env.isSubtype c element := by
  cases tc : env.target? c with
  | some target =>
      have := acyclic.height_lt (.inl tc)
      rw [acyclic.isSubtype_alias_left tc] at h
      obtain ⟨element, mem, hsub⟩ :=
        exists_element_above (grounded.next (next?_of_target? tc)) ha h
      exact ⟨element, mem, (acyclic.isSubtype_alias_left tc).mpr hsub⟩
  | none =>
  rcases (acyclic.isSubtype_leaf_iff tc grounded.elements?_eq_none
      (target?_of_elements? ha)).mp h with
    rfl | ⟨others, hothers, element, mem, hsub⟩ | ⟨base, hbase, hsub⟩
  · cases grounded.elements?_eq_none.symm.trans ha
  · obtain rfl := Option.some.inj (ha.symm.trans hothers)
    exact ⟨element, mem, hsub⟩
  · have := acyclic.height_lt (.inr (.inr hbase))
    have link : env.next? c = some base := by rw [next?_of_not_alias tc, hbase]
    obtain ⟨element, mem, hsub⟩ := exists_element_above (grounded.next link) ha hsub
    exact ⟨element, mem, acyclic.isSubtype_of_parent hbase hsub⟩
termination_by env.height c

/-- A grounded type that is below a leaf has it on its way up. -/
theorem reaches_of_isSubtype {c : String} (grounded : env.Grounded c)
    (plain : env.target? a = none) (leaf : env.elements? a = none) (h : env.isSubtype c a) :
    env.Reaches c a := by
  cases tc : env.target? c with
  | some target =>
      have := acyclic.height_lt (.inl tc)
      have link := next?_of_target? tc
      rw [acyclic.isSubtype_alias_left tc] at h
      exact (reaches_of_isSubtype (grounded.next link) plain leaf h).head link
  | none =>
  rcases (acyclic.isSubtype_leaf_iff tc grounded.elements?_eq_none plain).mp h with
    rfl | ⟨others, hothers, -⟩ | ⟨base, hbase, hsub⟩
  · exact .refl
  · cases leaf.symm.trans hothers
  · have := acyclic.height_lt (.inr (.inr hbase))
    have link : env.next? c = some base := by rw [next?_of_not_alias tc, hbase]
    exact (reaches_of_isSubtype (grounded.next link) plain leaf hsub).head link
termination_by env.height c

/-! ### Leaves -/

/-- Without cycles, every alias can be resolved. -/
theorem exists_standsFor (a : String) :
    ∃ root, env.StandsFor a root ∧ env.target? root = none ∧ env.height root ≤ env.height a := by
  cases ta : env.target? a with
  | none => exact ⟨a, .refl, ta, le_rfl⟩
  | some target =>
      have lower := acyclic.height_lt (.inl ta)
      obtain ⟨root, path, plain, hle⟩ := exists_standsFor target
      exact ⟨root, path.head ta, plain, hle.trans lower.le⟩
termination_by env.height a

theorem leaves_eq_ok (a : String) : ∃ leaves, env.leaves a = .ok leaves := by
  refine leavesIn_eq_ok (P := fun _ => True) (fun name _ => ?_) _ trivial
  obtain ⟨root, path, plain, -⟩ := acyclic.exists_standsFor name
  exact ⟨root, skipAliases_of_standsFor path plain, fun _ _ _ _ => trivial⟩

/-- A grounded type that is below another is below one of its leaves, if the bound
leaves room for listing these. -/
theorem exists_mem_leavesIn_above (grounded : env.Grounded c) {bound : Nat} {name : String}
    {leaves : List String} (room : env.height name < bound)
    (hleaves : env.leavesIn bound name = .ok leaves) (h : env.isSubtype c name) :
    ∃ leaf ∈ leaves, env.isSubtype c leaf := by
  induction bound generalizing name leaves with
  | zero => omega
  | succ bound ih =>
      obtain ⟨root, path, plain, hle⟩ := acyclic.exists_standsFor name
      rw [leavesIn, skipAliases_of_standsFor path plain] at hleaves
      rw [acyclic.isSubtype_standsFor_right path] at h
      cases hroot : env.elements? root with
      | none =>
          obtain rfl : [root] = leaves := by
            unfold elements? at hroot
            split at hroot
            · cases hroot
            · simpa [bind, Except.bind, pure, Except.pure] using hleaves
          exact ⟨root, List.mem_singleton_self root, h⟩
      | some elements =>
          simp only [bind, Except.bind, elements?_eq_some.mp hroot] at hleaves
          obtain ⟨parts, hparts, hleaves⟩ := bind_eq_ok.mp hleaves
          obtain rfl : parts.flatten = leaves := Except.ok.inj hleaves
          obtain ⟨element, mem, hsub⟩ := acyclic.exists_element_above grounded hroot h
          obtain ⟨part, hpart, hlisted⟩ :=
            exists_mem_of_forall₂ (forall₂_of_mapM_ok hparts) mem
          have lower := acyclic.height_lt (.inr (.inl ⟨elements, hroot, mem⟩))
          obtain ⟨leaf, hleaf, habove⟩ := ih (by omega) hlisted hsub
          exact ⟨leaf, List.mem_flatten.mpr ⟨part, hpart, hleaf⟩, habove⟩

theorem exists_leaf_above (grounded : env.Grounded c) (h : env.isSubtype c a)
    {leaves : List String} (hleaves : env.leaves a = .ok leaves) :
    ∃ leaf ∈ leaves, env.Reaches c leaf := by
  have room : env.height a < env.size + 2 := by
    have := env.height_le_size a
    omega
  obtain ⟨leaf, mem, hsub⟩ := acyclic.exists_mem_leavesIn_above grounded room hleaves h
  obtain ⟨plain, alone, -⟩ := acyclic.isSubtype_of_mem_leavesIn hleaves mem
  exact ⟨leaf, mem, acyclic.reaches_of_isSubtype grounded plain alone hsub⟩

/-! ### Common subtypes -/

/-- A grounded type below two others is below something that these have in common. -/
theorem exists_common_above (grounded : env.Grounded c) (ha : env.isSubtype c a)
    (hb : env.isSubtype c b) : ∃ common ∈ env.commonSubtypes a b, env.isSubtype c common := by
  unfold commonSubtypes
  cases hlow : env.lower? a b with
  | some low =>
      refine ⟨low, by simp, ?_⟩
      rcases lower?_eq_some hlow with ⟨rfl, -⟩ | ⟨rfl, -⟩
      · exact ha
      · exact hb
  | none =>
      obtain ⟨as, has⟩ := acyclic.leaves_eq_ok a
      obtain ⟨bs, hbs⟩ := acyclic.leaves_eq_ok b
      obtain ⟨x, hx, toX⟩ := acyclic.exists_leaf_above grounded ha has
      obtain ⟨y, hy, toY⟩ := acyclic.exists_leaf_above grounded hb hbs
      -- both leaves are on the one way up, so one of them is below the other
      obtain ⟨low, hlower, below⟩ : ∃ low, env.lower? x y = some low ∧ env.Reaches c low := by
        unfold lower?
        by_cases hxy : env.isSubtype x y
        · exact ⟨x, by simp [hxy], toX⟩
        · rcases Relation.ReflTransGen.total_of_right_unique (leads_rightUnique env.next?) toX
            toY with up | up
          · exact absurd (acyclic.isSubtype_of_reaches up) hxy
          · exact ⟨y, by simp [hxy, acyclic.isSubtype_of_reaches up], toY⟩
      refine ⟨low, ?_, acyclic.isSubtype_of_reaches below⟩
      simp only [has, hbs, lowerOf, Names.mem_ofList, List.mem_flatMap, List.mem_filterMap]
      exact ⟨x, hx, y, hy, hlower⟩

theorem isSubtype_both_iff (grounded : env.Grounded c) :
    (env.isSubtype c a ∧ env.isSubtype c b) ↔
      ∃ common ∈ env.commonSubtypes a b, env.isSubtype c common := by
  constructor
  · rintro ⟨ha, hb⟩
    exact acyclic.exists_common_above grounded ha hb
  · rintro ⟨common, hcommon, hsub⟩
    obtain ⟨ha, hb⟩ := acyclic.isSubtype_of_mem_commonSubtypes hcommon
    exact ⟨acyclic.isSubtype_trans hsub ha, acyclic.isSubtype_trans hsub hb⟩

/-- Where no alias lacks its target, the greatest common subtypes can be named. -/
theorem askCommonSubtypes_eq (targeted : ∀ name, ¬ env.LinksTo name noType)
    (ha : a ≠ noType) (hb : b ≠ noType) :
    env.askCommonSubtypes a b = .ok (env.commonSubtypes a b) := by
  obtain ⟨as, has⟩ := acyclic.leaves_eq_ok a
  obtain ⟨bs, hbs⟩ := acyclic.leaves_eq_ok b
  have apart : ∀ {name}, name ≠ noType → ¬ Relation.ReflTransGen env.LinksTo name noType := by
    intro name hname path
    rcases Relation.ReflTransGen.cases_tail path with h | ⟨last, -, link⟩
    · exact hname h.symm
    · exact targeted last link
  refine askCommonSubtypes_eq_ok has hbs fun hmem => ?_
  exact (linked_of_mem_commonSubtypes hmem).elim (apart ha) (apart hb)

end Acyclic

/-! ### Meets -/

/-- A type is below a set of types: that is the set of all types, or it has a member
above. -/
def IsBelowSet (env : TypeEnv) (name : String) (types : TypeSet) : Prop :=
  types = .all ∨ ∃ upper ∈ types, env.isSubtype name upper

@[simp] theorem isBelowSet_all : env.IsBelowSet a .all := .inl rfl

@[simp] theorem isBelowSet_only {names : Names} :
    env.IsBelowSet a (.only names) ↔ ∃ upper ∈ names, env.isSubtype a upper := by
  simp [IsBelowSet]

theorem isBelowSet_of_mem {types : TypeSet} (h : a ∈ types) : env.IsBelowSet a types :=
  .inr ⟨a, h, env.isSubtype_refl a⟩

namespace Acyclic

variable (acyclic : env.Acyclic)

include acyclic

/-- The members of a meet are below both sets. -/
theorem isBelowSet_of_mem_meet {types others : TypeSet} (h : a ∈ env.meet types others) :
    env.IsBelowSet a types ∧ env.IsBelowSet a others := by
  cases types with
  | all => exact ⟨isBelowSet_all, isBelowSet_of_mem h⟩
  | only names =>
      cases others with
      | all =>
          rw [meet_all_right] at h
          exact ⟨isBelowSet_of_mem h, isBelowSet_all⟩
      | only names' =>
          rw [isBelowSet_only, isBelowSet_only]
          exact acyclic.exists_above_of_mem_commonNames (TypeSet.mem_only.mp h)

/-- A grounded type is below both sets exactly if it is below their meet. -/
theorem isBelowSet_meet_iff (grounded : env.Grounded c) {types others : TypeSet} :
    (env.IsBelowSet c types ∧ env.IsBelowSet c others) ↔
      env.IsBelowSet c (env.meet types others) := by
  cases types with
  | all => simp
  | only names =>
      cases others with
      | all => simp
      | only names' =>
          simp only [meet_only, isBelowSet_only, mem_commonNames]
          constructor
          · rintro ⟨⟨x, hx, hcx⟩, y, hy, hcy⟩
            obtain ⟨common, hcommon, hsub⟩ := acyclic.exists_common_above grounded hcx hcy
            exact ⟨common, ⟨x, hx, y, hy, hcommon⟩, hsub⟩
          · rintro ⟨common, ⟨x, hx, y, hy, hcommon⟩, hsub⟩
            obtain ⟨hcx, hcy⟩ :=
              (acyclic.isSubtype_both_iff grounded).mpr ⟨common, hcommon, hsub⟩
            exact ⟨⟨x, hx, hcx⟩, y, hy, hcy⟩

theorem askMeet_eq (targeted : ∀ name, ¬ env.LinksTo name noType) {types others : TypeSet}
    (named : types ≠ .all → noType ∉ types) (named' : others ≠ .all → noType ∉ others) :
    env.askMeet types others = .ok (env.meet types others) := by
  refine askMeet_eq_ok ?_
  rintro names names' rfl rfl x hx y hy
  refine acyclic.askCommonSubtypes_eq targeted ?_ ?_
  · rintro rfl
    exact named (by simp) (TypeSet.mem_only.mpr hx)
  · rintro rfl
    exact named' (by simp) (TypeSet.mem_only.mpr hy)

/-- What two types have in common is below both, and a type whose way up meets no union
is below both exactly if it is below something that they have in common. The same goes
for two sets of types. Where no alias lacks its target, the answers can be given. -/
theorem commonSubtypes_exact :
    (∀ a b,
      (∀ common ∈ env.commonSubtypes a b, env.isSubtype common a ∧ env.isSubtype common b) ∧
      ∀ c, env.Grounded c → ((env.isSubtype c a ∧ env.isSubtype c b) ↔
        ∃ common ∈ env.commonSubtypes a b, env.isSubtype c common)) ∧
    (∀ types others,
      (∀ common ∈ env.meet types others,
        env.IsBelowSet common types ∧ env.IsBelowSet common others) ∧
      ∀ c, env.Grounded c → ((env.IsBelowSet c types ∧ env.IsBelowSet c others) ↔
        env.IsBelowSet c (env.meet types others))) ∧
    ((∀ name, ¬ env.LinksTo name noType) →
      (∀ a b, a ≠ noType → b ≠ noType →
        env.askCommonSubtypes a b = .ok (env.commonSubtypes a b)) ∧
      ∀ types others : TypeSet, (types ≠ .all → noType ∉ types) →
        (others ≠ .all → noType ∉ others) →
        env.askMeet types others = .ok (env.meet types others)) := by
  refine ⟨fun a b => ⟨?_, ?_⟩, fun types others => ⟨?_, ?_⟩, fun targeted => ⟨?_, ?_⟩⟩
  · exact fun common => acyclic.isSubtype_of_mem_commonSubtypes
  · exact fun c grounded => acyclic.isSubtype_both_iff grounded
  · exact fun common => acyclic.isBelowSet_of_mem_meet
  · exact fun c grounded => acyclic.isBelowSet_meet_iff grounded
  · exact fun a b => acyclic.askCommonSubtypes_eq targeted
  · exact fun types others => acyclic.askMeet_eq targeted

end Acyclic

/-- Besides the union of the even numbers with the symbols there is one of all numbers,
neither of which is below the other. -/
def crossedEnv : TypeEnv :=
  ⟨layeredEnv.entries ++ [("metric", .union ["float", "number"])]⟩

/-- The two unions have the even numbers in common, and these are all that an alias of
them needs to be below both. -/
theorem commonSubtypes_exact_crossedEnv :
    crossedEnv.askCommonSubtypes "scalar" "metric" = .ok (.ofList ["even"]) ∧
      crossedEnv.Grounded "paired" ∧ crossedEnv.isSubtype "paired" "scalar" ∧
      crossedEnv.isSubtype "paired" "metric" := by
  have acyclic : crossedEnv.Acyclic := acyclic_of_ordered (by decide)
  obtain ⟨types, -, answers⟩ := acyclic.commonSubtypes_exact
  have targeted : ∀ name, ¬ crossedEnv.LinksTo name noType := by
    have absent : ∀ name ∈ crossedEnv.names, noType ∉ crossedEnv.links name := by decide
    exact fun name link =>
      absent name (mem_names_iff.mpr link.find?_isSome) (linksTo_iff_mem_links.mp link)
  have common : crossedEnv.commonSubtypes "scalar" "metric" = .ofList ["even"] := by
    decide +kernel
  have grounded : crossedEnv.Grounded "paired" := by
    refine ⟨"__numberConstant", ?_, .inl ⟨.signed, by decide⟩⟩
    have first : crossedEnv.next? "paired" = some "even" := by decide
    have second : crossedEnv.next? "even" = some "number" := by decide
    have third : crossedEnv.next? "number" = some "__numberConstant" := by decide
    exact .head first (.head second (.single third))
  refine ⟨?_, grounded, ((types "scalar" "metric").2 "paired" grounded).mpr ?_⟩
  · rw [← common]
    exact (answers targeted).1 "scalar" "metric" (by decide) (by decide)
  · exact ⟨"even", by simp [common], by decide +kernel⟩

end TypeEnv

end DatalogTyping

import DatalogTyping.Proofs.Subtyping

/-!
# Greatest common subtypes

The members of `commonSubtypes a b` are below both `a` and `b`: they are one of
the two, or the lower one of two types that they consist of. If one of the two
types is below the other, it is the only member. The same for the members of
`meet`, with respect to two sets.
-/

namespace DatalogTyping

namespace TypeEnv

variable {env : TypeEnv} {a b : String}

/-! ### Aliases -/

/-- Following alias targets, some number of times, leads from one name to
another. -/
def StandsFor (env : TypeEnv) : String → String → Prop :=
  Relation.ReflTransGen fun name target => env.target? name = some target

theorem StandsFor.linked (h : env.StandsFor a b) : Relation.ReflTransGen env.LinksTo a b :=
  Relation.ReflTransGen.mono (fun _ _ link => .inl link) _ _ h

theorem skipFrom_standsFor {seen : List String} {bound : Nat} {name root : String}
    (h : env.skipFrom seen bound name = .ok root) :
    env.StandsFor name root ∧ env.target? root = none := by
  induction bound generalizing seen name with
  | zero => simp [skipFrom] at h
  | succ bound ih =>
      rw [skipFrom] at h
      split at h
      · rename_i target hfind
        split at h
        · cases h
        · obtain ⟨path, hroot⟩ := ih h
          exact ⟨path.head (target?_eq_some.mpr hfind), hroot⟩
      · rename_i hfind
        obtain rfl : name = root := by simpa using h
        refine ⟨.refl, ?_⟩
        cases ht : env.target? name with
        | none => rfl
        | some target => exact absurd (target?_eq_some.mp ht) (hfind target)

/-- Resolving aliases ends at a type that is no alias. -/
theorem skipAliases_standsFor {root : String} (h : env.skipAliases a = .ok root) :
    env.StandsFor a root ∧ env.target? root = none :=
  skipFrom_standsFor h

namespace Acyclic

variable (acyclic : env.Acyclic)

include acyclic

theorem isSubtype_standsFor_left {root : String} (h : env.StandsFor a root) :
    env.isSubtype a b ↔ env.isSubtype root b := by
  induction h with
  | refl => rfl
  | tail _ link ih => rw [ih, acyclic.isSubtype_alias_left link]

theorem isSubtype_standsFor_right {root : String} (h : env.StandsFor b root) :
    env.isSubtype a b ↔ env.isSubtype a root := by
  induction h with
  | refl => rfl
  | tail _ link ih => rw [ih, acyclic.isSubtype_alias_right link]

/-! ### Leaves -/

/-- A type is below every type it is a leaf of, and is neither alias nor
union. -/
theorem isSubtype_of_mem_leavesIn {bound : Nat} {name : String} {leaves : List String}
    (h : env.leavesIn bound name = .ok leaves) {leaf : String} (hleaf : leaf ∈ leaves) :
    env.target? leaf = none ∧ env.elements? leaf = none ∧ env.isSubtype leaf name := by
  induction bound generalizing name leaves with
  | zero =>
      obtain rfl : [] = leaves := by simpa [leavesIn] using h
      simp at hleaf
  | succ bound ih =>
      rw [leavesIn] at h
      obtain ⟨root, hroot, h⟩ := bind_eq_ok.mp h
      obtain ⟨path, hnone⟩ := skipAliases_standsFor hroot
      -- being below the name is being below the type that it stands for
      rw [acyclic.isSubtype_standsFor_right path]
      split at h
      · rename_i elements hfind
        have helements : env.elements? root = some elements := elements?_eq_some.mpr hfind
        obtain ⟨found, hfound, h⟩ := bind_eq_ok.mp h
        obtain rfl : found.flatten = leaves := by simpa [pure, Except.pure] using h
        obtain ⟨part, hpart, hleaf⟩ := List.mem_flatten.mp hleaf
        obtain ⟨element, helement, hin⟩ := exists_mem_of_mapM_ok hfound hpart
        obtain ⟨ht, he, hsub⟩ := ih hin hleaf
        refine ⟨ht, he, (acyclic.isSubtype_leaf_iff ht he hnone).mpr ?_⟩
        exact .inr (.inl ⟨elements, helements, element, helement, hsub⟩)
      · rename_i hfind
        obtain rfl : [root] = leaves := by simpa [pure, Except.pure] using h
        obtain rfl : leaf = root := by simpa using hleaf
        refine ⟨hnone, ?_, env.isSubtype_refl leaf⟩
        cases he : env.elements? leaf with
        | none => rfl
        | some elements => exact absurd (elements?_eq_some.mp he) (hfind elements)

theorem isSubtype_of_mem_leaves {leaves : List String} (h : env.leaves a = .ok leaves)
    {leaf : String} (hleaf : leaf ∈ leaves) : env.isSubtype leaf a :=
  (acyclic.isSubtype_of_mem_leavesIn h hleaf).2.2

end Acyclic

/-- The leaves of a type are reached from it along links. -/
theorem linked_of_mem_leavesIn {bound : Nat} {name : String} {leaves : List String}
    (h : env.leavesIn bound name = .ok leaves) {leaf : String} (hleaf : leaf ∈ leaves) :
    Relation.ReflTransGen env.LinksTo name leaf := by
  induction bound generalizing name leaves with
  | zero =>
      obtain rfl : [] = leaves := by simpa [leavesIn] using h
      simp at hleaf
  | succ bound ih =>
      rw [leavesIn] at h
      obtain ⟨root, hroot, h⟩ := bind_eq_ok.mp h
      have path := (skipAliases_standsFor hroot).1.linked
      split at h
      · rename_i elements hfind
        obtain ⟨found, hfound, h⟩ := bind_eq_ok.mp h
        obtain rfl : found.flatten = leaves := by simpa [pure, Except.pure] using h
        obtain ⟨part, hpart, hleaf⟩ := List.mem_flatten.mp hleaf
        obtain ⟨element, helement, hin⟩ := exists_mem_of_mapM_ok hfound hpart
        have link : env.LinksTo root element :=
          .inr (.inl ⟨elements, elements?_eq_some.mpr hfind, helement⟩)
        exact path.trans ((ih hin hleaf).head link)
      · obtain rfl : [root] = leaves := by simpa [pure, Except.pure] using h
        obtain rfl : leaf = root := by simpa using hleaf
        exact path

/-! ### The lower of two types -/

/-- The lower of two types is one of the two, and below the other. -/
theorem lower?_eq_some {low : String} (h : env.lower? a b = some low) :
    (low = a ∧ env.isSubtype a b) ∨ (low = b ∧ env.isSubtype b a) := by
  unfold lower? at h
  split at h
  · rename_i hab
    exact .inl ⟨(Option.some.inj h).symm, hab⟩
  · split at h
    · rename_i hba
      exact .inr ⟨(Option.some.inj h).symm, hba⟩
    · cases h

theorem isSubtype_of_lower? {low : String} (h : env.lower? a b = some low) :
    env.isSubtype low a ∧ env.isSubtype low b := by
  rcases lower?_eq_some h with ⟨rfl, hsub⟩ | ⟨rfl, hsub⟩
  · exact ⟨env.isSubtype_refl low, hsub⟩
  · exact ⟨hsub, env.isSubtype_refl low⟩

/-- All that two types can have in common: the lower one, or that of two types they
consist of. -/
theorem mem_commonSubtypes_cases {common : String} (h : common ∈ env.commonSubtypes a b) :
    env.lower? a b = some common ∨
      ∃ as bs, env.leaves a = .ok as ∧ env.leaves b = .ok bs ∧
        ∃ x ∈ as, ∃ y ∈ bs, env.lower? x y = some common := by
  unfold commonSubtypes at h
  split at h
  · rename_i low hlow
    obtain rfl : common = low := by simpa using h
    exact .inl hlow
  · split at h
    · rename_i as bs has hbs
      simp only [lowerOf, Names.mem_ofList, List.mem_flatMap, List.mem_filterMap] at h
      exact .inr ⟨as, bs, has, hbs, h⟩
    · simp at h

/-- What two types have in common is reached from one of them along links. -/
theorem linked_of_mem_commonSubtypes {common : String} (h : common ∈ env.commonSubtypes a b) :
    Relation.ReflTransGen env.LinksTo a common ∨ Relation.ReflTransGen env.LinksTo b common := by
  rcases mem_commonSubtypes_cases h with hlow | ⟨as, bs, has, hbs, x, hx, y, hy, hlow⟩
  · rcases lower?_eq_some hlow with ⟨rfl, -⟩ | ⟨rfl, -⟩
    · exact .inl .refl
    · exact .inr .refl
  · rcases lower?_eq_some hlow with ⟨rfl, -⟩ | ⟨rfl, -⟩
    · exact .inl (linked_of_mem_leavesIn has hx)
    · exact .inr (linked_of_mem_leavesIn hbs hy)

/-- A type below another is all they have in common. -/
theorem commonSubtypes_of_isSubtype (h : env.isSubtype a b) :
    env.commonSubtypes a b = .single a := by
  simp [commonSubtypes, lower?, h]

/-- What two types have in common is below both. -/
theorem Acyclic.isSubtype_of_mem_commonSubtypes (acyclic : env.Acyclic) {common : String}
    (h : common ∈ env.commonSubtypes a b) :
    env.isSubtype common a ∧ env.isSubtype common b := by
  rcases mem_commonSubtypes_cases h with hlow | ⟨as, bs, has, hbs, x, hx, y, hy, hlow⟩
  · exact isSubtype_of_lower? hlow
  · obtain ⟨hcx, hcy⟩ := isSubtype_of_lower? hlow
    exact ⟨acyclic.isSubtype_trans hcx (acyclic.isSubtype_of_mem_leaves has hx),
      acyclic.isSubtype_trans hcy (acyclic.isSubtype_of_mem_leaves hbs hy)⟩

/-! ### Meets of sets -/

/-- What the members of two sets have in common, pair by pair. -/
def commonNames (env : TypeEnv) (types others : Names) : Names :=
  .ofList (types.toList.flatMap fun a =>
    others.toList.flatMap fun b => (env.commonSubtypes a b).toList)

@[simp] theorem meet_all_left (others : TypeSet) : env.meet .all others = others := rfl

@[simp] theorem meet_all_right (types : TypeSet) : env.meet types .all = types := by
  cases types <;> rfl

@[simp] theorem meet_only (types others : Names) :
    env.meet (.only types) (.only others) = .only (env.commonNames types others) := rfl

@[simp] theorem mem_commonNames {types others : Names} {common : String} :
    common ∈ env.commonNames types others ↔
      ∃ a ∈ types, ∃ b ∈ others, common ∈ env.commonSubtypes a b := by
  simp [commonNames]

/-- The members of a meet are below members of both sides. -/
theorem Acyclic.exists_above_of_mem_commonNames (acyclic : env.Acyclic) {types others : Names}
    {common : String} (h : common ∈ env.commonNames types others) :
    (∃ a ∈ types, env.isSubtype common a) ∧ ∃ b ∈ others, env.isSubtype common b := by
  obtain ⟨x, hx, y, hy, hcommon⟩ := mem_commonNames.mp h
  obtain ⟨hcx, hcy⟩ := acyclic.isSubtype_of_mem_commonSubtypes hcommon
  exact ⟨⟨x, hx, hcx⟩, y, hy, hcy⟩

/-- A meet keeps the members that the other side allows as they are. -/
theorem mem_commonNames_of_isSubtype {types others : Names} (ha : a ∈ types) (hb : b ∈ others)
    (h : env.isSubtype a b) : a ∈ env.commonNames types others := by
  rw [mem_commonNames]
  refine ⟨a, ha, b, hb, ?_⟩
  rw [commonSubtypes_of_isSubtype h]
  simp

end TypeEnv

end DatalogTyping

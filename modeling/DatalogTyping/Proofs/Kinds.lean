import DatalogTyping.Proofs.ClauseSolving
import DatalogTyping.Proofs.TypingRules

/-!
# Kinds of types

What types of a kind are ultimately carved from are its roots: the constant type of
a primitive kind, the records, the sum types. In an environment without cycles a
type is below at most one root (`TypeEnv.Acyclic.top_unique`), though unions have
several ways up. So a type is of at most one kind, and comparable types that are of
kinds are of the same one (`TypeEnv.Acyclic.kind_eq_of_isSubtype`).

There are two ways to ask for kinds: whether a type is of a given kind, and what its
kind is. The latter looks for a record or a sum type at the end of the way up first, and
tries the constant types one after another then. As kinds are unique the order makes no
difference, and the two agree (`TypeEnv.Acyclic.kind_queries_agree`).

Two sets of types share their kinds if each type in either is of a primitive kind
that a type in the other is of, too (`TypeSet.SharesKinds`). Sets that share their
base types do (`TypeSet.SharesBases.sharesKinds`), and as kinds are unique the
relation is transitive, though types may be of several kinds within one set.
-/

namespace DatalogTyping

/-- The kind that a type is a root of. -/
def TypeDef.rootKind? : TypeDef → Option Kind
  | .constant kind => some kind
  | .record _ => some .record
  | .adt _ => some .adt
  | _ => none

namespace TypeEnv

variable {env : TypeEnv} {name low high root first second : String} {kind other : Kind}

/-! ### Roots -/

theorem isRootOf_constant (h : constantName? kind = some root) : env.IsRootOf kind root := by
  cases kind with
  | record => cases h
  | adt => cases h
  | _ => exact h

theorem HasBuiltIns.rootKind?_eq (builtIns : env.HasBuiltIns) (h : env.IsRootOf kind root) :
    (env.find? root).bind TypeDef.rootKind? = some kind := by
  cases kind with
  | record =>
      obtain ⟨fields, hfind⟩ := h
      simp [hfind, TypeDef.rootKind?]
  | adt =>
      obtain ⟨branches, hfind⟩ := h
      simp [hfind, TypeDef.rootKind?]
  | _ => simp [builtIns.find?_constant h, TypeDef.rootKind?]

theorem HasBuiltIns.rootKind_unique (builtIns : env.HasBuiltIns) (h : env.IsRootOf kind root)
    (h' : env.IsRootOf other root) : kind = other :=
  Option.some.inj ((builtIns.rootKind?_eq h).symm.trans (builtIns.rootKind?_eq h'))

/-- The type has no way up, and is no union. -/
structure IsTop (env : TypeEnv) (name : String) : Prop where
  ends : env.next? name = none
  single : env.elements? name = none

theorem HasBuiltIns.isTop_root (builtIns : env.HasBuiltIns) (h : env.IsRootOf kind root) :
    env.IsTop root := by
  refine ⟨builtIns.next?_root h, ?_⟩
  cases helements : env.elements? root with
  | none => rfl
  | some elements =>
      have hroot := builtIns.rootKind?_eq h
      simp [elements?_eq_some.mp helements, TypeDef.rootKind?] at hroot

/-- A type is below at most one of those that have no way up and are no unions. -/
theorem Acyclic.top_unique {name : String} (acyclic : env.Acyclic) (hfirst : env.IsTop first)
    (hsecond : env.IsTop second) (h : env.isSubtype name first) (h' : env.isSubtype name second) :
    first = second := by
  have plain := target?_of_next?_none hfirst.ends
  have plain' := target?_of_next?_none hsecond.ends
  cases ht : env.target? name with
  | some target =>
      have := acyclic.height_lt (.inl ht)
      rw [acyclic.isSubtype_alias_left ht] at h h'
      exact acyclic.top_unique hfirst hsecond h h'
  | none =>
      cases he : env.elements? name with
      | some elements =>
          -- a union is neither of the two, and has an element that is below both
          rw [acyclic.isSubtype_union_iff he plain] at h
          rw [acyclic.isSubtype_union_iff he plain'] at h'
          rcases h with rfl | ⟨inhabited, h⟩
          · cases hfirst.single.symm.trans he
          rcases h' with rfl | ⟨-, h'⟩
          · cases hsecond.single.symm.trans he
          obtain ⟨element, helement⟩ := List.exists_mem_of_ne_nil elements inhabited
          have := acyclic.height_lt (.inr (.inl ⟨elements, he, helement⟩))
          exact acyclic.top_unique hfirst hsecond (h element helement) (h' element helement)
      | none =>
          rw [acyclic.isSubtype_leaf_iff ht he plain, hfirst.single] at h
          rw [acyclic.isSubtype_leaf_iff ht he plain', hsecond.single] at h'
          simp only [← next?_of_not_alias ht, reduceCtorEq, false_and, exists_false,
            false_or] at h h'
          rcases h with rfl | ⟨base, hbase, h⟩
          · simpa [hfirst.ends] using h'
          · rcases h' with rfl | ⟨base', hbase', h'⟩
            · cases hsecond.ends.symm.trans hbase
            · obtain rfl := Option.some.inj (hbase.symm.trans hbase')
              rw [next?_of_not_alias ht] at hbase
              have := acyclic.height_lt (.inr (.inr hbase))
              exact acyclic.top_unique hfirst hsecond h h'
termination_by env.height name

/-! ### Kinds of a type -/

/-- A type of a kind is below a root of the kind. -/
theorem Acyclic.exists_root (acyclic : env.Acyclic) (h : env.isOfKind name kind) :
    ∃ root, env.IsRootOf kind root ∧ env.isSubtype name root := by
  have composite (hkind : kind ∉ Kind.primitives) :
      ∃ root, env.IsRootOf kind root ∧ env.isSubtype name root := by
    obtain ⟨root, hroot, up⟩ := (isOfKind_composite_iff hkind).mp h
    exact ⟨root, hroot, acyclic.isSubtype_of_reaches up⟩
  cases kind with
  | record => exact composite (by decide)
  | adt => exact composite (by decide)
  | _ => exact ⟨_, rfl, (isOfKind_iff rfl).mp h⟩

/-- Comparable types are of the same kind. -/
theorem Acyclic.kind_eq_of_isSubtype (acyclic : env.Acyclic) (builtIns : env.HasBuiltIns)
    (hsub : env.isSubtype low high) (hlow : env.isOfKind low kind)
    (hhigh : env.isOfKind high other) : kind = other := by
  obtain ⟨root, hroot, below⟩ := acyclic.exists_root hlow
  obtain ⟨root', hroot', below'⟩ := acyclic.exists_root hhigh
  obtain rfl := acyclic.top_unique (builtIns.isTop_root hroot) (builtIns.isTop_root hroot') below
    (acyclic.isSubtype_trans hsub below')
  exact builtIns.rootKind_unique hroot hroot'

/-- A type is of at most one kind. -/
theorem Acyclic.isOfKind_unique (acyclic : env.Acyclic) (builtIns : env.HasBuiltIns)
    (h : env.isOfKind name kind) (h' : env.isOfKind name other) : kind = other :=
  acyclic.kind_eq_of_isSubtype builtIns (env.isSubtype_refl name) h h'

/-- A type is of the kind that it is said to be of. -/
theorem isOfKind_of_kindOf (h : env.kindOf name = .ok kind) : env.isOfKind name kind := by
  obtain ⟨root, hbase, -⟩ := bind_eq_ok.mp h
  rw [kindOf_eq_find? hbase] at h
  cases hfind : triedKinds.find? (env.isOfKind name) with
  | none => simp [hfind] at h
  | some found =>
      obtain rfl : found = kind := by simpa [hfind] using h
      exact List.find?_some hfind

/-- A type of a kind is said to be of that kind, if of any. -/
theorem Acyclic.kindOf_eq (acyclic : env.Acyclic) (builtIns : env.HasBuiltIns)
    (h : env.isOfKind name kind) (hof : env.kindOf name = .ok other) : other = kind :=
  acyclic.isOfKind_unique builtIns (isOfKind_of_kindOf hof) h

/-- A type has the kind that it is of. -/
theorem Acyclic.kindOf_eq_ok_iff (acyclic : env.Acyclic) (builtIns : env.HasBuiltIns) :
    env.kindOf name = .ok kind ↔ env.isOfKind name kind := by
  refine ⟨isOfKind_of_kindOf, fun hof => ?_⟩
  obtain ⟨root, hbase⟩ := acyclic.exists_baseType name
  obtain ⟨found, hfound⟩ := exists_kindOf hbase hof
  rw [hfound, acyclic.kindOf_eq builtIns hof hfound]

/-- The two ways to ask for kinds agree: to have a kind is to be of it, so a type is of
at most one kind, and it has none, which is the only way to fail, exactly if it is of
none. Of two types that have kinds and of which one is below the other, the kinds are the
same. -/
theorem Acyclic.kind_queries_agree (acyclic : env.Acyclic) (builtIns : env.HasBuiltIns) :
    (∀ name kind, env.askIsOfKind name kind = .ok (env.isOfKind name kind)) ∧
    (∀ name kind, env.kindOf name = .ok kind ↔ env.isOfKind name kind) ∧
    (∀ name kind other, env.isOfKind name kind → env.isOfKind name other → kind = other) ∧
    (∀ name fault, env.kindOf name = .error fault ↔
      fault = .noSingleKind name ∧ ∀ kind, env.isOfKind name kind = false) ∧
    ∀ low high kind other, env.isSubtype low high → env.kindOf low = .ok kind →
      env.kindOf high = .ok other → kind = other := by
  refine ⟨fun name kind => ?_, fun name kind => acyclic.kindOf_eq_ok_iff builtIns,
    fun name kind other => acyclic.isOfKind_unique builtIns, fun name fault => ?_, ?_⟩
  · obtain ⟨root, hbase⟩ := acyclic.exists_baseType name
    exact askIsOfKind_eq_ok hbase kind
  · obtain ⟨root, hbase⟩ := acyclic.exists_baseType name
    exact kindOf_eq_error_iff hbase
  · intro low high kind other hsub hlow hhigh
    exact acyclic.kind_eq_of_isSubtype builtIns hsub (isOfKind_of_kindOf hlow)
      (isOfKind_of_kindOf hhigh)

/-- A subset of nested unions of numbers, a union of numbers and symbols, a union without
elements, a subset of a record, a sum type under another name, and an alias that has no
target. -/
def variedEnv : TypeEnv :=
  ⟨builtIn.entries ++ [("even", .subset "number"), ("paired", .synonym "even"),
    ("whole", .union ["paired", "number"]), ("nested", .union ["even", "whole"]),
    ("chosen", .subset "nested"), ("scalar", .union ["chosen", "symbol"]), ("void", .union []),
    ("pair", .record ["whole", "pair"]), ("couple", .subset "pair"), ("shape", .adt []),
    ("form", .synonym "shape"), ("open", .synonym noType)]⟩

/-- The subset of the nested unions has the kind of the union above it. Three types are of
no kind: the mixed union, the one without elements, the alias without a target. -/
theorem kind_queries_agree_variedEnv :
    variedEnv.Acyclic ∧ variedEnv.HasBuiltIns ∧
      variedEnv.kindOf "couple" = .ok .record ∧ variedEnv.kindOf "form" = .ok .adt ∧
      variedEnv.kindOf "whole" = .ok .signed ∧ variedEnv.isSubtype "chosen" "whole" ∧
      (∀ kind, variedEnv.isOfKind "chosen" kind ↔ kind = .signed) ∧
      ∀ name ∈ ["scalar", "void", "open"],
        variedEnv.kindOf name = .error (.noSingleKind name) := by
  have acyclic : variedEnv.Acyclic := acyclic_of_order (noType :: variedEnv.names) (by decide)
  have builtIns : variedEnv.HasBuiltIns := by unfold HasBuiltIns; decide
  have below : variedEnv.isSubtype "chosen" "whole" := by decide +kernel
  have chosen : variedEnv.isOfKind "chosen" .signed := by decide +kernel
  obtain ⟨-, agree, unique, none, comparable⟩ := acyclic.kind_queries_agree builtIns
  obtain ⟨kind, whole⟩ : ∃ kind, variedEnv.kindOf "whole" = .ok kind :=
    ⟨.signed, by decide +kernel⟩
  obtain rfl := comparable _ _ _ _ below ((agree _ _).mpr chosen) whole
  refine ⟨acyclic, builtIns, (agree _ _).mpr (by decide +kernel),
    (agree _ _).mpr (by decide +kernel), whole, below, fun kind => ⟨fun h => ?_, fun h => ?_⟩,
    fun name hname => (none name _).mpr ⟨rfl, ?_⟩⟩
  · exact unique _ _ _ h chosen
  · exact h ▸ chosen
  · have ofNone : ∀ name ∈ ["scalar", "void", "open"], ∀ kind ∈ Kind.all,
        variedEnv.isOfKind name kind = false := by decide +kernel
    exact fun kind => ofNone name hname kind (by cases kind <;> decide)

/-- Whatever is above another type is a type. -/
theorem Closed.isType_of_isSubtype {low high : String} (closed : env.Closed)
    (acyclic : env.Acyclic) (h : env.isSubtype low high) (hne : low ≠ high) : env.isType high := by
  -- what links lead to is a type, so the induction may end there
  have later : ∀ {next : String}, env.LinksTo low next → env.isSubtype next high →
      env.isType high := by
    intro next link hsub
    have := acyclic.height_lt link
    by_cases hnext : next = high
    · exact hnext ▸ closed.isType_of_linksTo link
    · exact closed.isType_of_isSubtype acyclic hsub hnext
  cases hb : env.target? high with
  | some target => exact LinksTo.find?_isSome (.inl hb)
  | none =>
  cases ha : env.target? low with
  | some target => exact later (.inl ha) ((acyclic.isSubtype_alias_left ha).mp h)
  | none =>
  cases he : env.elements? low with
  | some elements =>
      obtain ⟨inhabited, below⟩ := ((acyclic.isSubtype_union_iff he hb).mp h).resolve_left hne
      obtain ⟨element, helement⟩ := List.exists_mem_of_ne_nil elements inhabited
      exact later (.inr (.inl ⟨elements, he, helement⟩)) (below element helement)
  | none =>
      rcases (acyclic.isSubtype_leaf_iff ha he hb).mp h with
        same | ⟨elements, helements, element, helement, -⟩ | ⟨base, hbase, hsub⟩
      · exact absurd same hne
      · exact LinksTo.find?_isSome (.inr (.inl ⟨elements, helements, helement⟩))
      · exact later (.inr (.inr hbase)) hsub
termination_by env.height low

/-- If all types have kinds, whatever is above a type of a kind is of that kind. -/
theorem Kinded.kindsRise (kinded : env.Kinded) (acyclic : env.Acyclic) (complete : env.Complete) :
    env.KindsRise := by
  intro low high kind hsub hlow
  by_cases hne : low = high
  · exact hne ▸ hlow
  · obtain ⟨found, hfound⟩ := kinded high (complete.closed.isType_of_isSubtype acyclic hsub hne)
    have hof := isOfKind_of_kindOf hfound
    rwa [← acyclic.kind_eq_of_isSubtype complete.builtIns hsub hlow hof] at hof

end TypeEnv

/-! ### Kinds in a set -/

/-- Each of the types is of a primitive kind that one of the others is of, too. -/
def Names.KindsAmong (env : TypeEnv) (names others : Names) : Prop :=
  ∀ name ∈ names, ∃ kind ∈ Kind.primitives, env.isOfKind name kind ∧
    ∃ other ∈ others, env.isOfKind other kind

theorem Names.KindsAmong.trans {env : TypeEnv} {names others third : Names}
    (among : names.KindsAmong env others) (among' : others.KindsAmong env third)
    (acyclic : env.Acyclic) (builtIns : env.HasBuiltIns) : names.KindsAmong env third := by
  intro name hname
  obtain ⟨kind, hkind, h, other, hother, hof⟩ := among name hname
  obtain ⟨kind', hkind', hof', last, hlast, h'⟩ := among' other hother
  obtain rfl := acyclic.isOfKind_unique builtIns hof hof'
  exact ⟨kind, hkind, h, last, hlast, h'⟩

namespace TypeSet

variable {env : TypeEnv} {types others third : TypeSet} {kind : Kind}

/-- The set is not restricted, or all types in it are of the kind. -/
def AllOfKind (env : TypeEnv) (types : TypeSet) (kind : Kind) : Prop :=
  ∀ names, types = .only names → ∀ name ∈ names, env.isOfKind name kind

/-- Neither set is restricted, or each type in either is of a primitive kind that a
type in the other is of, too. -/
def SharesKinds (env : TypeEnv) (types others : TypeSet) : Prop :=
  (types = .all ∧ others = .all) ∨
    ∃ names names', types = .only names ∧ others = .only names' ∧
      names.KindsAmong env names' ∧ names'.KindsAmong env names

theorem hasKind_only {names : Names} :
    env.hasKind (.only names) kind ↔ ∃ name ∈ names, env.isOfKind name kind := by
  simp only [TypeEnv.hasKind, List.any_eq_true, Names.mem_toList]

/-- A set that consists of types of one kind, and is not empty, has one. -/
theorem hasKind_of_consists (consists : types.Consists fun name => env.isOfKind name kind)
    (inhabited : types.isEmpty = false) : env.hasKind types kind := by
  obtain ⟨names, rfl, each⟩ := consists
  obtain ⟨name, hname⟩ := List.exists_mem_of_ne_nil names.toList
    (by simpa [isEmpty] using inhabited)
  rw [Names.mem_toList] at hname
  exact hasKind_only.mpr ⟨name, hname, each name hname⟩

/-- A set that lies below a constant type consists of types of its kind. -/
theorem LiesBelow.consists {constant : String} (below : types.LiesBelow env constant)
    (hconstant : TypeEnv.constantName? kind = some constant) :
    types.Consists fun name => env.isOfKind name kind := by
  obtain ⟨names, rfl, below⟩ := below
  exact ⟨names, rfl, fun name hname => (TypeEnv.isOfKind_iff hconstant).mpr (below name hname)⟩

theorem Consists.allOfKind (consists : types.Consists fun name => env.isOfKind name kind) :
    types ≠ .all ∧ types.AllOfKind env kind := by
  obtain ⟨names, rfl, each⟩ := consists
  refine ⟨nofun, ?_⟩
  rintro _ ⟨⟩
  exact each

/-- Sets that share their base types share their kinds. -/
theorem SharesBases.sharesKinds (shares : types.SharesBases env others) (acyclic : env.Acyclic)
    (wellFormed : env.WellFormed) : types.SharesKinds env others := by
  rcases shares with both | ⟨names, names', rfl, rfl, shared⟩
  · exact .inl both
  -- what is below the constant and what is carved from it are of the constant's kind
  have same : ∀ {root name other}, (∃ kind, env.find? root = some (.constant kind)) →
      env.isSubtype name root → env.baseType other = .ok root →
      ∃ kind ∈ Kind.primitives, env.isOfKind name kind ∧ env.isOfKind other kind := by
    rintro root name other ⟨kind, hroot⟩ hsub hbase
    have hconstant := wellFormed.constants hroot
    have up := (TypeEnv.baseType_eq_ok_iff (TypeEnv.next?_of_constant hroot)).mp hbase
    rw [← TypeEnv.isOfKind_iff hconstant] at hsub
    exact ⟨kind, TypeEnv.primitive_of_constantName? hconstant, hsub,
      (TypeEnv.isOfKind_iff hconstant).mpr (acyclic.isSubtype_of_reaches up)⟩
  refine .inr ⟨names, names', rfl, rfl, fun name hname => ?_, fun name hname => ?_⟩
  · obtain ⟨root, ⟨constant, -, other, hother, hbase⟩, hsub⟩ := shared name (.inl hname)
    obtain ⟨kind, hkind, h, h'⟩ := same constant hsub hbase
    exact ⟨kind, hkind, h, other, hother, h'⟩
  · obtain ⟨root, ⟨constant, ⟨other, hother, hbase⟩, -⟩, hsub⟩ := shared name (.inr hname)
    obtain ⟨kind, hkind, h, h'⟩ := same constant hsub hbase
    exact ⟨kind, hkind, h, other, hother, h'⟩

namespace SharesKinds

theorem symm (shares : types.SharesKinds env others) : others.SharesKinds env types := by
  rcases shares with ⟨htypes, hothers⟩ | ⟨names, names', htypes, hothers, forth, back⟩
  · exact .inl ⟨hothers, htypes⟩
  · exact .inr ⟨names', names, hothers, htypes, back, forth⟩

theorem trans (shares : types.SharesKinds env others) (shares' : others.SharesKinds env third)
    (acyclic : env.Acyclic) (builtIns : env.HasBuiltIns) : types.SharesKinds env third := by
  rcases shares with ⟨rfl, rfl⟩ | ⟨names, middle, rfl, rfl, forth, back⟩
  · exact shares'
  rcases shares' with ⟨h, -⟩ | ⟨_, names', ⟨⟩, rfl, forth', back'⟩
  · cases h
  · exact .inr ⟨names, names', rfl, rfl, forth.trans forth' acyclic builtIns,
      back'.trans back acyclic builtIns⟩

theorem hasKind (shares : types.SharesKinds env others) (acyclic : env.Acyclic)
    (builtIns : env.HasBuiltIns) (h : env.hasKind types kind) :
    env.hasKind others kind := by
  rcases shares with ⟨-, rfl⟩ | ⟨names, names', rfl, rfl, forth, -⟩
  · rfl
  obtain ⟨name, hname, hof⟩ := hasKind_only.mp h
  obtain ⟨kind', hkind', hof', other, hother, h'⟩ := forth name hname
  obtain rfl := acyclic.isOfKind_unique builtIns hof hof'
  exact hasKind_only.mpr ⟨other, hother, h'⟩

theorem allOfKind (shares : types.SharesKinds env others) (acyclic : env.Acyclic)
    (builtIns : env.HasBuiltIns) (h : types.AllOfKind env kind) : others.AllOfKind env kind := by
  rcases shares with ⟨-, rfl⟩ | ⟨names, names', rfl, rfl, -, back⟩
  · exact nofun
  rintro _ ⟨⟩ name hname
  obtain ⟨kind', hkind', hof, other, hother, hof'⟩ := back name hname
  obtain rfl := acyclic.isOfKind_unique builtIns (h names rfl other hother) hof'
  exact hof

end SharesKinds

end TypeSet

end DatalogTyping

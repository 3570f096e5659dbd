import DatalogTyping.Proofs.Kinds
import DatalogTyping.Proofs.OverloadMemory

/-!
# Sharing a base type

The constraint that two variables share a base type keeps of each side the types below a
constant type that both sides have a type carved from. It finds these constant types by
going up from the types, and it judges what to keep by subtyping. The two differ for
unions: the way up from a union ends with the union, while a union of numbers is below
the constant type of the numbers like any other type of that kind.

So to be of the same primitive kind is not quite enough for two sides. A type stays if
its kind is one that both sides have a carved type of (`Constraint.update_sameBase_kinds`),
and the constraint treats kinds as it should exactly if no kind is present on both sides
through unions alone on one of them. Where no type is carved from a union this is always
so; a union by itself is dropped even next to itself (`Constraint.sameBase_drops_union`).
-/

namespace DatalogTyping

namespace TypeEnv

variable {env : TypeEnv} {name root : String} {kind : Kind}

/-- A type of a primitive kind is carved from the constant type of its kind, unless it is
carved from a union. -/
theorem Acyclic.baseType_eq_constant (acyclic : env.Acyclic) (builtIns : env.HasBuiltIns)
    {constant : String} (hconstant : constantName? kind = some constant)
    (hof : env.isOfKind name kind)
    (single : ∀ root, env.baseType name = .ok root → env.elements? root = none) :
    env.baseType name = .ok constant := by
  obtain ⟨root, up, ends⟩ := acyclic.exists_end name
  have hbase := (baseType_eq_ok_iff ends).mpr up
  have top := builtIns.isTop_root (isRootOf_constant hconstant)
  have same : root = constant := acyclic.top_unique ⟨ends, single root hbase⟩ top
    (acyclic.isSubtype_of_reaches up) ((isOfKind_iff hconstant).mp hof)
  rw [hbase, same]

/-- The constant type that a type of a kind is carved from is that of the kind. -/
theorem Acyclic.constantName?_of_baseType (acyclic : env.Acyclic) (builtIns : env.HasBuiltIns)
    {carved : Kind} (hroot : env.find? root = some (.constant carved))
    (hbase : env.baseType name = .ok root) (hof : env.isOfKind name kind) :
    constantName? kind = some root := by
  have ends := next?_of_constant hroot
  have top : env.IsTop root := ⟨ends, by simp [elements?, hroot]⟩
  have below := acyclic.isSubtype_of_reaches ((baseType_eq_ok_iff ends).mp hbase)
  obtain ⟨upper, hupper, below'⟩ := acyclic.exists_root hof
  obtain rfl := acyclic.top_unique top (builtIns.isTop_root hupper) below below'
  cases kind with
  | record =>
      obtain ⟨fields, hfind⟩ := hupper
      cases hroot.symm.trans hfind
  | adt =>
      obtain ⟨branches, hfind⟩ := hupper
      cases hroot.symm.trans hfind
  | _ => exact hupper

end TypeEnv

namespace Names

variable {env : TypeEnv} {types others : Names} {kind : Kind}

/-- Every member has a kind. -/
def Kinded (env : TypeEnv) (types : Names) : Prop :=
  ∀ name ∈ types, ∃ kind, env.kindOf name = .ok kind

/-- A member has the kind. -/
def HaveKind (env : TypeEnv) (types : Names) (kind : Kind) : Prop :=
  ∃ name ∈ types, env.kindOf name = .ok kind

/-- A member is carved from the constant type of the kind. -/
def Carve (env : TypeEnv) (types : Names) (kind : Kind) : Prop :=
  ∃ name ∈ types, ∃ constant, TypeEnv.constantName? kind = some constant ∧
    env.baseType name = .ok constant

/-- The set consists of those types whose kind is primitive and satisfies the condition. -/
def Selected (env : TypeEnv) (kept types : Names) (condition : Kind → Prop) : Prop :=
  ∀ name, name ∈ kept ↔
    name ∈ types ∧ ∃ kind ∈ Kind.primitives, env.kindOf name = .ok kind ∧ condition kind

/-- A primitive kind that members of both sides have is one that both sides have a member
carved from. -/
def CarveShared (env : TypeEnv) (types others : Names) : Prop :=
  ∀ kind ∈ Kind.primitives, types.HaveKind env kind → others.HaveKind env kind →
    types.Carve env kind ∧ others.Carve env kind

instance : Decidable (types.HaveKind env kind) :=
  decidable_of_iff (∃ name ∈ types.toList, env.kindOf name = .ok kind) (by
    simp [HaveKind, Names.mem_toList])

instance : Decidable (types.Carve env kind) :=
  decidable_of_iff (∃ name ∈ types.toList, ∃ constant ∈ TypeEnv.constantName? kind,
    env.baseType name = .ok constant) (by simp [Carve, Names.mem_toList])

instance : Decidable (types.CarveShared env others) :=
  inferInstanceAs (Decidable (∀ kind ∈ Kind.primitives, _))

theorem mem_commonBases (builtIns : env.HasBuiltIns) {constant : String}
    (hconstant : TypeEnv.constantName? kind = some constant) :
    constant ∈ Constraint.commonBases env types others ↔
      types.Carve env kind ∧ others.Carve env kind := by
  have carved (names : Names) : constant ∈ env.constantBases names ↔ names.Carve env kind := by
    rw [TypeEnv.mem_constantBases]
    constructor
    · rintro ⟨-, name, hname, hbase⟩
      exact ⟨name, hname, constant, hconstant, hbase⟩
    · rintro ⟨name, hname, found, hfound, hbase⟩
      obtain rfl := Option.some.inj (hconstant.symm.trans hfound)
      exact ⟨⟨kind, builtIns.find?_constant hconstant⟩, name, hname, hbase⟩
  rw [Constraint.commonBases, Names.mem_inter, carved, carved]

/-- What is below a base type that two sides have in common is what is of a kind that both
have a member carved from. -/
theorem isBelowOne_commonBases (acyclic : env.Acyclic) (builtIns : env.HasBuiltIns)
    (kinded : types.Kinded env) {name : String} :
    env.isBelowOne (Constraint.commonBases env types others) name ↔
      ∃ kind ∈ Kind.primitives, env.isOfKind name kind ∧
        types.Carve env kind ∧ others.Carve env kind := by
  simp only [TypeEnv.isBelowOne, List.any_eq_true, Names.mem_toList]
  constructor
  · rintro ⟨root, hroot, hsub⟩
    obtain ⟨⟨carved, hfind⟩, member, hmember, hbase⟩ :=
      TypeEnv.mem_constantBases.mp (Names.mem_inter.mp hroot).1
    obtain ⟨kind, hkind⟩ := kinded member hmember
    have hconstant := acyclic.constantName?_of_baseType builtIns hfind hbase
      (TypeEnv.isOfKind_of_kindOf hkind)
    exact ⟨kind, TypeEnv.primitive_of_constantName? hconstant,
      (TypeEnv.isOfKind_iff hconstant).mpr hsub, (mem_commonBases builtIns hconstant).mp hroot⟩
  · rintro ⟨kind, hkind, hof, carved⟩
    obtain ⟨constant, hconstant⟩ := TypeEnv.exists_constant_of_primitive hkind
    exact ⟨constant, (mem_commonBases builtIns hconstant).mpr carved,
      (TypeEnv.isOfKind_iff hconstant).mp hof⟩

theorem Carve.haveKind (carve : types.Carve env kind) (acyclic : env.Acyclic)
    (builtIns : env.HasBuiltIns) (kinded : types.Kinded env) :
    types.HaveKind env kind := by
  obtain ⟨name, hname, constant, hconstant, hbase⟩ := carve
  have ends := TypeEnv.next?_of_constant (builtIns.find?_constant hconstant)
  have up := (TypeEnv.baseType_eq_ok_iff ends).mp hbase
  have hof := (TypeEnv.isOfKind_iff hconstant).mpr (acyclic.isSubtype_of_reaches up)
  obtain ⟨found, hfound⟩ := kinded name hname
  obtain rfl := acyclic.kindOf_eq builtIns hof hfound
  exact ⟨name, hname, hfound⟩

/-- Members that are not carved from unions carve the kinds they have. -/
theorem carveShared_of_single (acyclic : env.Acyclic) (builtIns : env.HasBuiltIns)
    (single : ∀ name, name ∈ types ∨ name ∈ others → ∀ root, env.baseType name = .ok root →
      env.elements? root = none) : types.CarveShared env others := by
  intro kind hkind haveTypes haveOthers
  obtain ⟨constant, hconstant⟩ := TypeEnv.exists_constant_of_primitive hkind
  have carve {names : Names} (among : ∀ name ∈ names, name ∈ types ∨ name ∈ others)
      (h : names.HaveKind env kind) : names.Carve env kind := by
    obtain ⟨name, hname, hof⟩ := h
    exact ⟨name, hname, constant, hconstant, acyclic.baseType_eq_constant builtIns hconstant
      (TypeEnv.isOfKind_of_kindOf hof) (single name (among name hname))⟩
  exact ⟨carve (fun _ => .inl) haveTypes, carve (fun _ => .inr) haveOthers⟩

/-- The members below a common base type are those of a kind that both sides have a member
carved from. -/
theorem selected_filter (acyclic : env.Acyclic) (builtIns : env.HasBuiltIns)
    (hkinded : types.Kinded env) (others : Names) {names : Names} (kinded : names.Kinded env) :
    (names.filter (env.isBelowOne (Constraint.commonBases env types others))).Selected env names
      fun kind => types.Carve env kind ∧ others.Carve env kind := by
  intro name
  rw [Names.mem_filter, isBelowOne_commonBases acyclic builtIns hkinded]
  constructor
  · rintro ⟨hname, kind, hkind, hof, carved⟩
    obtain ⟨found, hfound⟩ := kinded name hname
    obtain rfl := acyclic.kindOf_eq builtIns hof hfound
    exact ⟨hname, found, hkind, hfound, carved⟩
  · rintro ⟨hname, kind, hkind, hof, carved⟩
    exact ⟨hname, kind, hkind, TypeEnv.isOfKind_of_kindOf hof, carved⟩

namespace Selected

variable {kept : Names} {condition other : Kind → Prop}

theorem congr (selected : kept.Selected env types condition)
    (same : ∀ kind ∈ Kind.primitives, types.HaveKind env kind → (condition kind ↔ other kind)) :
    kept.Selected env types other := by
  intro name
  rw [selected name]
  refine and_congr_right fun hname => exists_congr fun kind => and_congr_right fun hkind =>
    and_congr_right fun hof => ?_
  exact same kind hkind ⟨name, hname, hof⟩

/-- A selection has the kinds that it selects. -/
theorem haveKind_iff (selected : kept.Selected env types condition)
    (hkind : kind ∈ Kind.primitives) :
    kept.HaveKind env kind ↔ types.HaveKind env kind ∧ condition kind := by
  constructor
  · rintro ⟨name, hname, hof⟩
    obtain ⟨hmem, found, -, hfound, holds⟩ := (selected name).mp hname
    obtain rfl := Except.ok.inj (hof.symm.trans hfound)
    exact ⟨⟨name, hmem, hof⟩, holds⟩
  · rintro ⟨⟨name, hname, hof⟩, holds⟩
    exact ⟨name, (selected name).mpr ⟨hname, kind, hkind, hof, holds⟩, hof⟩

end Selected

end Names

namespace Constraint

variable {env : TypeEnv} {A : Assignment} {left right : TypeVar} {types others : Names}

/-- The constraint that two variables share a base type keeps the types of those primitive
kinds that both sides have a type carved from. It keeps all types of the kinds that are
present on both sides, and then rejects no such kind, exactly if these are carved on both
sides. So it does if no type is carved from a union. -/
theorem update_sameBase_kinds (acyclic : env.Acyclic) (builtIns : env.HasBuiltIns)
    (hl : A left = .only types) (hr : A right = .only others) (kinded : types.Kinded env)
    (kindedOthers : others.Kinded env) :
    ∃ kept keptOthers : Names,
      ((sameBase left right).update env A).assignment left = .only kept ∧
      ((sameBase left right).update env A).assignment right = .only keptOthers ∧
      kept.Selected env types (fun kind => types.Carve env kind ∧ others.Carve env kind) ∧
      keptOthers.Selected env others (fun kind => types.Carve env kind ∧ others.Carve env kind) ∧
      (types.CarveShared env others ↔
        kept.Selected env types (others.HaveKind env) ∧
          keptOthers.Selected env others (types.HaveKind env)) ∧
      (types.CarveShared env others ↔
        ∀ kind ∈ Kind.primitives, types.HaveKind env kind → others.HaveKind env kind →
          kept.HaveKind env kind ∧ keptOthers.HaveKind env kind) ∧
      ((∀ name, name ∈ types ∨ name ∈ others → ∀ root, env.baseType name = .ok root →
        env.elements? root = none) → types.CarveShared env others) := by
  have stored : ((sameBase left right).update env A).assignment left =
        .only (types.filter (env.isBelowOne (commonBases env types others))) ∧
      ((sameBase left right).update env A).assignment right =
        .only (others.filter (env.isBelowOne (commonBases env types others))) := by
    rw [update_sameBase_only_only hl hr]
    refine ⟨?_, Assignment.set_same _ _ _⟩
    by_cases same : left = right
    · -- one variable on both sides has one set
      subst same
      obtain rfl := TypeSet.only.inj (hl.symm.trans hr)
      exact Assignment.set_same _ _ _
    · simp [Assignment.set_of_ne _ _ _ same]
  have selected := Names.selected_filter acyclic builtIns kinded others kinded
  have selectedOthers := Names.selected_filter acyclic builtIns kinded others kindedOthers
  refine ⟨_, _, stored.1, stored.2, selected, selectedOthers, ⟨fun shared => ⟨?_, ?_⟩, ?_⟩,
    ⟨?_, ?_⟩, Names.carveShared_of_single acyclic builtIns⟩
  · refine selected.congr fun kind hkind present => ⟨fun carved => ?_, shared kind hkind present⟩
    exact carved.2.haveKind acyclic builtIns kindedOthers
  · refine selectedOthers.congr fun kind hkind present =>
      ⟨fun carved => ?_, fun other => shared kind hkind other present⟩
    exact carved.1.haveKind acyclic builtIns kinded
  · rintro ⟨all, -⟩ kind hkind present other
    have stays := (all.haveKind_iff hkind).mpr ⟨present, other⟩
    exact ((selected.haveKind_iff hkind).mp stays).2
  · intro shared kind hkind present other
    have carved := shared kind hkind present other
    exact ⟨(selected.haveKind_iff hkind).mpr ⟨present, carved⟩,
      (selectedOthers.haveKind_iff hkind).mpr ⟨other, carved⟩⟩
  · intro stays kind hkind present other
    exact ((selected.haveKind_iff hkind).mp (stays kind hkind present other).1).2

/-- A union and a type carved from the numbers on either side. -/
def unionsAndNumbers : Assignment :=
  fun var => .ofList (if var = .named "x" then ["A", "U"] else ["V", "number"])

/-- Unions of numbers are kept next to types that are carved from the numbers. -/
theorem update_sameBase_kinds_unions :
    ∃ kept keptOthers : Names,
      ((sameBase (.named "x") (.named "y")).update Problem.overlappingEnv
        unionsAndNumbers).assignment (.named "x") = .only kept ∧
      ((sameBase (.named "x") (.named "y")).update Problem.overlappingEnv
        unionsAndNumbers).assignment (.named "y") = .only keptOthers ∧
      kept.Selected Problem.overlappingEnv (.ofList ["A", "U"])
        (Names.HaveKind Problem.overlappingEnv (.ofList ["V", "number"])) ∧
      keptOthers.Selected Problem.overlappingEnv (.ofList ["V", "number"])
        (Names.HaveKind Problem.overlappingEnv (.ofList ["A", "U"])) ∧
      "U" ∈ kept ∧ "V" ∈ keptOthers := by
  have kinded (names : List String) (types : ∀ name ∈ names, Problem.overlappingEnv.isType name) :
      (Names.ofList names).Kinded Problem.overlappingEnv :=
    fun name hname => Problem.overlappingEnv_kinded name (types name (Names.mem_ofList.mp hname))
  have left : unionsAndNumbers (.named "x") = .only (.ofList ["A", "U"]) := rfl
  have right : unionsAndNumbers (.named "y") = .only (.ofList ["V", "number"]) := rfl
  obtain ⟨kept, keptOthers, stored, storedOthers, -, -, all, -⟩ :=
    update_sameBase_kinds Problem.overlappingEnv_acyclic Problem.overlappingEnv_complete.builtIns
      left right (kinded _ (by decide)) (kinded _ (by decide))
  have shared : Names.CarveShared Problem.overlappingEnv (.ofList ["A", "U"])
      (.ofList ["V", "number"]) := by decide +kernel
  obtain ⟨selected, selectedOthers⟩ := all.mp shared
  refine ⟨kept, keptOthers, stored, storedOthers, selected, selectedOthers, ?_, ?_⟩
  · exact (selected "U").mpr ⟨by simp, .signed, by decide, by decide +kernel, by decide +kernel⟩
  · exact (selectedOthers "V").mpr
      ⟨by simp, .signed, by decide, by decide +kernel, by decide +kernel⟩

/-- Of a kind that both sides have through unions alone, no type is kept: two equal sides
lose their only type, though it has a kind. -/
theorem sameBase_drops_union :
    Problem.overlappingEnv.Acyclic ∧ Problem.overlappingEnv.HasBuiltIns ∧
      Problem.overlappingEnv.kindOf "U" = .ok .signed ∧
      ((sameBase (.named "x") (.named "y")).update Problem.overlappingEnv
        fun _ => .ofList ["U"]).assignment (.named "x") = .empty ∧
      ((sameBase (.named "x") (.named "y")).update Problem.overlappingEnv
        fun _ => .ofList ["U"]).assignment (.named "y") = .empty :=
  ⟨Problem.overlappingEnv_acyclic, Problem.overlappingEnv_complete.builtIns, by decide +kernel,
    by decide +kernel, by decide +kernel⟩

end Constraint

end DatalogTyping

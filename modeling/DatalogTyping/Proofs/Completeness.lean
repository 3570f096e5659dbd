import DatalogTyping.Proofs.Rounds
import DatalogTyping.Proofs.UnionFree

/-!
# The solver loses no typing

A typing chooses one type for each variable. `HoldsFor` says when a typing does
justice to a constraint. Without unions, if a typing does justice to all
constraints of a problem, the solver keeps a type above the chosen one for every
variable (`solve_allows_typing`). In particular no variable runs out of types
while there is a consistent typing.

The invariant is `Allows`, that each variable has a type above the chosen one,
together with the fact that the overloads which the typing uses are still
remembered. Meets keep it because two types above the chosen one are comparable;
tests keep it because what they look at, the root of a type or its fields, is the
same for all types above the chosen one.
-/

namespace DatalogTyping

/-- A type for each variable. -/
def Typing := TypeVar → String

/-- Each variable has a type above the one that the typing chooses. -/
def Assignment.Allows (env : TypeEnv) (typing : Typing) (A : Assignment) : Prop :=
  ∀ var, ∃ upper ∈ A var, env.isSubtype (typing var) upper

/-- The typing chooses types of the kinds that an overload has for its arguments
and its result. -/
structure Overload.Fits (overload : Overload) (env : TypeEnv) (typing : Typing)
    (result : TypeVar) (args : List TypeVar) : Prop where
  arity : overload.acceptsArity args.length
  param : ∀ (i : Nat) (arg : TypeVar), args[i]? = some arg →
    ∃ kind, overload.param? i = some kind ∧ env.isOfKind (typing arg) kind
  ofResult : env.isOfKind (typing result) overload.result

namespace Constraint

/-- What a constraint requires of a typing. -/
def HoldsFor (env : TypeEnv) (typing : Typing) : Constraint → Prop
  | subtypeOf var bound => env.isSubtype (typing var) bound
  | below var bound => env.isSubtype (typing var) (typing bound)
  | supertypeIn var values => ∃ value ∈ values, env.isSubtype (typing var) value
  | ofKind var kind _ => env.isOfKind (typing var) kind
  | sameBase left right => ∃ root kind, env.find? root = some (.constant kind) ∧
      env.baseType (typing left) = .ok root ∧ env.baseType (typing right) = .ok root
  | overload _ result args _ remaining =>
      ∃ choice ∈ remaining, choice.Fits env typing result args
  | recordOf var arity _ => env.isRecordOf arity (typing var)
  | component element record position =>
      ∃ field, env.field? position (typing record) = some field ∧
        env.isSubtype (typing element) field

/-- The sets that a constraint names are what they are in type inference: values
are constant types, records are chosen from all records, overloads are those of
the symbol. -/
def Standard (env : TypeEnv) : Constraint → Prop
  | supertypeIn _ values => ∀ value ∈ values, ∃ kind, TypeEnv.constantName? kind = some value
  | ofKind _ kind candidates => kind = .record ∧ candidates = env.recordTypes
  | overload symbol _ _ _ remaining => ∀ choice ∈ remaining, choice ∈ Overload.ofSymbol symbol
  | recordOf _ _ candidates => candidates = env.recordTypes
  | _ => True

end Constraint

/-! ### Sets that contain a type above a given one -/

section Above

variable {env : TypeEnv} {low : String}

theorem Assignment.Allows.set {typing : Typing} {A : Assignment} (allows : A.Allows env typing)
    {var : TypeVar} {types : TypeSet} (h : ∃ upper ∈ types, env.isSubtype (typing var) upper) :
    (A.set var types).Allows env typing := by
  intro other
  by_cases hother : other = var
  · subst hother
    rwa [Assignment.set_same]
  · rw [Assignment.set_of_ne _ _ _ hother]
    exact allows other

namespace TypeEnv

theorem UnionFree.exists_mem_meet (unionFree : env.UnionFree) {types others : TypeSet}
    (h : ∃ upper ∈ types, env.isSubtype low upper)
    (h' : ∃ upper ∈ others, env.isSubtype low upper) :
    ∃ upper ∈ env.meet types others, env.isSubtype low upper := by
  rcases types with _ | types
  · exact h'
  rcases others with _ | others
  · exact h
  obtain ⟨a, ha, hlow⟩ := h
  obtain ⟨b, hb, hlow'⟩ := h'
  obtain ⟨common, hcommon, habove⟩ := unionFree.exists_mem_commonSubtypes hlow hlow'
  refine ⟨common, ?_, habove⟩
  rw [meet_only, TypeSet.mem_only, mem_commonNames]
  exact ⟨a, TypeSet.mem_only.mp ha, b, TypeSet.mem_only.mp hb, hcommon⟩

/-- A test that all types above the given one pass loses none of them. -/
theorem exists_mem_filter {types candidates : TypeSet} {keep : String → Bool}
    (h : ∃ upper ∈ types, env.isSubtype low upper)
    (passes : ∀ {upper}, env.isSubtype low upper → keep upper)
    (candidate : ∃ upper ∈ candidates, env.isSubtype low upper) :
    ∃ upper ∈ types.filter keep candidates, env.isSubtype low upper := by
  cases types with
  | all => exact candidate
  | only names =>
      obtain ⟨upper, hupper, hlow⟩ := h
      refine ⟨upper, ?_, hlow⟩
      rw [TypeSet.filter, TypeSet.mem_only, Names.mem_filter]
      exact ⟨TypeSet.mem_only.mp hupper, passes hlow⟩

theorem KindsRise.hasKind_of_above (rise : env.KindsRise) {types : TypeSet} {kind : Kind}
    (h : ∃ upper ∈ types, env.isSubtype low upper) (hkind : env.isOfKind low kind) :
    env.hasKind types kind := by
  cases types with
  | all => rfl
  | only names =>
      obtain ⟨upper, hupper, hlow⟩ := h
      simp only [hasKind, List.any_eq_true, Names.mem_toList]
      exact ⟨upper, TypeSet.mem_only.mp hupper, rise hlow hkind⟩

/-- A type of a primitive kind is below its constant type. -/
theorem isSubtype_of_isOfKind {kind : Kind} {constant : String} (hkind : env.isOfKind low kind)
    (hconstant : constantName? kind = some constant) : env.isSubtype low constant := by
  cases kind <;> simp_all [isOfKind, constantName?]

theorem UnionFree.isSubtype_constant_up (unionFree : env.UnionFree) (builtIns : env.HasBuiltIns)
    {upper constant : String} {kind : Kind} (h : env.isSubtype low upper)
    (hconstant : constantName? kind = some constant) (hlow : env.isSubtype low constant) :
    env.isSubtype upper constant :=
  unionFree.isSubtype_end_up (next?_of_constant (builtIns.find?_constant hconstant)) h hlow

theorem mem_recordTypes_iff {name : String} :
    name ∈ env.recordTypes ↔ ∃ fields, env.recordFields? name = some fields := by
  simp only [recordTypes, TypeSet.ofList, TypeSet.mem_only, Names.mem_ofList, List.mem_filter,
    Option.isSome_iff_exists]
  refine ⟨And.right, fun record => ⟨mem_names_iff.mpr ?_, record⟩⟩
  obtain ⟨fields, hfields⟩ := record
  obtain ⟨root, path, hroot⟩ := recordFields?_eq_some.mp hfields
  rcases path.cases_head with rfl | ⟨target, htarget, -⟩
  · simp [isType, hroot]
  · simp [isType, target?_eq_some.mp htarget]

theorem mem_recordTypes {name : String} {fields : List String}
    (h : env.find? name = some (.record fields)) : name ∈ env.recordTypes :=
  mem_recordTypes_iff.mpr ⟨fields, recordFields?_eq_some.mpr ⟨name, .refl, h⟩⟩

theorem isRecordOf_iff {arity : Int} {name : String} :
    env.isRecordOf arity name ↔
      ∃ fields, env.recordFields? name = some fields ∧ (fields.length : Int) = arity := by
  unfold isRecordOf
  cases env.recordFields? name <;> simp

theorem UnionFree.exists_mem_recordTypes (unionFree : env.UnionFree) {fields : List String}
    (h : env.recordFields? low = some fields) :
    ∃ upper ∈ env.recordTypes, env.isSubtype low upper := by
  obtain ⟨root, path, hroot⟩ := recordFields?_eq_some.mp h
  exact ⟨root, mem_recordTypes hroot,
    (unionFree.isSubtype_end_iff (next?_of_record hroot)).mpr path.reaches⟩

end TypeEnv

end Above

/-! ### Overloads -/

namespace Overload

variable {env : TypeEnv} {typing : Typing} {A : Assignment} {overload : Overload}
  {result : TypeVar} {args : List TypeVar}

/-- Every overload has a result of a primitive kind. -/
theorem constantName?_result_isSome {symbol : String} (h : overload ∈ ofSymbol symbol) :
    (TypeEnv.constantName? overload.result).isSome := by
  have primitive : ∀ overload ∈ table, (TypeEnv.constantName? overload.result).isSome := by decide
  exact primitive overload (List.mem_filter.mp h).1

theorem Fits.isPossible (fits : overload.Fits env typing result args) (unionFree : env.UnionFree)
    (builtIns : env.HasBuiltIns) (allows : A.Allows env typing) :
    overload.isPossible env A result args := by
  have rise := unionFree.kindsRise builtIns
  refine isPossible_iff.mpr ⟨fits.arity, fun index arg harg => ?_, ?_⟩
  · obtain ⟨kind, hkind, hof⟩ := fits.param index arg harg
    exact ⟨kind, hkind, rise.hasKind_of_above (allows arg) hof⟩
  · exact rise.hasKind_of_above (allows result) fits.ofResult

/-- What an overload demands of a variable is true of the typing, and of every
type above it. -/
theorem Fits.isSubtype_of_demands (fits : overload.Fits env typing result args)
    (unionFree : env.UnionFree) (builtIns : env.HasBuiltIns) {var : TypeVar}
    {bound upper : String} (demand : overload.Demands result args var bound)
    (h : env.isSubtype (typing var) upper) : env.isSubtype upper bound := by
  rcases demand with ⟨i, hi, hbound⟩ | ⟨rfl, hbound⟩
  · obtain ⟨kind, hkind, hof⟩ := fits.param i var hi
    have hconstant : TypeEnv.constantName? kind = some bound := by
      simpa [boundsAt, hkind] using hbound
    exact unionFree.isSubtype_constant_up builtIns h hconstant
      (TypeEnv.isSubtype_of_isOfKind hof hconstant)
  · exact unionFree.isSubtype_constant_up builtIns h hbound
      (TypeEnv.isSubtype_of_isOfKind fits.ofResult hbound)

theorem Fits.apply_allows (fits : overload.Fits env typing result args) (unionFree : env.UnionFree)
    (builtIns : env.HasBuiltIns) (primitive : (TypeEnv.constantName? overload.result).isSome)
    (allows : A.Allows env typing) (subtypeResult : Bool) :
    (overload.apply env result args subtypeResult A).1.Allows env typing := by
  intro var
  cases hvar : A var with
  | all =>
      rcases apply_all env overload result args subtypeResult hvar with hall | ⟨rfl, -, hconstants⟩
      · rw [hall]
        exact ⟨typing var, TypeSet.mem_all _, env.isSubtype_refl _⟩
      · -- the result jumps from all types to one, which is above the chosen type
        obtain ⟨constant, hconstant⟩ := Option.isSome_iff_exists.mp primitive
        rw [hconstants]
        refine ⟨constant, ?_, TypeEnv.isSubtype_of_isOfKind fits.ofResult hconstant⟩
        simp [TypeEnv.constantTypes, TypeSet.ofList, hconstant]
  | only names =>
      obtain ⟨upper, hupper, hlow⟩ := allows var
      rw [hvar, TypeSet.mem_only] at hupper
      obtain ⟨bounds, demands, hnames⟩ :=
        apply_only env overload result args subtypeResult hvar
      rw [hnames]
      refine ⟨upper, ?_, hlow⟩
      rw [TypeSet.mem_only, Names.mem_filter, TypeEnv.isBelowAll, List.all_eq_true]
      exact ⟨hupper, fun bound hbound =>
        fits.isSubtype_of_demands unionFree builtIns (demands bound hbound) hlow⟩

end Overload

/-! ### Updates -/

namespace Constraint

variable {env : TypeEnv} {typing : Typing} {A : Assignment}

theorem update_standard {constraint : Constraint} (standard : constraint.Standard env) :
    (constraint.update env A).constraint.Standard env := by
  have evolves := (Evolves.same constraint).update env A
  generalize (constraint.update env A).constraint = updated at evolves
  cases evolves with
  | same => exact standard
  | fewer h => exact fun choice hchoice => standard choice (h.subset hchoice)

/-- The overloads that a typing uses are not forgotten. -/
theorem update_holdsFor (unionFree : env.UnionFree) (builtIns : env.HasBuiltIns)
    {constraint : Constraint} (holds : constraint.HoldsFor env typing)
    (allows : A.Allows env typing) :
    (constraint.update env A).constraint.HoldsFor env typing := by
  rw [update_constraint]
  cases constraint with
  | overload symbol result args subtypeResult remaining =>
      obtain ⟨choice, hchoice, fits⟩ := holds
      refine ⟨choice, List.mem_filter.mpr ⟨hchoice, ?_⟩, fits⟩
      exact fits.isPossible unionFree builtIns allows
  | _ => exact holds

theorem overload_allows (unionFree : env.UnionFree) (builtIns : env.HasBuiltIns)
    {symbol : String} {result : TypeVar} {args : List TypeVar} {subtypeResult : Bool}
    {remaining : List Overload}
    (standard : (overload symbol result args subtypeResult remaining).Standard env)
    (holds : (overload symbol result args subtypeResult remaining).HoldsFor env typing)
    (allows : A.Allows env typing) :
    ((overload symbol result args subtypeResult remaining).update env A).assignment.Allows
      env typing := by
  obtain ⟨choice, hchoice, fits⟩ := holds
  rw [update_overload]
  have live : choice ∈ remaining.filter (·.isPossible env A result args) :=
    List.mem_filter.mpr ⟨hchoice, fits.isPossible unionFree builtIns allows⟩
  generalize remaining.filter (·.isPossible env A result args) = possible at live
  rcases possible with _ | ⟨only, _ | ⟨other, rest⟩⟩
  · simp at live
  · obtain rfl : choice = only := by simpa using live
    exact fits.apply_allows unionFree builtIns
      (Overload.constantName?_result_isSome (standard choice hchoice)) allows subtypeResult
  · exact allows

theorem sameBase_allows (unionFree : env.UnionFree) {left right : TypeVar}
    (holds : (sameBase left right).HoldsFor env typing) (allows : A.Allows env typing) :
    ((sameBase left right).update env A).assignment.Allows env typing := by
  obtain ⟨root, kind, hroot, hleft, hright⟩ := holds
  -- the base of the chosen types is the base of everything above them
  have ends := TypeEnv.next?_of_constant hroot
  have above : ∀ {low upper : String}, env.isSubtype low upper → env.baseType low = .ok root →
      env.isSubtype upper root := by
    intro low upper h hbase
    rw [unionFree.isSubtype_end_iff ends, ← TypeEnv.baseType_eq_ok_iff ends]
    exact unionFree.baseType_up h ends hbase
  have mem_bases : ∀ {var : TypeVar} {names : Names}, A var = .only names →
      env.baseType (typing var) = .ok root → root ∈ env.constantBases names := by
    intro var names hnames hbase
    obtain ⟨upper, hupper, hlow⟩ := allows var
    rw [hnames, TypeSet.mem_only] at hupper
    exact TypeEnv.mem_constantBases.mpr
      ⟨⟨kind, hroot⟩, upper, hupper, unionFree.baseType_up hlow ends hbase⟩
  cases hl : A left with
  | all =>
      cases hr : A right with
      | all =>
          rw [update_sameBase_all_all hl hr]
          exact allows
      | only others =>
          rw [update_sameBase_all_only hl hr]
          exact allows.set ⟨root, TypeSet.mem_only.mpr (mem_bases hr hright),
            above (env.isSubtype_refl _) hleft⟩
  | only types =>
      cases hr : A right with
      | all =>
          rw [update_sameBase_only_all hl hr]
          exact allows.set ⟨root, TypeSet.mem_only.mpr (mem_bases hl hleft),
            above (env.isSubtype_refl _) hright⟩
      | only others =>
          rw [update_sameBase_only_only hl hr]
          have kept : ∀ {var : TypeVar} {names : Names}, A var = .only names →
              env.baseType (typing var) = .ok root →
              ∃ upper ∈ TypeSet.only (names.filter (env.isBelowOne (commonBases env types others))),
                env.isSubtype (typing var) upper := by
            intro var names hnames hbase
            obtain ⟨upper, hupper, hlow⟩ := allows var
            rw [hnames, TypeSet.mem_only] at hupper
            refine ⟨upper, ?_, hlow⟩
            simp only [TypeSet.mem_only, Names.mem_filter, TypeEnv.isBelowOne, List.any_eq_true,
              Names.mem_toList]
            exact ⟨hupper, root, Names.mem_inter.mpr ⟨mem_bases hl hleft, mem_bases hr hright⟩,
              above hlow hbase⟩
          exact (allows.set (kept hl hleft)).set (kept hr hright)

theorem component_allows (unionFree : env.UnionFree) {element record : TypeVar} {position : Int}
    (holds : (component element record position).HoldsFor env typing)
    (allows : A.Allows env typing) :
    ((component element record position).update env A).assignment.Allows env typing := by
  obtain ⟨field, hfield, hbelow⟩ := holds
  cases hr : A record with
  | all =>
      rw [update_component_all hr]
      exact allows
  | only records =>
      rw [update_component_only hr]
      obtain ⟨upper, hupper, hlow⟩ := allows record
      rw [hr, TypeSet.mem_only] at hupper
      -- a record above the chosen one is the same record under another name
      have hfield' : env.field? position upper = some field := by
        obtain ⟨fields, hfields, hat⟩ := Option.bind_eq_some_iff.mp hfield
        exact Option.bind_eq_some_iff.mpr ⟨fields, unionFree.recordFields?_up hlow hfields, hat⟩
      refine Assignment.Allows.set (allows.set ⟨upper, ?_, hlow⟩) ?_
      · simp [hupper, hasField, hfield']
      · refine unionFree.exists_mem_meet (allows element) ⟨field, ?_, hbelow⟩
        simp only [fieldsAt, TypeSet.mem_only, Names.mem_ofList, List.mem_filterMap,
          Names.mem_toList]
        exact ⟨upper, hupper, hfield'⟩

/-- No update takes the last type above the chosen one away from a variable. -/
theorem update_allows (unionFree : env.UnionFree) (builtIns : env.HasBuiltIns)
    {constraint : Constraint} (standard : constraint.Standard env)
    (holds : constraint.HoldsFor env typing) (allows : A.Allows env typing) :
    (constraint.update env A).assignment.Allows env typing := by
  cases constraint with
  | subtypeOf var bound =>
      rw [update_subtypeOf]
      exact allows.set
        (unionFree.exists_mem_meet (allows var) ⟨bound, by simp [TypeSet.single], holds⟩)
  | below var bound =>
      rw [update_below]
      refine allows.set (unionFree.exists_mem_meet (allows var) ?_)
      obtain ⟨upper, hupper, hlow⟩ := allows bound
      exact ⟨upper, hupper, unionFree.isSubtype_trans holds hlow⟩
  | supertypeIn var values =>
      rw [update_supertypeIn]
      refine allows.set ?_
      obtain ⟨value, hvalue, hbelow⟩ := holds
      obtain ⟨upper, hupper, hlow⟩ := allows var
      cases hvar : A var with
      | all => exact ⟨value, hvalue, hbelow⟩
      | only names =>
          rw [hvar] at hupper
          cases values with
          | all => exact ⟨upper, hupper, hlow⟩
          | only values =>
              -- the value is a constant type: what is above the chosen type is below it
              obtain ⟨kind, hconstant⟩ := standard value hvalue
              refine ⟨upper, ?_, hlow⟩
              simp only [restrictTo, TypeSet.mem_only, Names.mem_filter, TypeEnv.isBelowOne,
                List.any_eq_true, Names.mem_toList]
              exact ⟨TypeSet.mem_only.mp hupper, value, TypeSet.mem_only.mp hvalue,
                unionFree.isSubtype_constant_up builtIns hlow hconstant hbelow⟩
  | ofKind var kind candidates =>
      obtain ⟨rfl, rfl⟩ := standard
      rw [update_ofKind]
      refine allows.set (TypeEnv.exists_mem_filter (allows var) ?_ ?_)
      · exact fun hlow => unionFree.kindsRise builtIns hlow holds
      · obtain ⟨root, ⟨fields, hroot⟩, up⟩ := (unionFree.isOfKind_iff builtIns).mp holds
        exact ⟨root, TypeEnv.mem_recordTypes hroot,
          (unionFree.isSubtype_end_iff (TypeEnv.next?_of_record hroot)).mpr up⟩
  | recordOf var arity candidates =>
      obtain rfl := standard
      rw [update_recordOf]
      obtain ⟨fields, hfields, harity⟩ := TypeEnv.isRecordOf_iff.mp holds
      have fits : ∀ {upper}, env.isSubtype (typing var) upper → env.isRecordOf arity upper :=
        fun hlow => TypeEnv.isRecordOf_iff.mpr
          ⟨fields, unionFree.recordFields?_up hlow hfields, harity⟩
      refine allows.set (TypeEnv.exists_mem_filter (allows var) fits ?_)
      exact TypeEnv.exists_mem_filter (unionFree.exists_mem_recordTypes hfields) fits
        ⟨typing var, TypeSet.mem_all _, env.isSubtype_refl _⟩
  | sameBase left right => exact sameBase_allows unionFree holds allows
  | overload symbol result args subtypeResult remaining =>
      exact overload_allows unionFree builtIns standard holds allows
  | component element record position => exact component_allows unionFree holds allows

end Constraint

/-! ### Solutions -/

/-- If a typing does justice to every constraint, the solver keeps a type above
the chosen one for every variable, so that none of them ends up empty. -/
theorem Problem.solve_allows_typing {env : TypeEnv} (unionFree : env.UnionFree)
    (builtIns : env.HasBuiltIns) {problem : Problem}
    (standard : ∀ constraint ∈ problem.constraints, constraint.Standard env) {typing : Typing}
    (holds : ∀ constraint ∈ problem.constraints, constraint.HoldsFor env typing)
    {solution : Round} (h : problem.solve env = .ok solution) (var : TypeVar) :
    (solution.assignment var = .all ∨
      ∃ names, solution.assignment var = .only names ∧
        ∃ upper ∈ names, env.isSubtype (typing var) upper) ∧
      solution.assignment var ≠ .empty := by
  have start : List.Forall₂
      (fun _ current => current.Standard env ∧ current.HoldsFor env typing)
      problem.constraints problem.constraints :=
    List.forall₂_same.mpr fun constraint hmem => ⟨standard constraint hmem, holds constraint hmem⟩
  have unknown : Assignment.start.Allows env typing :=
    fun var => ⟨typing var, TypeSet.mem_all _, env.isSubtype_refl _⟩
  obtain ⟨last, before, -, allows, rfl, hchanged⟩ :=
    settle_preserves _ (Assignment.Allows env typing)
      (fun ⟨hstandard, hholds⟩ allows =>
        ⟨⟨Constraint.update_standard hstandard,
          Constraint.update_holdsFor unionFree builtIns hholds allows⟩,
          Constraint.update_allows unionFree builtIns hstandard hholds allows⟩) start unknown h
  rw [(sweep_unchanged hchanged).1]
  obtain ⟨upper, hupper, hlow⟩ := allows var
  cases hvar : before var with
  | all => exact ⟨.inl rfl, by simp [TypeSet.empty]⟩
  | only names =>
      rw [hvar, TypeSet.mem_only] at hupper
      refine ⟨.inr ⟨names, rfl, upper, hupper, hlow⟩, ?_⟩
      rw [TypeSet.empty, Ne, TypeSet.only.injEq]
      rintro rfl
      simp at hupper

/-- Even numbers, a record that begins with one, and another name for it. -/
def coupleEnv : TypeEnv :=
  ⟨TypeEnv.builtIn.entries ++ [("even", .subset "number"), ("pair", .record ["even", "symbol"]),
    ("couple", .synonym "pair")]⟩

/-- The first field of a record of two, added to itself. -/
def coupleProblem : Problem :=
  { vars := [.named "p", .named "x", .named "y", .named "z"]
    constraints := [.recordOf (.named "p") 2 coupleEnv.recordTypes,
      .component (.named "x") (.named "p") 0,
      .below (.named "y") (.named "x"),
      .supertypeIn (.named "y") (TypeEnv.constantTypes [.signed, .float]),
      .anyOverload "+" (.named "z") [.named "y", .named "y"] true,
      .sameBase (.named "y") (.named "z")] }

/-- The record under its other name, and numbers for the rest. -/
def coupleTyping : Typing
  | .named "p" => "couple"
  | .named "z" => "number"
  | _ => "even"

theorem solve_allows_coupleTyping :
    ∃ solution, coupleProblem.solve coupleEnv = .ok solution ∧ ∀ var : TypeVar,
      (solution.assignment var = .all ∨
        ∃ names, solution.assignment var = .only names ∧
          ∃ upper ∈ names, coupleEnv.isSubtype (coupleTyping var) upper) ∧
        solution.assignment var ≠ .empty := by
  have solved : (coupleProblem.solve coupleEnv).toOption.isSome := by decide +kernel
  have standard : ∀ constraint ∈ coupleProblem.constraints, constraint.Standard coupleEnv := by
    simp only [coupleProblem, List.forall_mem_cons, Constraint.anyOverload, Constraint.Standard]
    refine ⟨trivial, trivial, trivial, ?_, fun choice hchoice => hchoice, trivial, by simp⟩
    intro value hvalue
    have cases : value = "__numberConstant" ∨ value = "__floatConstant" := by
      simpa [TypeEnv.constantTypes, TypeEnv.constantName?, TypeSet.ofList] using hvalue
    rcases cases with rfl | rfl
    · exact ⟨.signed, rfl⟩
    · exact ⟨.float, rfl⟩
  have holds : ∀ constraint ∈ coupleProblem.constraints,
      constraint.HoldsFor coupleEnv coupleTyping := by
    simp only [coupleProblem, List.forall_mem_cons, Constraint.anyOverload, Constraint.HoldsFor]
    refine ⟨by decide, ⟨"even", by decide, by decide⟩, by decide,
      ⟨"__numberConstant", by decide, by decide⟩, ?_,
      ⟨"__numberConstant", .signed, by decide, by decide, by decide⟩, by simp⟩
    refine ⟨⟨"+", [.signed, .signed], .signed, .add, false, false⟩, by decide, by decide, ?_,
      by decide⟩
    intro i arg harg
    rcases i with _ | _ | i
    · obtain rfl : TypeVar.named "y" = arg := by simpa using harg
      exact ⟨.signed, rfl, by decide⟩
    · obtain rfl : TypeVar.named "y" = arg := by simpa using harg
      exact ⟨.signed, rfl, by decide⟩
    · simp at harg
  cases h : coupleProblem.solve coupleEnv with
  | error fault => simp [h, Except.toOption] at solved
  | ok solution =>
      refine ⟨solution, rfl, fun var => ?_⟩
      exact Problem.solve_allows_typing (TypeEnv.unionFree_of_names (by decide))
        (by unfold TypeEnv.HasBuiltIns; decide)
        standard holds h var

end DatalogTyping

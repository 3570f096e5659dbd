import DatalogTyping.Proofs.Declared
import DatalogTyping.Proofs.Updates

/-!
# What becomes of a variable

An update does one of three things to a variable. It meets the set with another
one, which includes leaving it alone and installing a first set; it keeps the
members that pass a test which whatever is below a passing type passes as well;
or it keeps the members that pass the test of a constraint on records. `Effect`
has these three cases, and `update_effect` says that there are no others.

So what updates preserve is proved by three cases instead of one for each
constraint and state. The first such property is that all names stay names of
types, for constraints that name only types themselves (`NamesTypes`). The ones
that clauses pose do; they are `Proper`, which asks for more.
-/

namespace DatalogTyping

/-- All members of the set, if it is finite, are types. -/
def TypeSet.Known (env : TypeEnv) : TypeSet → Prop
  | .all => True
  | .only names => ∀ name ∈ names, env.isType name

namespace Constraint

variable {env : TypeEnv} {A : Assignment}

/-- The constraint names types and finite sets of types, asks for no sum types where
it asks for a kind, and counts the fields of a record from the front. -/
def Proper (env : TypeEnv) : Constraint → Prop
  | subtypeOf _ bound => env.isType bound
  | supertypeIn _ values => values ≠ .all ∧ values.Known env
  | ofKind _ kind candidates => kind ≠ .adt ∧ candidates ≠ .all ∧ candidates.Known env
  | recordOf _ _ candidates => candidates ≠ .all ∧ candidates.Known env
  | component element record position => element ≠ record ∧ 0 ≤ position
  | below _ _ | sameBase _ _ | overload _ _ _ _ _ => True

/-- Whatever the constraint names is a type. -/
def NamesTypes (env : TypeEnv) : Constraint → Prop
  | subtypeOf _ bound => env.isType bound
  | supertypeIn _ values => values.Known env
  | ofKind _ _ candidates | recordOf _ _ candidates => candidates.Known env
  | below _ _ | sameBase _ _ | overload _ _ _ _ _ | component _ _ _ => True

theorem Proper.namesTypes {constraint : Constraint} (proper : constraint.Proper env) :
    constraint.NamesTypes env := by
  cases constraint with
  | subtypeOf _ _ => exact proper
  | supertypeIn _ _ => exact proper.2
  | ofKind _ _ _ => exact proper.2.2
  | recordOf _ _ _ => exact proper.2
  | _ => trivial

/-- Whatever goes into an update is a type. -/
structure AmongTypes (env : TypeEnv) (A : Assignment) (constraint : Constraint) : Prop where
  complete : env.Complete
  named : constraint.NamesTypes env
  known : ∀ var, (A var).Known env

/-- The variable that a constraint tests the members of, and the test. -/
def test? (env : TypeEnv) : Constraint → Option (TypeVar × (String → Bool))
  | ofKind var kind _ => some (var, (env.isOfKind · kind))
  | recordOf var arity _ => some (var, env.isRecordOf arity)
  | component _ record position => some (record, hasField env position)
  | _ => none

/-- What an update makes of the set of a variable. -/
inductive Effect (env : TypeEnv) (A : Assignment) (constraint : Constraint) (var : TypeVar) :
    TypeSet → TypeSet → Prop
  | met {types others : TypeSet} (known : constraint.AmongTypes env A → others.Known env) :
      Effect env A constraint var types (env.meet types others)
  | kept {names : Names} {keep : String → Bool}
      (down : ∀ {a b}, env.isSubtype a b → keep b → keep a) :
      Effect env A constraint var (.only names) (.only (names.filter keep))
  | tested {names : Names} {keep : String → Bool}
      (test : constraint.test? env = some (var, keep)) :
      Effect env A constraint var (.only names) (.only (names.filter keep))

namespace Effect

variable {constraint : Constraint} {var : TypeVar} {types others : TypeSet}

theorem untouched (types : TypeSet) : Effect env A constraint var types types := by
  have effect : Effect env A constraint var types (env.meet types .all) := .met fun _ => trivial
  rwa [TypeEnv.meet_all_right] at effect

theorem installed (known : constraint.AmongTypes env A → others.Known env) :
    Effect env A constraint var .all others :=
  .met known

end Effect

/-! ### Names of types -/

theorem known_ofList {names : List String} (h : ∀ name ∈ names, env.isType name) :
    (TypeSet.ofList names).Known env := by
  intro name hname
  exact h name (Names.mem_ofList.mp hname)

theorem known_filter {types : TypeSet} {keep : String → Bool} (h : types.Known env) :
    (types.filter keep .all).Known env := by
  cases types with
  | all => trivial
  | only names => exact fun name hname => h name (Names.mem_filter.mp hname).1

theorem isType_constant (builtIns : env.HasBuiltIns) {kind : Kind} {constant : String}
    (h : TypeEnv.constantName? kind = some constant) : env.isType constant := by
  simp [TypeEnv.isType, builtIns.find?_constant h]

theorem known_constantTypes (builtIns : env.HasBuiltIns) (kinds : List Kind) :
    (TypeEnv.constantTypes kinds).Known env := by
  refine known_ofList fun name hname => ?_
  obtain ⟨kind, -, hkind⟩ := List.mem_filterMap.mp hname
  exact isType_constant builtIns hkind

theorem known_constantBases (names : Names) :
    (TypeSet.only (env.constantBases names)).Known env := by
  intro root hroot
  obtain ⟨⟨kind, hkind⟩, -⟩ := TypeEnv.mem_constantBases.mp hroot
  simp [TypeEnv.isType, hkind]

end Constraint

namespace TypeEnv

variable {env : TypeEnv} {a b : String}

theorem Closed.isType_of_field? (closed : env.Closed) {position : Int} {field : String}
    (h : env.field? position a = some field) : env.isType field := by
  obtain ⟨fields, hfields, hat⟩ := Option.bind_eq_some_iff.mp h
  obtain ⟨root, -, hroot⟩ := recordFields?_eq_some.mp hfields
  refine closed _ _ hroot field ?_
  cases position with
  | ofNat i => exact List.mem_of_getElem? hat
  | negSucc i => exact List.mem_reverse.mp (List.mem_of_getElem? hat)

theorem Closed.isType_of_mem_commonSubtypes (closed : env.Closed) (ha : env.isType a)
    (hb : env.isType b) {common : String} (h : common ∈ env.commonSubtypes a b) :
    env.isType common :=
  (linked_of_mem_commonSubtypes h).elim (closed.isType_of_linked ha) (closed.isType_of_linked hb)

theorem Closed.known_meet (closed : env.Closed) {types others : TypeSet} (h : types.Known env)
    (h' : others.Known env) : (env.meet types others).Known env := by
  rcases types with _ | types
  · exact h'
  rcases others with _ | others
  · exact h
  intro name hname
  obtain ⟨a, ha, b, hb, hcommon⟩ := mem_commonNames.mp hname
  exact closed.isType_of_mem_commonSubtypes (h a ha) (h' b hb) hcommon

end TypeEnv

/-! ### The effects of an update -/

namespace Constraint

variable {env : TypeEnv} {A : Assignment}

theorem down_isBelowAll (acyclic : env.Acyclic) (bounds : List String) {a b : String}
    (h : env.isSubtype a b) (hb : env.isBelowAll bounds b) : env.isBelowAll bounds a := by
  rw [TypeEnv.isBelowAll, List.all_eq_true] at hb ⊢
  exact fun bound hbound => acyclic.isSubtype_trans h (hb bound hbound)

theorem down_isBelowOne (acyclic : env.Acyclic) (bounds : Names) {a b : String}
    (h : env.isSubtype a b) (hb : env.isBelowOne bounds b) : env.isBelowOne bounds a := by
  rw [TypeEnv.isBelowOne, List.any_eq_true] at hb ⊢
  obtain ⟨bound, hbound, hsub⟩ := hb
  exact ⟨bound, hbound, acyclic.isSubtype_trans h hsub⟩

/-- Storing a set has its effect on the one variable and none on the others. -/
theorem effect_set {constraint : Constraint} {var : TypeVar} {types : TypeSet}
    (effect : Effect env A constraint var (A var) types) (other : TypeVar) :
    Effect env A constraint other (A other) (A.set var types other) := by
  by_cases h : other = var
  · subst h
    rwa [Assignment.set_same]
  · rw [Assignment.set_of_ne _ _ _ h]
    exact .untouched _

theorem effect_apply (acyclic : env.Acyclic) (constraint : Constraint) (choice : Overload)
    (result : TypeVar) (args : List TypeVar) (subtypeResult : Bool) (var : TypeVar) :
    Effect env A constraint var (A var)
      ((choice.apply env result args subtypeResult A).1 var) := by
  cases hvar : A var with
  | all =>
      rcases Overload.apply_all env choice result args subtypeResult hvar with h | ⟨-, -, h⟩
      · rw [h]
        exact .untouched _
      · rw [h]
        exact .installed fun among => known_constantTypes among.complete.builtIns _
  | only names =>
      obtain ⟨bounds, -, h⟩ := Overload.apply_only env choice result args subtypeResult hvar
      rw [h]
      exact .kept (down_isBelowAll acyclic bounds)

theorem effect_narrowTo (acyclic : env.Acyclic) (constraint : Constraint) (result : TypeVar)
    (args : List TypeVar) (subtypeResult : Bool) (live : List Overload) (var : TypeVar) :
    Effect env A constraint var (A var)
      ((Overload.narrowTo env result args subtypeResult A live).1 var) := by
  rcases live with _ | ⟨choice, _ | ⟨other, rest⟩⟩
  · rw [Overload.narrowTo, Assignment.narrow_fst]
    refine effect_set ?_ var
    cases hresult : A result with
    | all => exact .installed fun _ name hname => absurd hname (Names.notMem_empty name)
    | only names =>
        -- emptying a set is keeping the members that pass a test which nothing passes
        have none_kept : names.filter (fun _ => false) = .empty := Names.ext_mem (by simp)
        have effect : Effect env A constraint result (.only names)
            (.only (names.filter fun _ => false)) := .kept (by simp)
        rwa [none_kept] at effect
  · exact effect_apply acyclic constraint choice result args subtypeResult var
  · exact .untouched _

theorem effect_sameBase (acyclic : env.Acyclic) (left right var : TypeVar) :
    Effect env A (sameBase left right) var (A var)
      (((sameBase left right).update env A).assignment var) := by
  cases hl : A left with
  | all =>
      cases hr : A right with
      | all =>
          rw [update_sameBase_all_all hl hr]
          exact .untouched _
      | only others =>
          rw [update_sameBase_all_only hl hr]
          refine effect_set ?_ var
          rw [hl]
          exact .installed fun _ => known_constantBases others
  | only types =>
      cases hr : A right with
      | all =>
          rw [update_sameBase_only_all hl hr]
          refine effect_set ?_ var
          rw [hr]
          exact .installed fun _ => known_constantBases types
      | only others =>
          rw [update_sameBase_only_only hl hr]
          simp only
          -- the right side is stored last, so it counts if both are one variable
          by_cases hright : var = right
          · subst hright
            rw [Assignment.set_same, hr]
            exact .kept (down_isBelowOne acyclic _)
          · rw [Assignment.set_of_ne _ _ _ hright]
            refine effect_set ?_ var
            rw [hl]
            exact .kept (down_isBelowOne acyclic _)

theorem effect_component (element record : TypeVar) (position : Int) (var : TypeVar) :
    Effect env A (component element record position) var (A var)
      (((component element record position).update env A).assignment var) := by
  cases hr : A record with
  | all =>
      rw [update_component_all hr]
      exact .untouched _
  | only records =>
      rw [update_component_only hr]
      simp only
      by_cases helement : var = element
      · subst helement
        rw [Assignment.set_same]
        refine .met fun among field hfield => ?_
        simp only [fieldsAt, Names.mem_ofList, List.mem_filterMap] at hfield
        obtain ⟨owner, -, hfield⟩ := hfield
        exact among.complete.closed.isType_of_field? hfield
      · rw [Assignment.set_of_ne _ _ _ helement]
        refine effect_set ?_ var
        rw [hr]
        exact .tested rfl

/-- An update has one of the three effects on each variable. -/
theorem update_effect (acyclic : env.Acyclic) (constraint : Constraint) (var : TypeVar) :
    Effect env A constraint var (A var) ((constraint.update env A).assignment var) := by
  cases constraint with
  | subtypeOf bounded bound =>
      rw [update_subtypeOf]
      refine effect_set (.met ?_) var
      intro among name hname
      rw [Names.mem_single.mp hname]
      exact among.named
  | below bounded bound =>
      rw [update_below]
      exact effect_set (.met fun among => among.known bound) var
  | supertypeIn bounded values =>
      rw [update_supertypeIn]
      refine effect_set ?_ var
      cases A bounded with
      | all => exact .installed fun among => among.named
      | only names =>
          cases values with
          | all => exact .untouched _
          | only values => exact .kept (down_isBelowOne acyclic values)
  | ofKind tested kind candidates =>
      rw [update_ofKind]
      refine effect_set ?_ var
      cases A tested with
      | all => exact .installed fun among => among.named
      | only names => exact .tested rfl
  | recordOf tested arity candidates =>
      rw [update_recordOf]
      refine effect_set ?_ var
      cases A tested with
      | all => exact .installed fun among => known_filter among.named
      | only names => exact .tested rfl
  | sameBase left right => exact effect_sameBase acyclic left right var
  | overload symbol result args subtypeResult remaining =>
      rw [update_overload]
      exact effect_narrowTo acyclic _ result args subtypeResult _ var
  | component element record position => exact effect_component element record position var

/-- Updates bring in no names but those of types. -/
theorem update_known (acyclic : env.Acyclic) (complete : env.Complete)
    {constraint : Constraint} (named : constraint.NamesTypes env)
    (known : ∀ var, (A var).Known env) (var : TypeVar) :
    ((constraint.update env A).assignment var).Known env := by
  have effect := update_effect acyclic constraint (A := A) var
  have before := known var
  generalize A var = types, (constraint.update env A).assignment var = after at effect before
  cases effect with
  | met hothers => exact complete.closed.known_meet before (hothers ⟨complete, named, known⟩)
  | kept down => exact fun name hname => before name (Names.mem_filter.mp hname).1
  | tested test => exact fun name hname => before name (Names.mem_filter.mp hname).1

/-! ### Other things that updates keep -/

/-- An update only touches the variables of its constraint. -/
theorem update_frame {constraint : Constraint} {var : TypeVar} (h : var ∉ constraint.vars) :
    (constraint.update env A).assignment var = A var := by
  cases constraint with
  | subtypeOf bounded bound => simp_all [update_subtypeOf, vars]
  | below bounded bound => simp_all [update_below, vars]
  | supertypeIn bounded values => simp_all [update_supertypeIn, vars]
  | ofKind tested kind candidates => simp_all [update_ofKind, vars]
  | recordOf tested arity candidates => simp_all [update_recordOf, vars]
  | sameBase left right =>
      simp only [vars, List.mem_cons, List.not_mem_nil, or_false, not_or] at h
      rcases hl : A left with _ | types <;> rcases hr : A right with _ | others
      · rw [update_sameBase_all_all hl hr]
      · simp [update_sameBase_all_only hl hr, h]
      · simp [update_sameBase_only_all hl hr, h]
      · simp [update_sameBase_only_only hl hr, h]
  | overload symbol result args subtypeResult remaining =>
      simp only [vars, List.mem_cons, not_or] at h
      rw [update_overload]
      exact Overload.narrowTo_frame h.1 h.2
  | component element record position =>
      simp only [vars, List.mem_cons, List.not_mem_nil, or_false, not_or] at h
      rcases hr : A record with _ | records
      · rw [update_component_all hr]
      · simp [update_component_only hr, h]

theorem Proper.separate {constraint : Constraint} (proper : constraint.Proper env) :
    constraint.Separate := by
  cases constraint with
  | component element record position => exact proper.1
  | _ => trivial

/-- The sets that the constraint gives are finite. -/
def GivesFinite : Constraint → Prop
  | supertypeIn _ values => values ≠ .all
  | ofKind _ _ candidates | recordOf _ _ candidates => candidates ≠ .all
  | _ => True

/-- The constraint counts fields from the front, if it counts any. -/
def FromFront : Constraint → Prop
  | component _ _ position => 0 ≤ position
  | _ => True

theorem fault?_of_fromFront {constraint : Constraint} (finite : constraint.GivesFinite)
    (front : constraint.FromFront) : constraint.fault? env A = none := by
  cases constraint with
  | supertypeIn bounded values =>
      obtain ⟨values, rfl⟩ := TypeSet.ne_all_iff.mp finite
      rfl
  | component element record position =>
      obtain ⟨index, rfl⟩ := Int.eq_ofNat_of_zero_le front
      rfl
  | _ => rfl

/-- A proper constraint can be updated. -/
theorem fault?_of_proper {constraint : Constraint} (proper : constraint.Proper env) :
    constraint.fault? env A = none := by
  cases constraint with
  | supertypeIn bounded values => exact fault?_of_fromFront proper.1 trivial
  | component element record position => exact fault?_of_fromFront trivial proper.2
  | _ => rfl

end Constraint

end DatalogTyping

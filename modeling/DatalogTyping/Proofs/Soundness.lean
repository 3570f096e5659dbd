import DatalogTyping.Proofs.Rounds

/-!
# A solution satisfies its constraints

`Satisfied` says what a constraint means for an assignment, without reference to
how it is updated. In an environment without cycles, the assignment that a
problem is solved with satisfies all of its constraints
(`solve_satisfies_constraints`).

The solver trusts the flags of the updates. So the argument is that an update
which reports no change has found the constraint satisfied, apart from overload
constraints: these have forgotten overloads on the way. But what they have
forgotten is not missing at the end. If the one overload that is still possible
had been forgotten, the update would have found none and emptied the result, and
then that overload would not be possible.
-/

namespace DatalogTyping

/-- A finite set whose members all satisfy a condition. -/
def TypeSet.Consists (types : TypeSet) (condition : String → Prop) : Prop :=
  ∃ names, types = .only names ∧ ∀ name ∈ names, condition name

namespace TypeEnv

/-- The type is of a primitive kind. The other kinds ask for nothing here. -/
def FitsKind (env : TypeEnv) (kind : Kind) (name : String) : Prop :=
  ∀ constant, constantName? kind = some constant → env.isSubtype name constant

/-- A constant type that a member of each of two sets is carved from. -/
def SharedBase (env : TypeEnv) (types others : Names) (root : String) : Prop :=
  (∃ kind, env.find? root = some (.constant kind)) ∧
    (∃ name ∈ types, env.baseType name = .ok root) ∧ ∃ name ∈ others, env.baseType name = .ok root

end TypeEnv

/-- The arguments and the result of a functor fit an overload, as far as anything
is known about them. Of the arguments of `ord` nothing is asked; the result has to
be known, unless it may be any subtype. -/
structure Overload.Pins (overload : Overload) (env : TypeEnv) (A : Assignment) (result : TypeVar)
    (args : List TypeVar) (subtypeResult : Bool) : Prop where
  argsFit : overload.op ≠ .ord → ∀ (i : Nat) (arg : TypeVar) (kind : Kind) (names : Names),
    args[i]? = some arg → overload.param? i = some kind → A arg = .only names →
    ∀ name ∈ names, env.FitsKind kind name
  resultFits : ∀ names, A result = .only names →
    ∀ name ∈ names, env.FitsKind overload.result name
  resultKnown : A result = .all → subtypeResult = true

namespace Constraint

/-- What a constraint requires of an assignment. -/
def Satisfied (env : TypeEnv) (A : Assignment) : Constraint → Prop
  | subtypeOf var bound => (A var).Consists fun name => env.isSubtype name bound
  | below var bound => ∀ bounds, A bound = .only bounds →
      (A var).Consists fun name => ∃ upper ∈ bounds, env.isSubtype name upper
  | supertypeIn var values =>
      (A var).Consists fun name => ∃ value ∈ values, env.isSubtype name value
  | ofKind var kind _ => (A var).Consists fun name => env.isOfKind name kind
  | sameBase left right =>
      (A left = .all ∧ A right = .all) ∨
        ∃ types others, A left = .only types ∧ A right = .only others ∧
          ∀ name, name ∈ types ∨ name ∈ others →
            ∃ root, env.SharedBase types others root ∧ env.isSubtype name root
  | overload _ result args subtypeResult remaining =>
      let live := remaining.filter (·.isPossible env A result args)
      (live = [] → A result = .empty) ∧
        ∀ choice, live = [choice] → choice.Pins env A result args subtypeResult
  | recordOf var arity _ => (A var).Consists fun name => env.isRecordOf arity name
  | component element record position => ∀ records, A record = .only records →
      (∀ name ∈ records, hasField env position name) ∧
        (A element).Consists fun name =>
          ∃ owner ∈ records, ∃ field, env.field? position owner = some field ∧
            env.isSubtype name field

/-- The sets of types that a constraint names are finite. -/
def Finite : Constraint → Prop
  | supertypeIn _ values => values ≠ .all
  | ofKind _ _ candidates | recordOf _ _ candidates => candidates ≠ .all
  | _ => True

/-! ### Updates that report no change -/

section Unchanged

variable {env : TypeEnv} {A : Assignment}

/-- A set that is its own meet with a finite set is finite, with each member below
one of the other's. -/
theorem consists_of_meet (acyclic : env.Acyclic) {types : TypeSet} {bounds : Names}
    (h : types = env.meet types (.only bounds)) :
    types.Consists fun name => ∃ upper ∈ bounds, env.isSubtype name upper := by
  cases types with
  | all =>
      rw [TypeEnv.meet_all_left] at h
      cases h
  | only names =>
      rw [TypeEnv.meet_only, TypeSet.only.injEq] at h
      refine ⟨names, rfl, fun name hname => ?_⟩
      rw [h] at hname
      exact (acyclic.exists_above_of_mem_commonNames hname).2

/-- A set that is not changed by a filter, the set of all types replaced by a
finite one, is finite, with each member passing. -/
theorem consists_of_filter {types candidates : TypeSet} {keep : String → Bool}
    (finite : candidates ≠ .all) (h : types = types.filter keep candidates) :
    types.Consists fun name => keep name := by
  cases types with
  | all => exact absurd h.symm finite
  | only names =>
      rw [TypeSet.filter, TypeSet.only.injEq] at h
      exact ⟨names, rfl, Names.filter_eq_self.mp h.symm⟩

theorem filter_ne_all {types : TypeSet} {keep : String → Bool} (h : types ≠ .all) :
    types.filter keep .all ≠ .all := by
  cases types with
  | all => exact absurd rfl h
  | only names => simp [TypeSet.filter]

theorem sharedBase_of_mem {types others : Names} {root : String}
    (h : root ∈ commonBases env types others) : env.SharedBase types others root := by
  obtain ⟨hleft, hright⟩ := Names.mem_inter.mp h
  rw [TypeEnv.mem_constantBases] at hleft hright
  exact ⟨hleft.1, hleft.2, hright.2⟩

theorem fitsKind_of_unchanged {names : Names} {kind : Kind}
    (h : (TypeSet.only names).filter (env.isBelowAll (TypeEnv.constantName? kind).toList) .all =
      .only names) : ∀ name ∈ names, env.FitsKind kind name := by
  rw [TypeSet.filter, TypeSet.only.injEq, Names.filter_eq_self] at h
  intro name hname constant hconstant
  have hall := h name hname
  simpa [TypeEnv.isBelowAll, hconstant] using hall

/-- An overload that is applied without a change pins down nothing that it does
not already pin down. -/
theorem pins_of_unchanged {choice : Overload} {result : TypeVar} {args : List TypeVar}
    {subtypeResult : Bool} (h : (choice.apply env result args subtypeResult A).2 = false) :
    choice.Pins env A result args subtypeResult := by
  obtain ⟨-, hargs, hresult⟩ := Overload.apply_unchanged h
  refine ⟨?_, ?_, ?_⟩
  · intro hord i arg kind names harg hkind hnames
    have hpinned := hargs i arg (by simpa [Overload.pinnedArgs, hord] using harg)
    rw [hnames, Overload.boundsAt, hkind] at hpinned
    exact fitsKind_of_unchanged hpinned
  · intro names hnames
    rw [hnames, Overload.resultTypes_only] at hresult
    exact fitsKind_of_unchanged hresult
  · intro hall
    rw [hall, Overload.resultTypes_all] at hresult
    cases subtypeResult with
    | true => rfl
    | false => cases hresult

/-- Overloads that were forgotten on the way do not matter in the end. -/
theorem overload_satisfied_of_unchanged {symbol : String} {result : TypeVar} {args : List TypeVar}
    {subtypeResult : Bool} {remaining fewer : List Overload} (hfewer : fewer.Sublist remaining)
    (h : ((overload symbol result args subtypeResult fewer).update env A).changed = false) :
    (overload symbol result args subtypeResult remaining).Satisfied env A := by
  rw [update_overload] at h
  have hsub := hfewer.filter (·.isPossible env A result args)
  -- without an overload to go on with, the result is empty already
  have emptied : fewer.filter (·.isPossible env A result args) = [] → A result = .empty := by
    intro hnone
    simpa [hnone, Overload.narrowTo] using h
  refine ⟨fun hlive => emptied ?_, fun choice hlive => ?_⟩
  · rw [hlive] at hsub
    exact List.sublist_nil.mp hsub
  · rw [hlive] at hsub
    have hpossible : choice.isPossible env A result args := by
      have hmem : choice ∈ remaining.filter (·.isPossible env A result args) := by
        simp [hlive]
      exact (List.mem_filter.mp hmem).2
    rcases List.sublist_singleton.mp hsub with hnone | hone
    · -- no type of an empty result is of the kind that the overload wants
      have hkind := (Overload.isPossible_iff.mp hpossible).ofResult
      rw [emptied hnone] at hkind
      simp [TypeEnv.hasKind, TypeSet.empty, Names.empty] at hkind
    · simp only [hone, Overload.narrowTo] at h
      exact pins_of_unchanged h

/-- An update that reports no change has found the constraint satisfied, in the
form it had before overloads were forgotten. -/
theorem satisfied_of_unchanged (acyclic : env.Acyclic) {original current : Constraint}
    (evolves : Evolves original current) (finite : original.Finite)
    (h : (current.update env A).changed = false) : original.Satisfied env A := by
  cases evolves with
  | fewer hfewer => exact overload_satisfied_of_unchanged hfewer h
  | same =>
      cases original with
      | subtypeOf var bound =>
          simp only [update_subtypeOf, decide_eq_false_iff_not, not_not] at h
          obtain ⟨names, hnames, hall⟩ := consists_of_meet acyclic h
          refine ⟨names, hnames, fun name hname => ?_⟩
          obtain ⟨upper, hupper, hsub⟩ := hall name hname
          rwa [Names.mem_single.mp hupper] at hsub
      | below var bound =>
          simp only [update_below, decide_eq_false_iff_not, not_not] at h
          intro bounds hbounds
          rw [hbounds] at h
          exact consists_of_meet acyclic h
      | supertypeIn var values =>
          obtain ⟨values, rfl⟩ := TypeSet.ne_all_iff.mp finite
          simp only [update_supertypeIn, decide_eq_false_iff_not, not_not] at h
          cases hvar : A var with
          | all => simp [hvar, restrictTo] at h
          | only names =>
              rw [hvar, restrictTo, TypeSet.only.injEq] at h
              refine ⟨names, hvar, fun name hname => ?_⟩
              have hone := Names.filter_eq_self.mp h.symm name hname
              simpa [TypeEnv.isBelowOne] using hone
      | ofKind var kind candidates =>
          simp only [update_ofKind, decide_eq_false_iff_not, not_not] at h
          exact consists_of_filter finite h
      | recordOf var arity candidates =>
          simp only [update_recordOf, decide_eq_false_iff_not, not_not] at h
          exact consists_of_filter (filter_ne_all finite) h
      | overload symbol result args subtypeResult remaining =>
          exact overload_satisfied_of_unchanged (List.Sublist.refl remaining) h
      | sameBase left right =>
          cases hl : A left with
          | all =>
              cases hr : A right with
              | all => exact .inl ⟨hl, hr⟩
              | only others => simp [update_sameBase_all_only hl hr] at h
          | only types =>
              cases hr : A right with
              | all => simp [update_sameBase_only_all hl hr] at h
              | only others =>
                  rw [update_sameBase_only_only hl hr] at h
                  simp only [Bool.or_eq_false_iff, decide_eq_false_iff_not, not_not] at h
                  obtain ⟨hleft, hright⟩ := h
                  -- the left side is as before, so the right one was tested as it is
                  rw [Assignment.set_eq_iff.mpr hleft] at hright
                  rw [hl, TypeSet.only.injEq] at hleft
                  rw [hr, TypeSet.only.injEq] at hright
                  refine .inr ⟨types, others, hl, hr, fun name hname => ?_⟩
                  have hone : env.isBelowOne (commonBases env types others) name := by
                    rcases hname with hname | hname
                    · exact Names.filter_eq_self.mp hleft.symm name hname
                    · exact Names.filter_eq_self.mp hright.symm name hname
                  simp only [TypeEnv.isBelowOne, List.any_eq_true, Names.mem_toList] at hone
                  obtain ⟨root, hroot, hsub⟩ := hone
                  exact ⟨root, sharedBase_of_mem hroot, hsub⟩
      | component element record position =>
          intro records hrecords
          rw [update_component_only hrecords] at h
          simp only [Bool.or_eq_false_iff, decide_eq_false_iff_not, not_not] at h
          obtain ⟨hrecord, helement⟩ := h
          rw [Assignment.set_eq_iff.mpr hrecord] at helement
          rw [hrecords, TypeSet.only.injEq] at hrecord
          refine ⟨Names.filter_eq_self.mp hrecord.symm, ?_⟩
          obtain ⟨names, hnames, hall⟩ := consists_of_meet acyclic helement
          refine ⟨names, hnames, fun name hname => ?_⟩
          obtain ⟨field, hfield, hsub⟩ := hall name hname
          simp only [fieldsAt, Names.mem_ofList, List.mem_filterMap, Names.mem_toList] at hfield
          obtain ⟨owner, howner, hfield⟩ := hfield
          exact ⟨owner, howner, field, hfield, hsub⟩

end Unchanged

end Constraint

/-! ### Solutions -/

/-- The assignment that solves a problem satisfies every constraint of it. -/
theorem Problem.solve_satisfies_constraints {env : TypeEnv} (acyclic : env.Acyclic)
    {problem : Problem} (finite : ∀ constraint ∈ problem.constraints, constraint.Finite)
    {solution : Round} (h : problem.solve env = .ok solution) :
    ∀ constraint ∈ problem.constraints, constraint.Satisfied env solution.assignment := by
  have start : List.Forall₂ Constraint.Evolves problem.constraints problem.constraints :=
    List.forall₂_same.mpr fun constraint _ => .same constraint
  obtain ⟨last, before, evolved, -, rfl, hchanged⟩ :=
    settle_preserves Constraint.Evolves (fun _ => True)
      (fun evolves _ => ⟨evolves.update env _, trivial⟩) start trivial h
  obtain ⟨hend, hflags⟩ := sweep_unchanged hchanged
  rw [hend]
  intro constraint hconstraint
  obtain ⟨current, hcurrent, evolves⟩ := exists_mem_of_forall₂ evolved hconstraint
  exact Constraint.satisfied_of_unchanged acyclic evolves (finite constraint hconstraint)
    (hflags current hcurrent)

/-- Even numbers, another name for them, a union of these with the symbols, and a
record that begins with it. -/
def parityEnv : TypeEnv :=
  ⟨TypeEnv.builtIn.entries ++ [("even", .subset "number"), ("paired", .synonym "even"),
    ("scalar", .union ["paired", "symbol"]), ("entry", .record ["scalar", "number"])]⟩

theorem parityEnv_acyclic : parityEnv.Acyclic :=
  TypeEnv.acyclic_of_ordered (by decide)

/-- The first field of a record added to itself. -/
def doubledField : Problem :=
  { vars := [.named "r", .named "x", .named "y", .named "z"]
    constraints := [.recordOf (.named "r") 2 parityEnv.recordTypes,
      .component (.named "x") (.named "r") 0,
      .supertypeIn (.named "y") (TypeEnv.constantTypes [.signed, .float]),
      .below (.named "y") (.named "x"),
      .anyOverload "+" (.named "z") [.named "y", .named "y"] false,
      .sameBase (.named "z") (.named "y")] }

/-- Of the union, the numbers remain, and all constraints are satisfied. -/
theorem solve_satisfies_doubledField :
    ∃ solution, doubledField.solve parityEnv = .ok solution ∧
      solution.assignment (.named "y") = .ofList ["even"] ∧
      ∀ constraint ∈ doubledField.constraints,
        constraint.Satisfied parityEnv solution.assignment := by
  have solved : (doubledField.solve parityEnv).toOption.map (·.assignment (.named "y")) =
      some (.ofList ["even"]) := by decide +kernel
  cases h : doubledField.solve parityEnv with
  | error fault => simp [h, Except.toOption] at solved
  | ok solution =>
      refine ⟨solution, rfl, by simpa [h, Except.toOption] using solved, ?_⟩
      refine Problem.solve_satisfies_constraints parityEnv_acyclic ?_ h
      simp [doubledField, Constraint.Finite, Constraint.anyOverload, TypeEnv.recordTypes,
        TypeEnv.constantTypes, TypeSet.ofList]

end DatalogTyping

import DatalogTyping.Proofs.CommonSubtypes
import DatalogTyping.Solver.Problem

/-!
# What an update does to a variable

An update replaces the sets of one or two variables, or of the arguments and the
result of a functor. There is an equation for each constraint and each shape of
the sets it looks at, so that nothing after this module opens `Constraint.update`
again.

The flag of an update can be trusted. One that reports no change made none
(`update_unchanged`), and one that reports a change made one (`update_reports`).
The second leaves out a constraint that no clause gives rise to: a component whose
element and record are the same variable. It narrows that variable twice, and the
second set may undo the first.
-/

namespace DatalogTyping

namespace Assignment

variable (A : Assignment) (var : TypeVar) (types : TypeSet)

@[simp] theorem set_same : A.set var types var = types := by
  simp [set]

@[simp] theorem set_of_ne {other : TypeVar} (h : other ≠ var) :
    A.set var types other = A other := by
  simp [set, h]

@[simp] theorem set_eq_self : A.set var (A var) = A := by
  funext other
  by_cases h : other = var <;> simp [set, h]

variable {A var types} in
@[simp] theorem set_eq_iff : A.set var types = A ↔ A var = types := by
  constructor
  · intro h
    rw [← set_same A var types, h]
  · rintro rfl
    exact set_eq_self A var

@[simp] theorem narrow_fst : (A.narrow var types).1 = A.set var types := by
  unfold narrow
  split
  · rename_i h
    exact (set_eq_iff.mpr h).symm
  · rfl

@[simp] theorem narrow_snd : (A.narrow var types).2 = decide (A var ≠ types) := by
  unfold narrow
  split <;> simp_all

variable {A} {first second : TypeVar} {types others : TypeSet}

theorem set_set_of_eq (hfirst : A first = types) (hsecond : A.set first types second = others) :
    (A.set first types).set second others = A := by
  rw [set_eq_iff.mpr hfirst] at hsecond ⊢
  exact set_eq_iff.mpr hsecond

/-- If two sets stored one after the other leave everything as it was, so did the
first of them. -/
theorem eq_of_set_set (consistent : first = second → types = others)
    (h : (A.set first types).set second others = A) :
    A first = types ∧ A.set first types second = others := by
  have hfirst : A first = types := by
    have hend := congrFun h first
    by_cases hv : first = second
    · rw [hv, set_same] at hend
      rw [hv, consistent hv, hend]
    · rw [set_of_ne _ second others hv, set_same] at hend
      exact hend.symm
  refine ⟨hfirst, ?_⟩
  rw [set_eq_iff.mpr hfirst] at h ⊢
  exact set_eq_iff.mp h

end Assignment

theorem Names.filter_filter (names : Names) (first second : String → Bool) :
    (names.filter first).filter second = names.filter fun name => first name && second name := by
  apply Names.ext_mem
  intro name
  simp [and_assoc]

/-- A filter after which nothing is missing, whatever other filter followed it,
changed nothing. -/
theorem Names.filter_eq_self_of_filter_filter {names : Names} {first second : String → Bool}
    (h : (names.filter first).filter second = names) : names.filter first = names := by
  rw [Names.filter_filter, Names.filter_eq_self] at h
  rw [Names.filter_eq_self]
  exact fun name hname => (Bool.and_eq_true _ _ ▸ h name hname).1

namespace TypeEnv

/-- Is the type below all of the given ones? -/
def isBelowAll (env : TypeEnv) (bounds : List String) (name : String) : Bool :=
  bounds.all (env.isSubtype name)

@[simp] theorem filter_isBelowAll_nil (env : TypeEnv) (types : TypeSet) :
    types.filter (env.isBelowAll []) .all = types := by
  cases types with
  | all => rfl
  | only names =>
      simp only [TypeSet.filter]
      rw [Names.filter_eq_self.mpr (by simp [isBelowAll])]

theorem below_eq_filter (env : TypeEnv) (types : TypeSet) (kind : Kind) :
    env.below types kind = types.filter (env.isBelowAll (constantName? kind).toList) .all := by
  unfold below
  cases constantName? kind with
  | some constant =>
      simp only [Option.toList_some]
      congr 1
      funext name
      simp [isBelowAll]
  | none => simp

theorem filter_isBelowAll_append (env : TypeEnv) (names : Names) (bounds others : List String) :
    (names.filter (env.isBelowAll bounds)).filter (env.isBelowAll others) =
      names.filter (env.isBelowAll (bounds ++ others)) := by
  rw [Names.filter_filter]
  congr 1
  funext name
  simp [isBelowAll]

theorem constantBase?_eq_some {env : TypeEnv} {name root : String} :
    env.constantBase? name = some root ↔
      (∃ kind, env.find? root = some (.constant kind)) ∧ env.baseType name = .ok root := by
  unfold constantBase?
  constructor
  · intro h
    split at h
    · rename_i found hfound
      split at h
      · rename_i kind hkind
        obtain rfl : found = root := by simpa using h
        exact ⟨⟨kind, hkind⟩, hfound⟩
      · cases h
    · cases h
  · rintro ⟨⟨kind, hkind⟩, hbase⟩
    simp [hbase, hkind]

theorem mem_constantBases {env : TypeEnv} {names : Names} {root : String} :
    root ∈ env.constantBases names ↔
      (∃ kind, env.find? root = some (.constant kind)) ∧
        ∃ name ∈ names, env.baseType name = .ok root := by
  simp only [constantBases, Names.mem_ofList, List.mem_filterMap, Names.mem_toList,
    constantBase?_eq_some]
  constructor
  · rintro ⟨name, hname, hroot, hbase⟩
    exact ⟨hroot, name, hname, hbase⟩
  · rintro ⟨hroot, name, hname, hbase⟩
    exact ⟨name, hname, hroot, hbase⟩

end TypeEnv

/-! ### Pinning down a functor -/

namespace Overload

variable {env : TypeEnv} {A : Assignment} {overload : Overload}

/-- The overload takes that many arguments, and the sets of types allow for the kinds of
its parameters and of its result. -/
structure Suits (env : TypeEnv) (A : Assignment) (result : TypeVar) (args : List TypeVar)
    (overload : Overload) : Prop where
  arity : overload.acceptsArity args.length
  params : ∀ (index : Nat) (arg : TypeVar), args[index]? = some arg →
    ∃ kind, overload.param? index = some kind ∧ env.hasKind (A arg) kind
  ofResult : env.hasKind (A result) overload.result

theorem isPossible_iff {result : TypeVar} {args : List TypeVar} :
    overload.isPossible env A result args ↔ overload.Suits env A result args := by
  simp only [isPossible, Bool.and_eq_true, List.all_eq_true]
  constructor
  · rintro ⟨⟨arity, params⟩, ofResult⟩
    refine ⟨arity, fun index arg harg => ?_, ofResult⟩
    have fits := params (arg, index) (List.mk_mem_zipIdx_iff_getElem?.mpr harg)
    split at fits
    · exact ⟨_, ‹_›, fits⟩
    · cases fits
  · rintro ⟨arity, params, ofResult⟩
    refine ⟨⟨arity, ?_⟩, ofResult⟩
    rintro ⟨arg, index⟩ harg
    obtain ⟨kind, hkind, fits⟩ := params index arg (List.mk_mem_zipIdx_iff_getElem?.mp harg)
    simp only [hkind]
    exact fits

instance (env : TypeEnv) (A : Assignment) (result : TypeVar) (args : List TypeVar)
    (overload : Overload) : Decidable (overload.Suits env A result args) :=
  decidable_of_iff _ isPossible_iff

/-- The constant type of the kind of a parameter, if it has one. -/
def boundsAt (overload : Overload) (index : Nat) : List String :=
  ((overload.param? index).bind TypeEnv.constantName?).toList

theorem narrowArgs_cons (arg : TypeVar) (rest : List TypeVar) (index : Nat) :
    overload.narrowArgs env (arg :: rest) index A =
      let types := (A arg).filter (env.isBelowAll (overload.boundsAt index)) .all
      let others := overload.narrowArgs env rest (index + 1) (A.set arg types)
      (others.1, decide (A arg ≠ types) || others.2) := by
  rw [narrowArgs]
  cases h : overload.param? index with
  | some kind =>
      simp only [Assignment.narrow_fst, Assignment.narrow_snd, TypeEnv.below_eq_filter, boundsAt,
        h, Option.bind_some]
  | none =>
      simp only [Assignment.narrow_fst, Assignment.narrow_snd, boundsAt, h, Option.bind_none,
        Option.toList_none, TypeEnv.filter_isBelowAll_nil]

variable (overload env) in
theorem narrowArgs_all {var : TypeVar} (args : List TypeVar) (index : Nat) (h : A var = .all) :
    (overload.narrowArgs env args index A).1 var = .all := by
  induction args generalizing index A with
  | nil => exact h
  | cons arg rest ih =>
      rw [narrowArgs_cons]
      apply ih
      by_cases hv : var = arg
      · subst hv
        rw [Assignment.set_same, h]
        rfl
      · rw [Assignment.set_of_ne _ _ _ hv, h]

variable (overload env) in
/-- Narrowing the arguments leaves the members that are below the constant types
of all parameters that the variable stands for. -/
theorem narrowArgs_only {var : TypeVar} {names : Names} (args : List TypeVar) (index : Nat)
    (h : A var = .only names) :
    ∃ bounds : List String,
      (∀ bound ∈ bounds, ∃ i, args[i]? = some var ∧ bound ∈ overload.boundsAt (index + i)) ∧
      (overload.narrowArgs env args index A).1 var =
        .only (names.filter (env.isBelowAll bounds)) := by
  induction args generalizing index A names with
  | nil =>
      refine ⟨[], by simp, ?_⟩
      rw [Names.filter_eq_self.mpr (by simp [TypeEnv.isBelowAll])]
      exact h
  | cons arg rest ih =>
      rw [narrowArgs_cons]
      have later : ∀ {bounds : List String} {bound : String},
          (∀ bound ∈ bounds, ∃ i, rest[i]? = some var ∧ bound ∈ overload.boundsAt (index + 1 + i)) →
          bound ∈ bounds →
          ∃ i, (arg :: rest)[i]? = some var ∧ bound ∈ overload.boundsAt (index + i) := by
        intro bounds bound hbounds hbound
        obtain ⟨i, hi, hin⟩ := hbounds bound hbound
        exact ⟨i + 1, hi, by rwa [Nat.add_comm i 1, ← Nat.add_assoc]⟩
      by_cases hv : var = arg
      · -- a variable that occurs again is narrowed again, so the bounds add up
        subst hv
        have narrowed : A.set var ((A var).filter (env.isBelowAll (overload.boundsAt index)) .all)
            var = .only (names.filter (env.isBelowAll (overload.boundsAt index))) := by
          rw [Assignment.set_same, h]; rfl
        obtain ⟨bounds, hbounds, heq⟩ := ih (index + 1) narrowed
        refine ⟨overload.boundsAt index ++ bounds, fun bound hbound => ?_, ?_⟩
        · rcases List.mem_append.mp hbound with hhere | hthere
          · exact ⟨0, rfl, hhere⟩
          · exact later hbounds hthere
        · rw [TypeEnv.filter_isBelowAll_append] at heq
          exact heq
      · obtain ⟨bounds, hbounds, heq⟩ := ih (index + 1)
          (A := A.set arg ((A arg).filter (env.isBelowAll (overload.boundsAt index)) .all))
          (by rw [Assignment.set_of_ne _ _ _ hv]; exact h)
        exact ⟨bounds, fun bound hbound => later hbounds hbound, heq⟩

/-- Narrowing that reports no change made none, because no member of an argument
violates the kind of its parameter. -/
theorem narrowArgs_unchanged {args : List TypeVar} {index : Nat}
    (h : (overload.narrowArgs env args index A).2 = false) :
    (overload.narrowArgs env args index A).1 = A ∧
      ∀ i arg, args[i]? = some arg →
        (A arg).filter (env.isBelowAll (overload.boundsAt (index + i))) .all = A arg := by
  induction args generalizing index with
  | nil => simp [narrowArgs]
  | cons arg rest ih =>
      rw [narrowArgs_cons] at h ⊢
      simp only [Bool.or_eq_false_iff, decide_eq_false_iff_not, not_not] at h ⊢
      obtain ⟨here, there⟩ := h
      rw [← here, Assignment.set_eq_self] at there ⊢
      obtain ⟨same, later⟩ := ih there
      refine ⟨same, fun i other hi => ?_⟩
      cases i with
      | zero =>
          obtain rfl : arg = other := by simpa using hi
          exact here.symm
      | succ i =>
          rw [Nat.add_comm i 1, ← Nat.add_assoc]
          exact later i other hi

/-- Narrowing an argument only takes members away, so what is there in the end
was there after each step. -/
theorem narrowArgs_reports {args : List TypeVar} {index : Nat}
    (h : (overload.narrowArgs env args index A).1 = A) :
    (overload.narrowArgs env args index A).2 = false := by
  induction args generalizing index with
  | nil => rfl
  | cons arg rest ih =>
      rw [narrowArgs_cons] at h ⊢
      -- otherwise the first step would have taken a member away for good
      have here : A arg = (A arg).filter (env.isBelowAll (overload.boundsAt index)) .all := by
        cases harg : A arg with
        | all => rfl
        | only names =>
            have narrowed : A.set arg
                ((A arg).filter (env.isBelowAll (overload.boundsAt index)) .all) arg =
                  .only (names.filter (env.isBelowAll (overload.boundsAt index))) := by
              rw [Assignment.set_same, harg]; rfl
            obtain ⟨bounds, -, heq⟩ := narrowArgs_only env overload rest (index + 1) narrowed
            simp only at h
            rw [h, harg, TypeSet.only.injEq] at heq
            simp only [TypeSet.filter, TypeSet.only.injEq]
            exact (Names.filter_eq_self_of_filter_filter heq.symm).symm
      simp only at h ⊢
      rw [← here, Assignment.set_eq_self] at h ⊢
      simp [ih h]

/-- The arguments that are pinned down: all of them, except for `ord`. -/
def pinnedArgs (overload : Overload) (args : List TypeVar) : List TypeVar :=
  if overload.op = .ord then [] else args

/-- What a result becomes that is pinned down. -/
def resultTypes (overload : Overload) (env : TypeEnv) (subtypeResult : Bool)
    (types : TypeSet) : TypeSet :=
  if types.isAll && !subtypeResult then TypeEnv.constantTypes [overload.result]
  else env.below types overload.result

@[simp] theorem resultTypes_only (subtypeResult : Bool) (names : Names) :
    overload.resultTypes env subtypeResult (.only names) =
      .only (names.filter (env.isBelowAll (TypeEnv.constantName? overload.result).toList)) := by
  simp [resultTypes, TypeEnv.below_eq_filter, TypeSet.filter]

theorem resultTypes_all (subtypeResult : Bool) :
    overload.resultTypes env subtypeResult .all =
      if subtypeResult then .all else TypeEnv.constantTypes [overload.result] := by
  cases subtypeResult <;> simp [resultTypes, TypeEnv.below_eq_filter, TypeSet.filter]

theorem apply_eq (result : TypeVar) (args : List TypeVar) (subtypeResult : Bool) :
    overload.apply env result args subtypeResult A =
      let narrowed := overload.narrowArgs env (overload.pinnedArgs args) 0 A
      let types := overload.resultTypes env subtypeResult (narrowed.1 result)
      (narrowed.1.set result types, narrowed.2 || decide (narrowed.1 result ≠ types)) := by
  unfold apply pinnedArgs resultTypes
  by_cases hord : overload.op = .ord <;> simp [hord, narrowArgs]

/-- The overload wants a variable to be below a type: the constant type of a
parameter that it stands for, or of the result. -/
def Demands (overload : Overload) (result : TypeVar) (args : List TypeVar) (var : TypeVar)
    (bound : String) : Prop :=
  (∃ i, args[i]? = some var ∧ bound ∈ overload.boundsAt i) ∨
    var = result ∧ TypeEnv.constantName? overload.result = some bound

theorem mem_pinnedArgs {args : List TypeVar} {i : Nat} {var : TypeVar}
    (h : (overload.pinnedArgs args)[i]? = some var) : args[i]? = some var := by
  unfold pinnedArgs at h
  split at h
  · simp at h
  · exact h

variable (env overload) in
theorem apply_all (result : TypeVar) (args : List TypeVar) (subtypeResult : Bool) {var : TypeVar}
    (h : A var = .all) :
    (overload.apply env result args subtypeResult A).1 var = .all ∨
      var = result ∧ subtypeResult = false ∧
        (overload.apply env result args subtypeResult A).1 var =
          TypeEnv.constantTypes [overload.result] := by
  have hargs := narrowArgs_all env overload (overload.pinnedArgs args) 0 h
  rw [apply_eq]
  by_cases hv : var = result
  · subst hv
    simp only [Assignment.set_same, hargs, resultTypes_all]
    cases subtypeResult <;> simp
  · simp [hv, hargs]

theorem Demands.of_pinnedArgs {result : TypeVar} {args : List TypeVar} {var : TypeVar}
    {bound : String} (h : overload.Demands result (overload.pinnedArgs args) var bound) :
    overload.Demands result args var bound :=
  h.imp_left fun ⟨i, hi, hbound⟩ => ⟨i, mem_pinnedArgs hi, hbound⟩

variable (env overload) in
/-- Applying an overload leaves the members that are below everything it demands of
the arguments that it pins down, and of the result. -/
theorem apply_only_pinned (result : TypeVar) (args : List TypeVar) (subtypeResult : Bool)
    {var : TypeVar} {names : Names} (h : A var = .only names) :
    ∃ bounds : List String,
      (∀ bound ∈ bounds, overload.Demands result (overload.pinnedArgs args) var bound) ∧
      (overload.apply env result args subtypeResult A).1 var =
        .only (names.filter (env.isBelowAll bounds)) := by
  obtain ⟨bounds, hbounds, hargs⟩ :=
    narrowArgs_only env overload (overload.pinnedArgs args) 0 h
  have hdemands : ∀ bound ∈ bounds,
      overload.Demands result (overload.pinnedArgs args) var bound := by
    intro bound hbound
    obtain ⟨i, hi, hin⟩ := hbounds bound hbound
    exact .inl ⟨i, hi, by simpa using hin⟩
  rw [apply_eq]
  by_cases hv : var = result
  · subst hv
    refine ⟨bounds ++ (TypeEnv.constantName? overload.result).toList, ?_, ?_⟩
    · intro bound hbound
      rcases List.mem_append.mp hbound with hbound | hbound
      · exact hdemands bound hbound
      · exact .inr ⟨rfl, by simpa using hbound⟩
    · simp [hargs, TypeEnv.filter_isBelowAll_append]
  · exact ⟨bounds, hdemands, by simp [hv, hargs]⟩

variable (env overload) in
/-- Applying an overload leaves the members that are below everything it
demands. -/
theorem apply_only (result : TypeVar) (args : List TypeVar) (subtypeResult : Bool) {var : TypeVar}
    {names : Names} (h : A var = .only names) :
    ∃ bounds : List String, (∀ bound ∈ bounds, overload.Demands result args var bound) ∧
      (overload.apply env result args subtypeResult A).1 var =
        .only (names.filter (env.isBelowAll bounds)) := by
  obtain ⟨bounds, demands, heq⟩ := apply_only_pinned env overload result args subtypeResult h
  exact ⟨bounds, fun bound hbound => (demands bound hbound).of_pinnedArgs, heq⟩

/-- An overload demands nothing of other variables. -/
theorem apply_frame {result : TypeVar} {args : List TypeVar} {subtypeResult : Bool} {var : TypeVar}
    (hresult : var ≠ result) (hargs : var ∉ args) :
    (overload.apply env result args subtypeResult A).1 var = A var := by
  cases hvar : A var with
  | all =>
      rcases apply_all env overload result args subtypeResult hvar with h | ⟨h, -⟩
      · exact h
      · exact absurd h hresult
  | only names =>
      obtain ⟨bounds, demands, h⟩ := apply_only env overload result args subtypeResult hvar
      have nothing : bounds = [] := by
        refine List.eq_nil_iff_forall_not_mem.mpr fun bound hbound => ?_
        rcases demands bound hbound with ⟨i, hi, -⟩ | ⟨h, -⟩
        · exact hargs (List.mem_of_getElem? hi)
        · exact hresult h
      rw [h, nothing]
      exact env.filter_isBelowAll_nil (.only names)

theorem apply_unchanged {result : TypeVar} {args : List TypeVar} {subtypeResult : Bool}
    (h : (overload.apply env result args subtypeResult A).2 = false) :
    (overload.apply env result args subtypeResult A).1 = A ∧
      (∀ i arg, (overload.pinnedArgs args)[i]? = some arg →
        (A arg).filter (env.isBelowAll (overload.boundsAt i)) .all = A arg) ∧
      overload.resultTypes env subtypeResult (A result) = A result := by
  rw [apply_eq] at h ⊢
  simp only [Bool.or_eq_false_iff, decide_eq_false_iff_not, not_not] at h ⊢
  obtain ⟨hargs, hresult⟩ := h
  obtain ⟨same, hpinned⟩ := narrowArgs_unchanged hargs
  rw [same] at hresult ⊢
  rw [← hresult]
  exact ⟨Assignment.set_eq_self A result, by simpa using hpinned, rfl⟩

theorem apply_reports {result : TypeVar} {args : List TypeVar} {subtypeResult : Bool}
    (h : (overload.apply env result args subtypeResult A).1 = A) :
    (overload.apply env result args subtypeResult A).2 = false := by
  rw [apply_eq] at h ⊢
  simp only at h ⊢
  -- the result may be narrowed once more, but never widened again
  have same : (overload.narrowArgs env (overload.pinnedArgs args) 0 A).1 = A := by
    funext var
    by_cases hv : var = result
    · subst hv
      have hend := congrFun h var
      rw [Assignment.set_same] at hend
      cases hvar : A var with
      | all => exact narrowArgs_all _ _ _ _ hvar
      | only names =>
          obtain ⟨bounds, -, heq⟩ :=
            narrowArgs_only env overload (overload.pinnedArgs args) 0 hvar
          rw [heq, hvar, resultTypes_only, TypeSet.only.injEq] at hend
          rw [heq, Names.filter_eq_self_of_filter_filter hend]
    · have hend := congrFun h var
      rwa [Assignment.set_of_ne _ _ _ hv] at hend
  have hend := congrFun h result
  rw [Assignment.set_same, same] at hend
  rw [narrowArgs_reports same, same, hend]
  simp

/-- What the remaining overloads of a functor do to an assignment. -/
def narrowTo (env : TypeEnv) (result : TypeVar) (args : List TypeVar) (subtypeResult : Bool)
    (A : Assignment) : List Overload → Assignment × Bool
  | [] => A.narrow result .empty
  | [choice] => choice.apply env result args subtypeResult A
  | _ => (A, false)

theorem narrowTo_frame {result : TypeVar} {args : List TypeVar} {subtypeResult : Bool}
    {live : List Overload} {var : TypeVar} (hresult : var ≠ result) (hargs : var ∉ args) :
    (narrowTo env result args subtypeResult A live).1 var = A var := by
  rcases live with _ | ⟨choice, _ | ⟨other, rest⟩⟩
  · simp [narrowTo, hresult]
  · exact apply_frame hresult hargs
  · rfl

theorem narrowTo_unchanged {result : TypeVar} {args : List TypeVar} {subtypeResult : Bool}
    {live : List Overload} (h : (narrowTo env result args subtypeResult A live).2 = false) :
    (narrowTo env result args subtypeResult A live).1 = A := by
  rcases live with _ | ⟨choice, _ | ⟨other, rest⟩⟩
  · simpa [narrowTo] using h
  · exact (apply_unchanged h).1
  · rfl

theorem narrowTo_reports {result : TypeVar} {args : List TypeVar} {subtypeResult : Bool}
    {live : List Overload} (h : (narrowTo env result args subtypeResult A live).1 = A) :
    (narrowTo env result args subtypeResult A live).2 = false := by
  rcases live with _ | ⟨choice, _ | ⟨other, rest⟩⟩
  · simpa [narrowTo] using h
  · exact apply_reports h
  · rfl

end Overload

/-! ### Updates, constraint by constraint -/

namespace Constraint

variable {env : TypeEnv} {A : Assignment}

theorem update_subtypeOf (var : TypeVar) (bound : String) :
    (subtypeOf var bound).update env A =
      let types := env.meet (A var) (.single bound)
      ⟨subtypeOf var bound, A.set var types, decide (A var ≠ types)⟩ := by
  simp [update]

theorem update_below (var bound : TypeVar) :
    (below var bound).update env A =
      let types := env.meet (A var) (A bound)
      ⟨below var bound, A.set var types, decide (A var ≠ types)⟩ := by
  simp [update]

/-- The types of a set that are below one of the given values. -/
def restrictTo (env : TypeEnv) : TypeSet → TypeSet → TypeSet
  | .all, values => values
  | types, .all => types
  | .only types, .only values => .only (types.filter (env.isBelowOne values))

theorem update_supertypeIn (var : TypeVar) (values : TypeSet) :
    (supertypeIn var values).update env A =
      let types := restrictTo env (A var) values
      ⟨supertypeIn var values, A.set var types, decide (A var ≠ types)⟩ := by
  simp only [update, Assignment.narrow_fst, Assignment.narrow_snd]
  rcases A var with _ | types <;> rcases values with _ | values <;> rfl

theorem update_ofKind (var : TypeVar) (kind : Kind) (candidates : TypeSet) :
    (ofKind var kind candidates).update env A =
      let types := (A var).filter (env.isOfKind · kind) candidates
      ⟨ofKind var kind candidates, A.set var types, decide (A var ≠ types)⟩ := by
  simp [update]

theorem update_recordOf (var : TypeVar) (arity : Int) (candidates : TypeSet) :
    (recordOf var arity candidates).update env A =
      let types := (A var).filter (env.isRecordOf arity)
        (candidates.filter (env.isRecordOf arity) .all)
      ⟨recordOf var arity candidates, A.set var types, decide (A var ≠ types)⟩ := by
  simp [update]

theorem update_overload (symbol : String) (result : TypeVar) (args : List TypeVar)
    (subtypeResult : Bool) (remaining : List Overload) :
    (overload symbol result args subtypeResult remaining).update env A =
      let live := remaining.filter (·.isPossible env A result args)
      let narrowed := Overload.narrowTo env result args subtypeResult A live
      ⟨overload symbol result args subtypeResult live, narrowed.1, narrowed.2⟩ := by
  simp only [update]
  rcases remaining.filter (·.isPossible env A result args) with _ | ⟨choice, _ | ⟨other, rest⟩⟩ <;>
    rfl

theorem update_component_all {element record : TypeVar} {position : Int} (h : A record = .all) :
    (component element record position).update env A =
      ⟨component element record position, A, false⟩ := by
  simp [update, h]

/-- The fields at a position of those records that have it. -/
def fieldsAt (env : TypeEnv) (position : Int) (records : Names) : Names :=
  .ofList (records.toList.filterMap (env.field? position))

/-- Does the record have a field at the position? -/
def hasField (env : TypeEnv) (position : Int) (name : String) : Bool :=
  (env.field? position name).isSome

theorem update_component_only {element record : TypeVar} {position : Int} {records : Names}
    (h : A record = .only records) :
    (component element record position).update env A =
      let kept := TypeSet.only (records.filter (hasField env position))
      let types := env.meet (A element) (.only (fieldsAt env position records))
      ⟨component element record position, (A.set record kept).set element types,
        decide (A record ≠ kept) || decide (A.set record kept element ≠ types)⟩ := by
  simp only [update, h, Assignment.narrow_fst, Assignment.narrow_snd]
  rfl

/-- Two variables about which nothing is known cannot narrow each other. -/
theorem update_sameBase_all_all {left right : TypeVar} (hl : A left = .all) (hr : A right = .all) :
    (sameBase left right).update env A = ⟨sameBase left right, A, false⟩ := by
  simp only [update, hl, hr]

theorem update_sameBase_all_only {left right : TypeVar} {others : Names} (hl : A left = .all)
    (hr : A right = .only others) :
    (sameBase left right).update env A =
      ⟨sameBase left right, A.set left (.only (env.constantBases others)), true⟩ := by
  simp [update, hl, hr]

theorem update_sameBase_only_all {left right : TypeVar} {types : Names}
    (hl : A left = .only types) (hr : A right = .all) :
    (sameBase left right).update env A =
      ⟨sameBase left right, A.set right (.only (env.constantBases types)), true⟩ := by
  simp [update, hl, hr]

/-- The constant types that members of both sets are carved from. -/
def commonBases (env : TypeEnv) (types others : Names) : Names :=
  (env.constantBases types).inter (env.constantBases others)

theorem update_sameBase_only_only {left right : TypeVar} {types others : Names}
    (hl : A left = .only types) (hr : A right = .only others) :
    (sameBase left right).update env A =
      let common := commonBases env types others
      let kept := TypeSet.only (types.filter (env.isBelowOne common))
      let keptOthers := TypeSet.only (others.filter (env.isBelowOne common))
      ⟨sameBase left right, (A.set left kept).set right keptOthers,
        decide (A left ≠ kept) || decide (A.set left kept right ≠ keptOthers)⟩ := by
  simp only [update, hl, hr, Assignment.narrow_fst, Assignment.narrow_snd]
  rfl

/-! ### The constraint after an update -/

/-- What an update leaves of a constraint: one for overloads forgets those that
have become impossible, and the others stay as they are. -/
def remembered (env : TypeEnv) (A : Assignment) : Constraint → Constraint
  | overload symbol result args subtypeResult remaining =>
    overload symbol result args subtypeResult (remaining.filter (·.isPossible env A result args))
  | constraint => constraint

theorem update_constraint (constraint : Constraint) :
    (constraint.update env A).constraint = constraint.remembered env A := by
  cases constraint with
  | overload symbol result args subtypeResult remaining =>
      rw [update_overload]
      rfl
  | sameBase left right =>
      simp only [update]
      split <;> rfl
  | component element record position =>
      simp only [update]
      split <;> rfl
  | _ => rfl

/-! ### The flag of an update -/

/-- An update that reports no change made none. -/
theorem update_unchanged {constraint : Constraint}
    (h : (constraint.update env A).changed = false) :
    (constraint.update env A).assignment = A := by
  cases constraint with
  | subtypeOf var bound => simpa [update_subtypeOf] using h
  | below var bound => simpa [update_below] using h
  | supertypeIn var values => simpa [update_supertypeIn] using h
  | ofKind var kind candidates => simpa [update_ofKind] using h
  | recordOf var arity candidates => simpa [update_recordOf] using h
  | overload symbol result args subtypeResult remaining =>
      rw [update_overload] at h ⊢
      exact Overload.narrowTo_unchanged h
  | sameBase left right =>
      cases hl : A left with
      | all =>
          cases hr : A right with
          | all => rw [update_sameBase_all_all hl hr]
          | only others => simp [update_sameBase_all_only hl hr] at h
      | only types =>
          cases hr : A right with
          | all => simp [update_sameBase_only_all hl hr] at h
          | only others =>
              rw [update_sameBase_only_only hl hr] at h ⊢
              simp only [Bool.or_eq_false_iff, decide_eq_false_iff_not, not_not] at h
              exact Assignment.set_set_of_eq h.1 h.2
  | component element record position =>
      cases hr : A record with
      | all => rw [update_component_all hr]
      | only records =>
          rw [update_component_only hr] at h ⊢
          simp only [Bool.or_eq_false_iff, decide_eq_false_iff_not, not_not] at h
          exact Assignment.set_set_of_eq h.1 h.2

/-- Are the variables of a component different? -/
def Separate : Constraint → Prop
  | component element record _ => element ≠ record
  | _ => True

/-- An update that made no change reports none. -/
theorem update_reports {constraint : Constraint} (separate : constraint.Separate)
    (h : (constraint.update env A).assignment = A) :
    (constraint.update env A).changed = false := by
  cases constraint with
  | subtypeOf var bound => simpa [update_subtypeOf] using h
  | below var bound => simpa [update_below] using h
  | supertypeIn var values => simpa [update_supertypeIn] using h
  | ofKind var kind candidates => simpa [update_ofKind] using h
  | recordOf var arity candidates => simpa [update_recordOf] using h
  | overload symbol result args subtypeResult remaining =>
      rw [update_overload] at h ⊢
      exact Overload.narrowTo_reports h
  | sameBase left right =>
      cases hl : A left with
      | all =>
          cases hr : A right with
          | all => rw [update_sameBase_all_all hl hr]
          | only others => simp [update_sameBase_all_only hl hr, hl] at h
      | only types =>
          cases hr : A right with
          | all => simp [update_sameBase_only_all hl hr, hr] at h
          | only others =>
              rw [update_sameBase_only_only hl hr] at h ⊢
              simp only [Bool.or_eq_false_iff, decide_eq_false_iff_not, not_not]
              refine Assignment.eq_of_set_set ?_ h
              -- one variable on both sides is filtered twice in the same way
              rintro rfl
              rw [TypeSet.only.inj (hl.symm.trans hr)]
  | component element record position =>
      cases hr : A record with
      | all => rw [update_component_all hr]
      | only records =>
          rw [update_component_only hr] at h ⊢
          simp only [Bool.or_eq_false_iff, decide_eq_false_iff_not, not_not]
          -- the two sets are stored for two variables, so neither hides the other
          exact Assignment.eq_of_set_set (fun same => absurd same.symm separate) h

end Constraint

end DatalogTyping

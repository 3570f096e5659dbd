import DatalogTyping.Proofs.Completeness
import DatalogTyping.Proofs.TypingRules

/-!
# The greatest solution

Assignments are compared set by set: one covers another if each type of the other
is below one of its own, where it is not the set of all types. Without unions the
solver returns an assignment that covers every assignment which satisfies the
constraints, as long as the result of no functor is empty in it
(`solve_covers`). Its own assignment satisfies them, so there is no greater one.

The order of the constraints plays no role in what it means to satisfy them. If
one order leads to a solution without an empty set, so does every other, and the
two solutions cover each other (`solve_perm`).

The argument is that no update loses what an assignment covers. This is not
monotonicity of updates: from different sets a constraint may go on with sets that
cannot be compared literally, since it replaces the set of all types by one of
finitely many and forgets overloads for good. What holds is that everything an
update takes away is missing from the covered assignment, which satisfies the
constraint already.
-/

namespace DatalogTyping

variable {env : TypeEnv}

namespace TypeSet

variable {types lower : TypeSet}

/-- The set has all types, or the other one is finite and each type in that is
below one in this. -/
def Covers (env : TypeEnv) (types lower : TypeSet) : Prop :=
  ∀ uppers, types = .only uppers →
    lower.Consists fun name => ∃ upper ∈ uppers, env.isSubtype name upper

theorem covers_all (lower : TypeSet) : TypeSet.all.Covers env lower := by
  intro uppers h
  cases h

theorem covers_refl (env : TypeEnv) (types : TypeSet) : types.Covers env types :=
  fun uppers h => ⟨uppers, h, fun name hname => ⟨name, hname, env.isSubtype_refl name⟩⟩

theorem Covers.exists_above {names : Names} (covers : types.Covers env lower)
    (h : lower = .only names) {name : String} (hname : name ∈ names) :
    ∃ upper ∈ types, env.isSubtype name upper := by
  cases htypes : types with
  | all => exact ⟨name, TypeSet.mem_all name, env.isSubtype_refl name⟩
  | only uppers =>
      obtain ⟨names', h', above⟩ := covers uppers htypes
      obtain rfl : names = names' := TypeSet.only.inj (h.symm.trans h')
      obtain ⟨upper, hupper, hsub⟩ := above name hname
      exact ⟨upper, TypeSet.mem_only.mpr hupper, hsub⟩

theorem covers_of_exists_above {names : Names} (h : lower = .only names)
    (above : ∀ name ∈ names, ∃ upper ∈ types, env.isSubtype name upper) :
    types.Covers env lower := by
  intro uppers huppers
  refine ⟨names, h, fun name hname => ?_⟩
  obtain ⟨upper, hupper, hsub⟩ := above name hname
  exact ⟨upper, TypeSet.mem_only.mp (huppers ▸ hupper), hsub⟩

theorem Covers.ne_empty (covers : types.Covers env lower) (h : lower ≠ .empty) :
    types ≠ .empty := by
  rintro rfl
  obtain ⟨names, rfl, above⟩ := covers Names.empty rfl
  refine h (congrArg TypeSet.only (Names.ext_mem fun name => ?_))
  constructor
  · intro hname
    obtain ⟨upper, hupper, -⟩ := above name hname
    exact absurd hupper (Names.notMem_empty upper)
  · intro hname
    exact absurd hname (Names.notMem_empty name)

/-- Sets that cover each other. -/
theorem mutual_of_covers (covers : types.Covers env lower) (covered : lower.Covers env types) :
    types.Mutual env lower := by
  cases htypes : types with
  | all =>
      cases hlower : lower with
      | all => exact .inl ⟨rfl, rfl⟩
      | only names =>
          obtain ⟨_, h, -⟩ := covered names hlower
          rw [htypes] at h
          cases h
  | only uppers =>
      obtain ⟨names, rfl, above⟩ := covers uppers htypes
      obtain ⟨uppers', h, below⟩ := covered names rfl
      obtain rfl : uppers = uppers' := TypeSet.only.inj (htypes.symm.trans h)
      exact .inr ⟨uppers, names, rfl, rfl, below, above⟩

/-- A set of types of a kind has types of that kind above them. -/
theorem Covers.hasKind (covers : types.Covers env lower) (rise : env.KindsRise) {kind : Kind}
    (h : env.hasKind lower kind) : env.hasKind types kind := by
  cases htypes : types with
  | all => rfl
  | only uppers =>
      obtain ⟨names, rfl, above⟩ := covers uppers htypes
      simp only [TypeEnv.hasKind, List.any_eq_true, Names.mem_toList] at h ⊢
      obtain ⟨name, hname, hkind⟩ := h
      obtain ⟨upper, hupper, hsub⟩ := above name hname
      exact ⟨upper, hupper, rise hsub hkind⟩

end TypeSet

/-- Each set of the assignment covers that of the other. -/
def Assignment.Covers (env : TypeEnv) (A B : Assignment) : Prop :=
  ∀ var, (A var).Covers env (B var)

variable {A B : Assignment}

theorem Assignment.Covers.set (covers : A.Covers env B) {var : TypeVar} {types : TypeSet}
    (h : types.Covers env (B var)) : (A.set var types).Covers env B := by
  intro other
  by_cases hother : other = var
  · subst hother
    rwa [Assignment.set_same]
  · rw [Assignment.set_of_ne _ _ _ hother]
    exact covers other

/-! ### Overloads -/

namespace Overload

variable {overload : Overload} {result : TypeVar} {args : List TypeVar} {subtypeResult : Bool}

theorem isPossible_of_covers (covers : A.Covers env B) (rise : env.KindsRise)
    (h : overload.isPossible env B result args) : overload.isPossible env A result args := by
  have suits := isPossible_iff.mp h
  refine isPossible_iff.mpr ⟨suits.arity, fun index arg harg => ?_, ?_⟩
  · obtain ⟨kind, hkind, fits⟩ := suits.params index arg harg
    exact ⟨kind, hkind, (covers arg).hasKind rise fits⟩
  · exact (covers result).hasKind rise suits.ofResult

/-- The overloads that are possible for the covered assignment are not forgotten. -/
theorem filter_isPossible_sublist (covers : A.Covers env B) (rise : env.KindsRise)
    {remaining fewer : List Overload}
    (h : (remaining.filter (·.isPossible env B result args)).Sublist fewer) :
    (remaining.filter (·.isPossible env B result args)).Sublist
      (fewer.filter (·.isPossible env A result args)) := by
  have same : (remaining.filter (·.isPossible env B result args)).filter
      (·.isPossible env A result args) = remaining.filter (·.isPossible env B result args) := by
    refine List.filter_eq_self.mpr fun choice hchoice => ?_
    exact isPossible_of_covers covers rise (List.mem_filter.mp hchoice).2
  rw [← same]
  exact h.filter _

/-- A bound that an overload demands of a variable is one that the covered
assignment obeys. -/
theorem Pins.isSubtype_of_demands (pins : overload.Pins env B result args subtypeResult)
    {var : TypeVar} {names : Names} (hnames : B var = .only names) {bound : String}
    (demand : overload.Demands result (overload.pinnedArgs args) var bound) {name : String}
    (hname : name ∈ names) :
    env.isSubtype name bound ∧ ∃ kind, TypeEnv.constantName? kind = some bound := by
  rcases demand with ⟨i, hi, hbound⟩ | ⟨rfl, hbound⟩
  · obtain ⟨kind, hkind, hconstant⟩ : ∃ kind, overload.param? i = some kind ∧
        TypeEnv.constantName? kind = some bound := by
      simpa [boundsAt, Option.bind_eq_some_iff] using hbound
    have hord : overload.op ≠ .ord := by
      intro hord
      simp [pinnedArgs, hord] at hi
    exact ⟨pins.argsFit hord i var kind names (mem_pinnedArgs hi) hkind hnames name hname
      bound hconstant, kind, hconstant⟩
  · exact ⟨pins.resultFits names hnames name hname bound hbound, overload.result, hbound⟩

theorem Pins.apply_covers (pins : overload.Pins env B result args subtypeResult)
    (unionFree : env.UnionFree) (builtIns : env.HasBuiltIns)
    (primitive : (TypeEnv.constantName? overload.result).isSome) (covers : A.Covers env B) :
    (overload.apply env result args subtypeResult A).1.Covers env B := by
  intro var
  cases hvar : A var with
  | all =>
      rcases apply_all env overload result args subtypeResult hvar with
        hall | ⟨rfl, strict, hconstants⟩
      · rw [hall]
        exact TypeSet.covers_all _
      · -- the result jumps from all types to one, and the covered set is known by then
        obtain ⟨constant, hconstant⟩ := Option.isSome_iff_exists.mp primitive
        cases hresult : B var with
        | all =>
            rw [pins.resultKnown hresult] at strict
            cases strict
        | only names =>
            rw [hconstants]
            refine TypeSet.covers_of_exists_above rfl fun name hname => ⟨constant, ?_, ?_⟩
            · simp [TypeEnv.constantTypes, TypeSet.ofList, hconstant]
            · exact pins.resultFits names hresult name hname constant hconstant
  | only uppers =>
      obtain ⟨names, hnames, above⟩ := covers var uppers hvar
      obtain ⟨bounds, demands, heq⟩ := apply_only_pinned env overload result args subtypeResult hvar
      rw [heq]
      refine TypeSet.covers_of_exists_above hnames fun name hname => ?_
      obtain ⟨upper, hupper, hsub⟩ := above name hname
      refine ⟨upper, ?_, hsub⟩
      rw [TypeSet.mem_only, Names.mem_filter, TypeEnv.isBelowAll, List.all_eq_true]
      refine ⟨hupper, fun bound hbound => ?_⟩
      obtain ⟨hbelow, kind, hconstant⟩ :=
        pins.isSubtype_of_demands hnames (demands bound hbound) hname
      exact unionFree.isSubtype_constant_up builtIns hsub hconstant hbelow

end Overload

/-! ### Updates -/

/-- What covers the set of all types is that set. -/
theorem Assignment.Covers.eq_all (covers : A.Covers env B) {var : TypeVar} (h : B var = .all) :
    A var = .all := by
  cases hvar : A var with
  | all => rfl
  | only uppers =>
      obtain ⟨names, hnames, -⟩ := covers var uppers hvar
      cases h.symm.trans hnames

/-- A base of a covered set is a base of the types above it. -/
theorem Assignment.Covers.mem_constantBases (covers : A.Covers env B) (unionFree : env.UnionFree)
    {var : TypeVar} {uppers names : Names} {root : String} (huppers : A var = .only uppers)
    (hnames : B var = .only names) (hroot : ∃ kind, env.find? root = some (.constant kind))
    (hbase : ∃ name ∈ names, env.baseType name = .ok root) :
    root ∈ env.constantBases uppers := by
  obtain ⟨kind, hkind⟩ := hroot
  obtain ⟨name, hname, hbase⟩ := hbase
  obtain ⟨upper, hupper, hsub⟩ := (covers var).exists_above hnames hname
  rw [huppers, TypeSet.mem_only] at hupper
  exact TypeEnv.mem_constantBases.mpr ⟨⟨kind, hkind⟩, upper, hupper,
    unionFree.baseType_up hsub (TypeEnv.next?_of_constant hkind) hbase⟩

namespace Constraint

/-- If the constraint is about the result of a functor, that is not empty. -/
def HasResult (B : Assignment) : Constraint → Prop
  | overload _ result _ _ _ => B result ≠ .empty
  | _ => True

/-- The second constraint is the first one, perhaps with fewer overloads remaining,
among which are all that are possible for an assignment. -/
inductive Recalls (env : TypeEnv) (B : Assignment) : Constraint → Constraint → Prop
  | same (constraint : Constraint) : Recalls env B constraint constraint
  | fewer {symbol : String} {result : TypeVar} {args : List TypeVar} {subtypeResult : Bool}
      {remaining fewer : List Overload}
      (h : (remaining.filter (·.isPossible env B result args)).Sublist fewer) :
      Recalls env B (overload symbol result args subtypeResult remaining)
        (overload symbol result args subtypeResult fewer)

theorem Recalls.update {original current : Constraint} (h : Recalls env B original current)
    (covers : A.Covers env B) (rise : env.KindsRise) :
    Recalls env B original (current.update env A).constraint := by
  rw [update_constraint]
  cases h with
  | fewer h => exact .fewer (Overload.filter_isPossible_sublist covers rise h)
  | same =>
      cases original with
      | overload symbol result args subtypeResult remaining =>
          exact .fewer (Overload.filter_isPossible_sublist covers rise List.filter_sublist)
      | _ => exact .same _

theorem overload_covers (unionFree : env.UnionFree) (builtIns : env.HasBuiltIns)
    {symbol : String} {result : TypeVar} {args : List TypeVar} {subtypeResult : Bool}
    {remaining fewer : List Overload}
    (standard : (overload symbol result args subtypeResult remaining).Standard env)
    (satisfied : (overload symbol result args subtypeResult remaining).Satisfied env B)
    (hasResult : B result ≠ .empty) (covers : A.Covers env B)
    (h : (remaining.filter (·.isPossible env B result args)).Sublist fewer) :
    ((overload symbol result args subtypeResult fewer).update env A).assignment.Covers env B := by
  obtain ⟨emptied, pins⟩ := satisfied
  have live := Overload.filter_isPossible_sublist covers (unionFree.kindsRise builtIns) h
  rw [update_overload]
  show (Overload.narrowTo env result args subtypeResult A _).1.Covers env B
  generalize fewer.filter (·.isPossible env A result args) = possible at live
  rcases possible with _ | ⟨choice, _ | ⟨other, rest⟩⟩
  · exact absurd (emptied (List.sublist_nil.mp live)) hasResult
  · -- the one overload left is the only one for the covered assignment, too
    rcases List.sublist_singleton.mp live with hnone | hone
    · exact absurd (emptied hnone) hasResult
    · have hchoice : choice ∈ remaining.filter (·.isPossible env B result args) := by simp [hone]
      exact (pins choice hone).apply_covers unionFree builtIns
        (Overload.constantName?_result_isSome (standard choice (List.mem_filter.mp hchoice).1))
        covers
  · exact covers

theorem sameBase_covers (unionFree : env.UnionFree) {left right : TypeVar}
    (satisfied : (sameBase left right).Satisfied env B) (covers : A.Covers env B) :
    ((sameBase left right).update env A).assignment.Covers env B := by
  rcases satisfied with ⟨hl, hr⟩ | ⟨types, others, hl, hr, shared⟩
  · rw [update_sameBase_all_all (covers.eq_all hl) (covers.eq_all hr)]
    exact covers
  · cases hAl : A left with
    | all =>
        cases hAr : A right with
        | all =>
            rw [update_sameBase_all_all hAl hAr]
            exact covers
        | only uppers =>
            rw [update_sameBase_all_only hAl hAr]
            refine covers.set (TypeSet.covers_of_exists_above hl fun name hname => ?_)
            obtain ⟨root, ⟨hroot, -, hothers⟩, hsub⟩ := shared name (.inl hname)
            exact ⟨root, TypeSet.mem_only.mpr (covers.mem_constantBases unionFree hAr hr hroot hothers), hsub⟩
    | only uppers =>
        cases hAr : A right with
        | all =>
            rw [update_sameBase_only_all hAl hAr]
            refine covers.set (TypeSet.covers_of_exists_above hr fun name hname => ?_)
            obtain ⟨root, ⟨hroot, htypes, -⟩, hsub⟩ := shared name (.inr hname)
            exact ⟨root, TypeSet.mem_only.mpr (covers.mem_constantBases unionFree hAl hl hroot htypes), hsub⟩
        | only uppers' =>
            rw [update_sameBase_only_only hAl hAr]
            have kept : ∀ {var : TypeVar} {names tops : Names}, A var = .only tops →
                B var = .only names → (∀ name ∈ names, ∃ root,
                  env.SharedBase types others root ∧ env.isSubtype name root) →
                (TypeSet.only (tops.filter (env.isBelowOne
                  (commonBases env uppers uppers')))).Covers env (B var) := by
              intro var names tops htops hnames hshared
              refine TypeSet.covers_of_exists_above hnames fun name hname => ?_
              obtain ⟨root, ⟨⟨kind, hroot⟩, htypes, hothers⟩, hbelow⟩ := hshared name hname
              obtain ⟨upper, hupper, hsub⟩ := (covers var).exists_above hnames hname
              rw [htops, TypeSet.mem_only] at hupper
              refine ⟨upper, ?_, hsub⟩
              simp only [TypeSet.mem_only, Names.mem_filter, TypeEnv.isBelowOne, List.any_eq_true,
                Names.mem_toList]
              have hcommon : root ∈ commonBases env uppers uppers' := Names.mem_inter.mpr
                ⟨covers.mem_constantBases unionFree hAl hl ⟨kind, hroot⟩ htypes,
                  covers.mem_constantBases unionFree hAr hr ⟨kind, hroot⟩ hothers⟩
              exact ⟨hupper, root, hcommon,
                unionFree.isSubtype_end_up (TypeEnv.next?_of_constant hroot) hsub hbelow⟩
            exact (covers.set (kept hAl hl fun name hname => shared name (.inl hname))).set
              (kept hAr hr fun name hname => shared name (.inr hname))

theorem component_covers (unionFree : env.UnionFree) {element record : TypeVar} {position : Int}
    (satisfied : (component element record position).Satisfied env B)
    (covers : A.Covers env B) :
    ((component element record position).update env A).assignment.Covers env B := by
  cases hrecord : A record with
  | all =>
      rw [update_component_all hrecord]
      exact covers
  | only uppers =>
      rw [update_component_only hrecord]
      obtain ⟨records, hrecords, above⟩ := covers record uppers hrecord
      obtain ⟨reaching, elements, helements, below⟩ := satisfied records hrecords
      -- a record above a covered one is the same record under another name
      have sameField : ∀ {name upper field : String}, env.isSubtype name upper →
          env.field? position name = some field → env.field? position upper = some field := by
        intro name upper field hsub hfield
        obtain ⟨fields, hfields, hat⟩ := Option.bind_eq_some_iff.mp hfield
        exact Option.bind_eq_some_iff.mpr ⟨fields, unionFree.recordFields?_up hsub hfields, hat⟩
      refine Assignment.Covers.set (covers.set ?_) ?_
      · refine TypeSet.covers_of_exists_above hrecords fun name hname => ?_
        obtain ⟨upper, hupper, hsub⟩ := above name hname
        obtain ⟨field, hfield⟩ := Option.isSome_iff_exists.mp (reaching name hname)
        exact ⟨upper, by simp [hupper, hasField, sameField hsub hfield], hsub⟩
      · refine TypeSet.covers_of_exists_above helements fun name hname => ?_
        obtain ⟨owner, howner, field, hfield, hbelow⟩ := below name hname
        obtain ⟨upper, hupper, hsub⟩ := above owner howner
        refine unionFree.exists_mem_meet ((covers element).exists_above helements hname)
          ⟨field, ?_, hbelow⟩
        simp only [fieldsAt, TypeSet.mem_only, Names.mem_ofList, List.mem_filterMap,
          Names.mem_toList]
        exact ⟨upper, hupper, sameField hsub hfield⟩

theorem below_covers (unionFree : env.UnionFree) {var bound : TypeVar}
    (satisfied : (below var bound).Satisfied env B) (covers : A.Covers env B) :
    ((below var bound).update env A).assignment.Covers env B := by
  rw [update_below]
  refine covers.set ?_
  cases hbound : A bound with
  | all =>
      rw [TypeEnv.meet_all_right]
      exact covers var
  | only uppers =>
      obtain ⟨bounds, hbounds, above⟩ := covers bound uppers hbound
      obtain ⟨names, hnames, below⟩ := satisfied bounds hbounds
      refine TypeSet.covers_of_exists_above hnames fun name hname => ?_
      obtain ⟨middle, hmiddle, hsub⟩ := below name hname
      obtain ⟨upper, hupper, hsub'⟩ := above middle hmiddle
      exact unionFree.exists_mem_meet ((covers var).exists_above hnames hname)
        ⟨upper, TypeSet.mem_only.mpr hupper, unionFree.isSubtype_trans hsub hsub'⟩

theorem supertypeIn_covers (unionFree : env.UnionFree) (builtIns : env.HasBuiltIns)
    {var : TypeVar} {values : TypeSet} (standard : (supertypeIn var values).Standard env)
    (satisfied : (supertypeIn var values).Satisfied env B) (covers : A.Covers env B) :
    ((supertypeIn var values).update env A).assignment.Covers env B := by
  rw [update_supertypeIn]
  obtain ⟨names, hnames, below⟩ := satisfied
  refine covers.set (TypeSet.covers_of_exists_above hnames fun name hname => ?_)
  obtain ⟨value, hvalue, hbelow⟩ := below name hname
  obtain ⟨upper, hupper, hsub⟩ := (covers var).exists_above hnames hname
  cases hvar : A var with
  | all => exact ⟨value, hvalue, hbelow⟩
  | only uppers =>
      rw [hvar] at hupper
      cases values with
      | all => exact ⟨upper, hupper, hsub⟩
      | only values =>
          -- the value is a constant type, so it bounds all that is above its subtypes
          obtain ⟨kind, hconstant⟩ := standard value hvalue
          refine ⟨upper, ?_, hsub⟩
          simp only [restrictTo, TypeSet.mem_only, Names.mem_filter, TypeEnv.isBelowOne,
            List.any_eq_true, Names.mem_toList]
          exact ⟨TypeSet.mem_only.mp hupper, value, TypeSet.mem_only.mp hvalue,
            unionFree.isSubtype_constant_up builtIns hsub hconstant hbelow⟩

/-- No update loses what the assignment covers. -/
theorem update_covers (unionFree : env.UnionFree) (builtIns : env.HasBuiltIns)
    {original current : Constraint} (recalls : Recalls env B original current)
    (standard : original.Standard env) (satisfied : original.Satisfied env B)
    (hasResult : original.HasResult B) (covers : A.Covers env B) :
    (current.update env A).assignment.Covers env B := by
  cases recalls with
  | fewer h => exact overload_covers unionFree builtIns standard satisfied hasResult covers h
  | same =>
      cases original with
      | subtypeOf var bound =>
          rw [update_subtypeOf]
          obtain ⟨names, hnames, below⟩ := satisfied
          refine covers.set (TypeSet.covers_of_exists_above hnames fun name hname => ?_)
          exact unionFree.exists_mem_meet ((covers var).exists_above hnames hname)
            ⟨bound, by simp [TypeSet.single], below name hname⟩
      | below var bound => exact below_covers unionFree satisfied covers
      | supertypeIn var values =>
          exact supertypeIn_covers unionFree builtIns standard satisfied covers
      | ofKind var kind candidates =>
          obtain ⟨rfl, rfl⟩ := standard
          rw [update_ofKind]
          obtain ⟨names, hnames, isRecord⟩ := satisfied
          refine covers.set (TypeSet.covers_of_exists_above hnames fun name hname => ?_)
          refine TypeEnv.exists_mem_filter ((covers var).exists_above hnames hname) ?_ ?_
          · intro upper hsub
            exact unionFree.kindsRise builtIns hsub (isRecord name hname)
          · obtain ⟨root, ⟨fields, hroot⟩, up⟩ :=
              (unionFree.isOfKind_iff builtIns).mp (isRecord name hname)
            exact ⟨root, TypeEnv.mem_recordTypes hroot,
              (unionFree.isSubtype_end_iff (TypeEnv.next?_of_record hroot)).mpr up⟩
      | recordOf var arity candidates =>
          obtain rfl := standard
          rw [update_recordOf]
          obtain ⟨names, hnames, isRecord⟩ := satisfied
          refine covers.set (TypeSet.covers_of_exists_above hnames fun name hname => ?_)
          obtain ⟨fields, hfields, harity⟩ := TypeEnv.isRecordOf_iff.mp (isRecord name hname)
          have fits : ∀ {upper}, env.isSubtype name upper → env.isRecordOf arity upper := by
            intro upper hsub
            exact TypeEnv.isRecordOf_iff.mpr
              ⟨fields, unionFree.recordFields?_up hsub hfields, harity⟩
          refine TypeEnv.exists_mem_filter ((covers var).exists_above hnames hname) fits ?_
          exact TypeEnv.exists_mem_filter (unionFree.exists_mem_recordTypes hfields) fits
            ⟨name, TypeSet.mem_all _, env.isSubtype_refl _⟩
      | sameBase left right => exact sameBase_covers unionFree satisfied covers
      | overload symbol result args subtypeResult remaining =>
          exact overload_covers unionFree builtIns standard satisfied hasResult covers
            List.filter_sublist
      | component element record position => exact component_covers unionFree satisfied covers

end Constraint

/-! ### Solutions -/

namespace Problem

variable {problem other : Problem} {solution : Round}

/-- The solver returns an assignment that covers every one that satisfies the
constraints, as long as the results of functors are not empty in that. -/
theorem solve_covers (unionFree : env.UnionFree) (builtIns : env.HasBuiltIns)
    (standard : ∀ constraint ∈ problem.constraints, constraint.Standard env)
    (satisfied : ∀ constraint ∈ problem.constraints, constraint.Satisfied env B)
    (hasResult : ∀ constraint ∈ problem.constraints, constraint.HasResult B)
    (h : problem.solve env = .ok solution) : solution.assignment.Covers env B := by
  have start : List.Forall₂
      (fun original current => original ∈ problem.constraints ∧
        Constraint.Recalls env B original current)
      problem.constraints problem.constraints :=
    List.forall₂_same.mpr fun constraint hmem => ⟨hmem, .same constraint⟩
  have unknown : Assignment.start.Covers env B := fun var => TypeSet.covers_all _
  obtain ⟨last, before, -, covers, rfl, quiet⟩ :=
    settle_preserves _ (Assignment.Covers env · B)
      (fun ⟨hmem, recalls⟩ covers =>
        ⟨⟨hmem, recalls.update covers (unionFree.kindsRise builtIns)⟩,
          Constraint.update_covers unionFree builtIns recalls (standard _ hmem)
            (satisfied _ hmem) (hasResult _ hmem) covers⟩) start unknown h
  rw [(sweep_unchanged quiet).1]
  exact covers

theorem finite_of_standard {constraint : Constraint} (standard : constraint.Standard env) :
    constraint.Finite := by
  cases constraint with
  | supertypeIn var values =>
      rintro rfl
      obtain ⟨kind, hkind⟩ := standard noType (TypeSet.mem_all noType)
      cases kind <;> simp [TypeEnv.constantName?, noType] at hkind
  | ofKind var kind candidates =>
      obtain ⟨-, rfl⟩ := standard
      simp [Constraint.Finite, TypeEnv.recordTypes, TypeSet.ofList]
  | recordOf var arity candidates =>
      obtain rfl := standard
      simp [Constraint.Finite, TypeEnv.recordTypes, TypeSet.ofList]
  | _ => trivial

/-- The order of the constraints does not matter. If one order leads to a solution
in which no variable of the constraints is left without a type, then any other
order leads to a solution, too, and wherever it leads to one, each type of either
solution is below one of the other. -/
theorem solve_perm (wellFormed : env.WellFormed) (unionFree : env.UnionFree)
    (noSubrecords : env.NoSubrecords)
    (standard : ∀ constraint ∈ problem.constraints, constraint.Standard env)
    (perm : problem.constraints.Perm other.constraints) (h : problem.solve env = .ok solution)
    (inhabited : ∀ constraint ∈ problem.constraints, ∀ var ∈ constraint.vars,
      solution.assignment var ≠ .empty) :
    (∀ solution', other.solve env = .ok solution' →
      ∀ var, (solution.assignment var).Mutual env (solution'.assignment var)) ∧
    (other.WellPosed env → ∃ solution', other.solve env = .ok solution') := by
  have acyclic := wellFormed.acyclic unionFree
  have builtIns := wellFormed.builtIns
  have standard' : ∀ constraint ∈ other.constraints, constraint.Standard env :=
    fun constraint hmem => standard constraint (perm.mem_iff.mpr hmem)
  -- a solution satisfies the constraints in whatever order they are listed
  have satisfied : ∀ constraint ∈ problem.constraints,
      constraint.Satisfied env solution.assignment := fun constraint hmem =>
    satisfied_of_solve acyclic h hmem (finite_of_standard (standard constraint hmem))
  have results : ∀ constraint ∈ problem.constraints,
      constraint.HasResult solution.assignment := by
    intro constraint hmem
    cases constraint with
    | overload symbol result args subtypeResult remaining =>
        exact inhabited _ hmem result List.mem_cons_self
    | _ => trivial
  constructor
  · intro solution' h' var
    have covers : solution'.assignment.Covers env solution.assignment :=
      solve_covers unionFree builtIns standard'
        (fun constraint hmem => satisfied constraint (perm.mem_iff.mpr hmem))
        (fun constraint hmem => results constraint (perm.mem_iff.mpr hmem)) h'
    have satisfied' : ∀ constraint ∈ problem.constraints,
        constraint.Satisfied env solution'.assignment := fun constraint hmem =>
      satisfied_of_solve acyclic h' (perm.mem_iff.mp hmem)
        (finite_of_standard (standard constraint hmem))
    -- what covers a set that is not empty is not empty either
    have results' : ∀ constraint ∈ problem.constraints,
        constraint.HasResult solution'.assignment := by
      intro constraint hmem
      cases constraint with
      | overload symbol result args subtypeResult remaining =>
          exact (covers result).ne_empty (inhabited _ hmem result List.mem_cons_self)
      | _ => trivial
    have covered : solution.assignment.Covers env solution'.assignment :=
      solve_covers unionFree builtIns standard satisfied' results' h
    exact TypeSet.mutual_of_covers (covered var) (covers var)
  · intro posed
    have stops := posed.stops_of_nothingBelowRecords acyclic wellFormed
      (unionFree.nothingBelowRecords noSubrecords)
    exact ⟨_, posed.solve_eq_ok acyclic wellFormed.complete stops⟩

/-- Even numbers, a record that begins with one, and another name for it. -/
def aliasedEnv : TypeEnv :=
  ⟨TypeEnv.builtIn.entries ++ [("pair", .record ["even", "symbol"]), ("even", .subset "number"),
    ("couple", .synonym "pair")]⟩

theorem aliasedEnv_wellFormed : aliasedEnv.WellFormed :=
  TypeEnv.ofDecls_wellFormed (show TypeEnv.ofDecls [.subset "even" "number",
    .record "pair" ["even", "symbol"], .synonym "couple" "pair"] = .ok aliasedEnv from rfl)

/-- A record under its two names, and the sum of twice its first field. -/
def aliasedSum : Problem :=
  { vars := [.named "p", .named "x", .named "y", .named "z"]
    constraints := [.subtypeOf (.named "p") "pair", .subtypeOf (.named "p") "couple",
      .component (.named "x") (.named "p") 0, .below (.named "y") (.named "x"),
      .supertypeIn (.named "y") (TypeEnv.constantTypes [.signed, .float]),
      .anyOverload "+" (.named "z") [.named "y", .named "y"] false,
      .sameBase (.named "z") (.named "y")] }

/-- Its constraints in the opposite order. -/
def aliasedSumReversed : Problem :=
  { aliasedSum with constraints := aliasedSum.constraints.reverse }

theorem aliasedSum_standard :
    ∀ constraint ∈ aliasedSum.constraints, constraint.Standard aliasedEnv := by
  simp only [aliasedSum, List.forall_mem_cons, Constraint.anyOverload, Constraint.Standard]
  refine ⟨trivial, trivial, trivial, trivial, ?_, fun choice hchoice => hchoice, trivial, by simp⟩
  intro value hvalue
  have values : value = "__numberConstant" ∨ value = "__floatConstant" := by
    simpa [TypeEnv.constantTypes, TypeEnv.constantName?, TypeSet.ofList] using hvalue
  rcases values with rfl | rfl
  · exact ⟨.signed, rfl⟩
  · exact ⟨.float, rfl⟩

theorem aliasedSum_mentions : ∀ constraint ∈ aliasedSum.constraints, ∀ var ∈ constraint.vars,
    var ∈ aliasedSum.vars := by decide

theorem aliasedSumReversed_wellPosed : aliasedSumReversed.WellPosed aliasedEnv := by
  have proper : ∀ constraint ∈ aliasedSum.constraints, constraint.Proper aliasedEnv := by
    simp only [aliasedSum, List.forall_mem_cons, Constraint.anyOverload, Constraint.Proper]
    refine ⟨by decide, by decide, by decide, trivial, ⟨by decide, ?_⟩, trivial, trivial, by simp⟩
    exact Constraint.known_constantTypes aliasedEnv_wellFormed.builtIns _
  intro constraint hmem
  have hmem : constraint ∈ aliasedSum.constraints := List.mem_reverse.mp hmem
  exact ⟨proper constraint hmem, aliasedSum_mentions constraint hmem⟩

/-- Both orders have a solution. They choose different names for the record. -/
theorem solve_perm_aliasedSum :
    ∃ solution solution', aliasedSum.solve aliasedEnv = .ok solution ∧
      aliasedSumReversed.solve aliasedEnv = .ok solution' ∧
      solution.assignment (.named "p") = .ofList ["pair"] ∧
      solution'.assignment (.named "p") = .ofList ["couple"] ∧
      ∀ var, (solution.assignment var).Mutual aliasedEnv (solution'.assignment var) := by
  have solved : (aliasedSum.solve aliasedEnv).toOption.map
      (fun solution => aliasedSum.vars.map fun var => solution.assignment var) =
        some [.ofList ["pair"], .ofList ["even"], .ofList ["even"],
          .ofList ["__numberConstant"]] := by decide +kernel
  have solved' : (aliasedSumReversed.solve aliasedEnv).toOption.map
      (fun solution => solution.assignment (.named "p")) = some (.ofList ["couple"]) := by
    decide +kernel
  cases h : aliasedSum.solve aliasedEnv with
  | error fault => simp [h, Except.toOption] at solved
  | ok solution =>
      rw [h] at solved
      have sets : (aliasedSum.vars.map fun var => solution.assignment var) =
          [.ofList ["pair"], .ofList ["even"], .ofList ["even"], .ofList ["__numberConstant"]] :=
        Option.some.inj solved
      have inhabited : ∀ constraint ∈ aliasedSum.constraints, ∀ var ∈ constraint.vars,
          solution.assignment var ≠ .empty := by
        intro constraint hmem var hvar
        have hset : solution.assignment var ∈
            aliasedSum.vars.map fun var => solution.assignment var :=
          List.mem_map_of_mem (aliasedSum_mentions constraint hmem var hvar)
        rw [sets] at hset
        have none_empty : ∀ types ∈ [TypeSet.ofList ["pair"], .ofList ["even"], .ofList ["even"],
            .ofList ["__numberConstant"]], types ≠ .empty := by decide
        exact none_empty _ hset
      obtain ⟨same, solvable⟩ := solve_perm aliasedEnv_wellFormed
        (TypeEnv.unionFree_of_names (by decide)) (TypeEnv.noSubrecords_of_names (by decide))
        aliasedSum_standard (show aliasedSum.constraints.Perm aliasedSumReversed.constraints from
          (List.reverse_perm _).symm) h inhabited
      obtain ⟨solution', h'⟩ := solvable aliasedSumReversed_wellPosed
      refine ⟨solution, solution', rfl, h', (List.cons.inj sets).1, ?_, same solution' h'⟩
      simpa [h', Except.toOption] using solved'

end Problem

end DatalogTyping

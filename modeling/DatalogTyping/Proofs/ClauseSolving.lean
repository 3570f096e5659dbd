import DatalogTyping.Proofs.ClauseProblems

/-!
# Solving clauses

Solving the problem of a clause ends in one of two ways: with a solution, if a
round changes nothing, and by giving up, if there is no such round. It depends on
the tests for records which of the two it is (`solveClause_stops_iff`). If nothing
but another name of a record lies below it, every clause has a solution.

Otherwise it may not. In `nestedClause_never_stops` a constructor is nested in
another, `S` is a subset type of the record type `R`, and two record types of one
field have these for their fields. Their field bounds the inner constructor by
`R` and `S`, of which the test for records drops `S`, which the next round brings
back.
-/

namespace DatalogTyping

namespace TypeEnv

variable {env : TypeEnv} {a b : String}

/-- Whatever is below a record is a record, under the same or another name. -/
def NothingBelowRecords (env : TypeEnv) : Prop :=
  ∀ a b, env.isSubtype a b → (env.recordFields? b).isSome → (env.recordFields? a).isSome

/-- No type is carved from a record. -/
def NoSubrecords (env : TypeEnv) : Prop :=
  ∀ name base, env.parent? name = some base → env.recordFields? base = none

theorem noSubrecords_of_names
    (h : ∀ name ∈ env.names, ∀ base ∈ env.parent? name, env.recordFields? base = none) :
    env.NoSubrecords := by
  intro name base hbase
  refine h name (mem_names_iff.mpr ?_) base hbase
  exact LinksTo.find?_isSome (.inr (.inr hbase))

/-- It is so if there are no records at all. -/
theorem nothingBelowRecords_of_names (h : ∀ name ∈ env.names, env.recordFields? name = none) :
    env.NothingBelowRecords := by
  intro a b _ hrecord
  obtain ⟨fields, hfields⟩ := Option.isSome_iff_exists.mp hrecord
  obtain ⟨root, -, hroot⟩ := recordFields?_eq_some.mp hfields
  have absent := h root (mem_names_iff.mpr (by simp [isType, hroot]))
  cases absent.symm.trans (recordFields?_eq_some.mpr ⟨root, .refl, hroot⟩)

theorem Acyclic.isSubtype_of_reaches (acyclic : env.Acyclic) (h : env.Reaches a b) :
    env.isSubtype a b := by
  induction h using Relation.ReflTransGen.head_induction_on with
  | refl => exact env.isSubtype_refl b
  | @head a next link _ ih =>
      cases ht : env.target? a with
      | some target =>
          obtain rfl : next = target := leads_rightUnique env.next? link (next?_of_target? ht)
          exact (acyclic.isSubtype_alias_left ht).mpr ih
      | none =>
          rw [Leads, next?_of_not_alias ht] at link
          exact acyclic.isSubtype_of_parent link ih

/-- A record below a record is the same record. -/
theorem Acyclic.recordFields?_eq (acyclic : env.Acyclic) (h : env.isSubtype a b)
    {fields others : List String} (ha : env.recordFields? a = some fields)
    (hb : env.recordFields? b = some others) : fields = others := by
  obtain ⟨low, toLow, hlow⟩ := recordFields?_eq_some.mp ha
  obtain ⟨high, toHigh, hhigh⟩ := recordFields?_eq_some.mp hb
  -- aliases resolved, neither is a union or a subset type, so they are the same
  rw [acyclic.isSubtype_standsFor_left toLow, acyclic.isSubtype_standsFor_right toHigh] at h
  have plain := target?_of_next?_none (next?_of_record hlow)
  have plain' := target?_of_next?_none (next?_of_record hhigh)
  rcases (acyclic.isSubtype_leaf_iff plain (by simp [elements?, hlow]) plain').mp h with
    rfl | ⟨elements, helements, -⟩ | ⟨base, hbase, -⟩
  · exact TypeDef.record.inj (Option.some.inj (hlow.symm.trans hhigh))
  · simp [elements?, hhigh] at helements
  · simp [parent?, hlow, TypeDef.base?] at hbase

theorem NothingBelowRecords.recordFields?_down (flat : env.NothingBelowRecords)
    (acyclic : env.Acyclic) (h : env.isSubtype a b) {fields : List String}
    (hb : env.recordFields? b = some fields) : env.recordFields? a = some fields := by
  obtain ⟨others, ha⟩ := Option.isSome_iff_exists.mp (flat a b h (by simp [hb]))
  rw [ha, acyclic.recordFields?_eq h ha hb]

theorem isOfKind_record_of_recordFields? {fields : List String}
    (h : env.recordFields? a = some fields) : env.isOfKind a .record := by
  obtain ⟨root, path, hroot⟩ := recordFields?_eq_some.mp h
  exact isOfKind_record_iff.mpr
    ⟨fields, (baseDef?_eq_some next?_of_record).mpr ⟨root, hroot, path.reaches⟩⟩

/-- If nothing is below records, even a type that is only carved from a record is
one. -/
theorem NothingBelowRecords.recordFields?_of_isOfKind (flat : env.NothingBelowRecords)
    (acyclic : env.Acyclic) (h : env.isOfKind a .record) :
    ∃ fields, env.recordFields? a = some fields := by
  obtain ⟨fields, hbase⟩ := isOfKind_record_iff.mp h
  obtain ⟨root, hroot, up⟩ := (baseDef?_eq_some next?_of_record).mp hbase
  exact ⟨fields, flat.recordFields?_down acyclic (acyclic.isSubtype_of_reaches up)
    (recordFields?_eq_some.mpr ⟨root, .refl, hroot⟩)⟩

end TypeEnv

/-- If nothing is below records, no test drops a type below one that it keeps. -/
theorem Constraint.not_dropsBelow {env : TypeEnv} (flat : env.NothingBelowRecords)
    (acyclic : env.Acyclic) {constraint : Constraint} (proper : constraint.Proper env)
    (A : Assignment) : ¬ constraint.DropsBelow env A := by
  rintro ⟨var, keep, names, test, -, dropped, -, kept, -, hsub, hkept, hdropped⟩
  cases constraint with
  | ofKind tested kind candidates =>
      obtain ⟨-, rfl⟩ : tested = var ∧ _ = keep := by simpa [test?] using test
      refine Bool.false_ne_true (hdropped.symm.trans ?_)
      cases kind with
      | record =>
          obtain ⟨fields, hfields⟩ := flat.recordFields?_of_isOfKind acyclic hkept
          exact TypeEnv.isOfKind_record_of_recordFields?
            (flat.recordFields?_down acyclic hsub hfields)
      | adt => exact absurd rfl proper.1
      | _ => exact acyclic.isOfKind_down (by decide) hsub hkept
  | recordOf tested arity candidates =>
      obtain ⟨-, rfl⟩ : tested = var ∧ _ = keep := by simpa [test?] using test
      unfold TypeEnv.isRecordOf at hkept hdropped
      split at hkept
      · rename_i fields hfields
        rw [flat.recordFields?_down acyclic hsub hfields] at hdropped
        simp_all
      · cases hkept
  | component element record position =>
      obtain ⟨-, rfl⟩ : record = var ∧ _ = keep := by simpa [test?] using test
      obtain ⟨field, hfield⟩ := Option.isSome_iff_exists.mp hkept
      obtain ⟨fields, hfields, hat⟩ := Option.bind_eq_some_iff.mp hfield
      simp [hasField, TypeEnv.field?, flat.recordFields?_down acyclic hsub hfields, hat]
        at hdropped
  | _ => simp [test?] at test

theorem Problem.WellPosed.stops_of_nothingBelowRecords {env : TypeEnv} {problem : Problem}
    (posed : problem.WellPosed env) (acyclic : env.Acyclic) (wellFormed : env.WellFormed)
    (flat : env.NothingBelowRecords) : problem.Stops env := by
  refine posed.stops_of_tidy acyclic wellFormed.complete 0 fun count _ visit hvisit => ?_
  obtain ⟨-, hposed, within⟩ := posed.invariant acyclic wellFormed.complete count
  exact Constraint.not_dropsBelow flat acyclic
    (visits_posed acyclic wellFormed.complete hposed within visit hvisit).1.1 visit.2

theorem TypeEnv.UnionFree.nothingBelowRecords {env : TypeEnv} (unionFree : env.UnionFree)
    (none : env.NoSubrecords) : env.NothingBelowRecords := by
  intro a b hsub hrecord
  obtain ⟨fields, hfields⟩ := Option.isSome_iff_exists.mp hrecord
  obtain ⟨root, path, hroot⟩ := recordFields?_eq_some.mp hfields
  have up : env.Reaches a root := by
    rw [← unionFree.isSubtype_end_iff (next?_of_record hroot)]
    exact unionFree.isSubtype_trans hsub
      ((unionFree.isSubtype_end_iff (next?_of_record hroot)).mpr path.reaches)
  -- no step on the way to a record is one from a subset type to its base
  have renamed : env.StandsFor a root := by
    clear hsub
    induction up using Relation.ReflTransGen.head_induction_on with
    | refl => exact .refl
    | @head a next link _ ih =>
        cases ht : env.target? a with
        | some target =>
            obtain rfl : next = target := leads_rightUnique env.next? link (next?_of_target? ht)
            exact ih.head ht
        | none =>
            rw [Leads, next?_of_not_alias ht] at link
            have isRecord := recordFields?_eq_some.mpr ⟨root, ih, hroot⟩
            rw [none _ _ link] at isRecord
            cases isRecord
  simp [recordFields?_eq_some.mpr ⟨root, renamed, hroot⟩]

/-! ### Clauses -/

section Clauses

variable {program : Program} {context : Context} {resolutions : Resolutions} {clause : Node}
  {problem : Problem}

theorem solveClause_eq_ok (hcontext : Context.ofProgram program = .ok context)
    (acyclic : context.env.Acyclic)
    (hproblem : clauseProblem context program resolutions clause = .ok problem)
    (stops : problem.Stops context.env) :
    ∃ solved, solveClause context program resolutions clause = .ok solved ∧
      solved.clause = clause ∧ ∀ var, (solved.solution.assignment var).Known context.env := by
  have wellFormed := Context.wellFormed_of_ofProgram hcontext
  have posed := clauseProblem_wellPosed hcontext hproblem
  have solved := posed.solve_eq_ok acyclic wellFormed.complete stops
  obtain ⟨-, -, within⟩ := posed.invariant acyclic wellFormed.complete (Nat.find stops + 1)
  refine ⟨⟨clause, problem, problem.after context.env (Nat.find stops + 1)⟩, ?_, rfl, within.1⟩
  simp only [solveClause, hproblem, solved]

theorem solveClause_eq_endless (hcontext : Context.ofProgram program = .ok context)
    (acyclic : context.env.Acyclic)
    (hproblem : clauseProblem context program resolutions clause = .ok problem)
    (endless : ¬ problem.Stops context.env) :
    solveClause context program resolutions clause = .error .endless := by
  have posed := clauseProblem_wellPosed hcontext hproblem
  have complete := (Context.wellFormed_of_ofProgram hcontext).complete
  have unsolved := posed.solve_eq_endless acyclic complete endless
  simp [solveClause, hproblem, unsolved]

/-- The solution of a clause is in sets of types. -/
theorem solveClause_known (hcontext : Context.ofProgram program = .ok context)
    (acyclic : context.env.Acyclic) {solved : SolvedClause}
    (h : solveClause context program resolutions clause = .ok solved) (var : TypeVar) :
    (solved.solution.assignment var).Known context.env := by
  cases hproblem : clauseProblem context program resolutions clause with
  | error fault => simp [solveClause, hproblem] at h
  | ok problem =>
      by_cases stops : problem.Stops context.env
      · obtain ⟨found, hfound, -, known⟩ := solveClause_eq_ok hcontext acyclic hproblem stops
        obtain rfl := Except.ok.inj (h.symm.trans hfound)
        exact known var
      · cases h.symm.trans (solveClause_eq_endless hcontext acyclic hproblem stops)

/-- A clause is solved if a round changes nothing, and given up otherwise. There is
such a round exactly if from some round on no test for records drops a type below
one that it keeps, so always if nothing is below records. -/
theorem solveClause_stops_iff (hcontext : Context.ofProgram program = .ok context)
    (acyclic : context.env.Acyclic)
    (hproblem : clauseProblem context program resolutions clause = .ok problem) :
    ((∃ solved, solveClause context program resolutions clause = .ok solved) ↔
      problem.Stops context.env) ∧
    (problem.Stops context.env ↔
      ∃ start, ∀ count ≥ start, problem.TidyAfter context.env count) ∧
    (context.env.NothingBelowRecords → problem.Stops context.env) := by
  have wellFormed := Context.wellFormed_of_ofProgram hcontext
  have posed := clauseProblem_wellPosed hcontext hproblem
  refine ⟨⟨?_, fun stops => (solveClause_eq_ok hcontext acyclic hproblem stops).imp fun _ h => h.1⟩,
    posed.stops_iff_eventually_tidy acyclic wellFormed.complete,
    posed.stops_of_nothingBelowRecords acyclic wellFormed⟩
  rintro ⟨solved, hsolved⟩
  by_contra endless
  rw [solveClause_eq_endless hcontext acyclic hproblem endless] at hsolved
  cases hsolved

end Clauses

/-! ### A constructor within a constructor -/

/-- The clause `A([[_,_]]).`, in which a record of two is the only part of a record
of one. -/
def nestedClause : Node :=
  .mk 10 none .clause [.mk 11 none (.atom "A") [.mk 12 none .record [.mk 13 none .record
    [.mk 14 none .wildcard [], .mk 15 none .wildcard []]]]]

/-- The problem of the clause, with the records of an environment. -/
def nestedProblem (env : TypeEnv) : Problem :=
  { vars := [.argument 12 "[[_,_]]", .argument 13 "[_,_]", .argument 14 "_", .argument 15 "_"]
    constraints := [
      .recordOf (.argument 12 "[[_,_]]") 1 env.recordTypes,
      .component (.argument 13 "[_,_]") (.argument 12 "[[_,_]]") 0,
      .recordOf (.argument 13 "[_,_]") 2 env.recordTypes,
      .component (.argument 14 "_") (.argument 13 "[_,_]") 0,
      .component (.argument 15 "_") (.argument 13 "[_,_]") 1] }

/-- A record type `R` of two numbers, and a record type `P` with an `R` for its only
field. -/
def nestedTypes : List Node := [
  .mk 0 none (.recordDecl "R")
    [.mk 1 none (.field "a" "number") [], .mk 2 none (.field "b" "number") []],
  .mk 3 none (.recordDecl "P") [.mk 4 none (.field "a" "R") []]]

def nestedContext : Context where
  env := ⟨TypeEnv.builtIn.entries ++ [("R", .record ["number", "number"]), ("P", .record ["R"])]⟩
  owners := []
  signatures := []

/-- Without subset types of records, the nested constructor has a solution. -/
theorem solveClause_nestedClause :
    Context.ofProgram { types := nestedTypes } = .ok nestedContext ∧
      ∃ solved, solveClause nestedContext { types := nestedTypes } {} nestedClause =
        .ok solved := by
  have hcontext : Context.ofProgram { types := nestedTypes } = .ok nestedContext := by rfl
  have hproblem : clauseProblem nestedContext { types := nestedTypes } {} nestedClause =
      .ok (nestedProblem nestedContext.env) := by rfl
  have acyclic : nestedContext.env.Acyclic := TypeEnv.acyclic_of_ordered (by decide)
  have unionFree : nestedContext.env.UnionFree := TypeEnv.unionFree_of_names (by decide)
  have flat := unionFree.nothingBelowRecords (TypeEnv.noSubrecords_of_names (by decide))
  obtain ⟨solves, -, stops⟩ := solveClause_stops_iff hcontext acyclic hproblem
  exact ⟨hcontext, solves.mpr (stops flat)⟩

/-- The same types with a subset type `S` of `R`, and a record type `Q` with an `S`
for its only field. -/
def tornTypes : List Node := nestedTypes ++ [
  .mk 5 none (.subsetDecl "S" "R") [],
  .mk 6 none (.recordDecl "Q") [.mk 7 none (.field "a" "S") []]]

def tornContext : Context where
  env := ⟨TypeEnv.builtIn.entries ++ [("R", .record ["number", "number"]), ("P", .record ["R"]),
    ("Q", .record ["S"]), ("S", .subset "R")]⟩
  owners := []
  signatures := []

/-- With a subset type of a record, no round leaves the sets of the nested
constructor as they are, although the environment has no cycle. -/
theorem nestedClause_never_stops :
    ∃ context problem, Context.ofProgram { types := tornTypes } = .ok context ∧
      context.env.Acyclic ∧
      clauseProblem context { types := tornTypes } {} nestedClause = .ok problem ∧
      ¬ problem.Stops context.env ∧
      solveClause context { types := tornTypes } {} nestedClause = .error .endless := by
  have hcontext : Context.ofProgram { types := tornTypes } = .ok tornContext := by rfl
  have hproblem : clauseProblem tornContext { types := tornTypes } {} nestedClause =
      .ok (nestedProblem tornContext.env) := by rfl
  have acyclic : tornContext.env.Acyclic := TypeEnv.acyclic_of_ordered (by decide)
  have posed := clauseProblem_wellPosed hcontext hproblem
  have wellFormed := Context.wellFormed_of_ofProgram hcontext
  -- the third round changes the inner constructor back to what the second left
  have endless : ¬ (nestedProblem tornContext.env).Stops tornContext.env :=
    posed.not_stops_of_stateAfter_eq acyclic wellFormed.complete (show 2 < 3 by decide)
      (by decide +kernel) (by decide +kernel)
  exact ⟨tornContext, _, hcontext, acyclic, hproblem, endless,
    solveClause_eq_endless hcontext acyclic hproblem endless⟩

end DatalogTyping

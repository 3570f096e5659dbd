import DatalogTyping.Proofs.Greatest
import DatalogTyping.Proofs.Kinds
import DatalogTyping.Proofs.NoReturn

/-!
# What overload constraints remember

A constraint for overloads forgets an overload as soon as the sets of types rule it
out, and never considers it again. Nothing is lost by that if all types have kinds.
Updates only go down (`Constraint.covers_update`), whether or not they narrow: a set
may win back a type, but only one below those that it has. Going down does not change
the kind of a type, so what is ruled out once remains ruled out
(`Overload.isPossible_of_covers`).

At the end of a run, therefore, each constraint remembers what filtering its overloads
once, by the final sets of types, would leave of them (`settle_remembers`).
-/

namespace DatalogTyping

variable {env : TypeEnv} {A B C : Assignment} {constraints : List Constraint} {result : Round}

/-! ### Updates go down -/

namespace TypeSet

variable {types middle lower : TypeSet}

theorem Covers.trans (covers : types.Covers env middle) (covers' : middle.Covers env lower)
    (acyclic : env.Acyclic) : types.Covers env lower := by
  intro uppers huppers
  obtain ⟨middles, hmiddles, above⟩ := covers uppers huppers
  obtain ⟨names, hnames, above'⟩ := covers' middles hmiddles
  refine ⟨names, hnames, fun name hname => ?_⟩
  obtain ⟨between, hbetween, hsub⟩ := above' name hname
  obtain ⟨upper, hupper, hsub'⟩ := above between hbetween
  exact ⟨upper, hupper, acyclic.isSubtype_trans hsub hsub'⟩

theorem covers_filter (names : Names) (keep : String → Bool) :
    (TypeSet.only names).Covers env (.only (names.filter keep)) := by
  refine covers_of_exists_above rfl fun name hname => ?_
  exact ⟨name, mem_only.mpr (Names.mem_filter.mp hname).1, env.isSubtype_refl name⟩

theorem covers_meet (acyclic : env.Acyclic) (types others : TypeSet) :
    types.Covers env (env.meet types others) := by
  rcases types with _ | names
  · exact covers_all _
  rcases others with _ | others
  · exact covers_refl env _
  refine covers_of_exists_above rfl fun name hname => ?_
  obtain ⟨upper, hupper, hsub⟩ := (acyclic.exists_above_of_mem_commonNames hname).1
  exact ⟨upper, mem_only.mpr hupper, hsub⟩

end TypeSet

theorem Assignment.covers_refl (env : TypeEnv) (A : Assignment) : A.Covers env A :=
  fun var => TypeSet.covers_refl env (A var)

theorem Assignment.Covers.trans (covers : A.Covers env B) (covers' : B.Covers env C)
    (acyclic : env.Acyclic) : A.Covers env C :=
  fun var => (covers var).trans (covers' var) acyclic

namespace Constraint

/-- No update brings in a type that is not below one that was there. -/
theorem covers_update (acyclic : env.Acyclic) (constraint : Constraint) (A : Assignment) :
    A.Covers env (constraint.update env A).assignment := by
  intro var
  have effect := update_effect acyclic constraint (A := A) var
  generalize A var = types, (constraint.update env A).assignment var = after at effect
  cases effect with
  | met _ => exact TypeSet.covers_meet acyclic _ _
  | kept _ => exact TypeSet.covers_filter _ _
  | tested _ => exact TypeSet.covers_filter _ _

theorem NamesTypes.remembered {constraint : Constraint} (named : constraint.NamesTypes env)
    (A : Assignment) : (constraint.remembered env A).NamesTypes env := by
  cases constraint with
  | overload symbol result args subtypeResult remaining => trivial
  | _ => exact named

/-- What is forgotten on the way down would be forgotten at the end of it. -/
theorem remembered_remembered (rise : env.KindsRise) (covers : A.Covers env B)
    (constraint : Constraint) :
    (constraint.remembered env A).remembered env B = constraint.remembered env B := by
  cases constraint with
  | overload symbol result args subtypeResult remaining =>
      simp only [remembered, List.filter_filter]
      congr 1
      refine List.filter_congr fun choice _ => ?_
      rw [Bool.and_eq_left_iff_imp]
      exact Overload.isPossible_of_covers covers rise
  | _ => rfl

end Constraint

/-! ### Rounds and runs -/

section Run

variable (acyclic : env.Acyclic) (complete : env.Complete)

include acyclic complete

/-- A round goes down, among the types. -/
theorem sweep_covers (named : ∀ constraint ∈ constraints, constraint.NamesTypes env)
    (known : ∀ var, (A var).Known env) :
    A.Covers env (sweep env constraints A).assignment ∧
      ∀ var, ((sweep env constraints A).assignment var).Known env := by
  induction constraints generalizing A with
  | nil => exact ⟨A.covers_refl env, known⟩
  | cons constraint rest ih =>
      obtain ⟨hfirst, hrest⟩ := List.forall_mem_cons.mp named
      have covers := constraint.covers_update acyclic A
      obtain ⟨covers', known'⟩ :=
        ih hrest (Constraint.update_known acyclic complete hfirst known)
      exact ⟨covers.trans covers' acyclic, known'⟩

/-- What a round forgets would be forgotten at any time after it. -/
theorem sweep_remembered (rise : env.KindsRise)
    (named : ∀ constraint ∈ constraints, constraint.NamesTypes env)
    (known : ∀ var, (A var).Known env)
    (later : (sweep env constraints A).assignment.Covers env B) :
    (sweep env constraints A).constraints.map (·.remembered env B) =
      constraints.map (·.remembered env B) := by
  induction constraints generalizing A with
  | nil => rfl
  | cons constraint rest ih =>
      obtain ⟨hfirst, hrest⟩ := List.forall_mem_cons.mp named
      have known' := Constraint.update_known acyclic complete hfirst known
      have covers := ((sweep_covers acyclic complete named known).1).trans later acyclic
      simp only [sweep, List.map_cons, Constraint.update_constraint]
      rw [Constraint.remembered_remembered rise covers]
      exact congrArg _ (ih hrest known' later)

omit acyclic complete in
theorem sweep_namesTypes (named : ∀ constraint ∈ constraints, constraint.NamesTypes env) :
    ∀ constraint ∈ (sweep env constraints A).constraints, constraint.NamesTypes env := by
  induction constraints generalizing A with
  | nil => simp [sweep]
  | cons constraint rest ih =>
      obtain ⟨hfirst, hrest⟩ := List.forall_mem_cons.mp named
      simp only [sweep, List.forall_mem_cons, Constraint.update_constraint]
      exact ⟨hfirst.remembered A, ih hrest⟩

omit acyclic complete in
/-- A round that changed nothing filters by one and the same assignment. -/
theorem sweep_constraints_of_unchanged (h : (sweep env constraints A).changed = false) :
    (sweep env constraints A).constraints = constraints.map (·.remembered env A) := by
  induction constraints generalizing A with
  | nil => rfl
  | cons constraint rest ih =>
      simp only [sweep, Bool.or_eq_false_iff] at h
      simp only [sweep, List.map_cons, Constraint.update_constraint]
      rw [Constraint.update_unchanged h.1] at h ⊢
      rw [ih h.2]

/-- A run goes down, and leaves of the constraints what filtering them at its end does. -/
theorem settle_remembers (rise : env.KindsRise) {bound : Nat}
    (h : settle env bound constraints A = .ok result)
    (named : ∀ constraint ∈ constraints, constraint.NamesTypes env)
    (known : ∀ var, (A var).Known env) :
    A.Covers env result.assignment ∧
      result.constraints = constraints.map (·.remembered env result.assignment) := by
  revert named known
  refine settle_induction ?_ ?_ h
  · rintro constraints A rfl unchanged - -
    rw [(sweep_unchanged unchanged).1]
    exact ⟨A.covers_refl env, sweep_constraints_of_unchanged unchanged⟩
  · intro constraints A ih named known
    obtain ⟨covers, known'⟩ := sweep_covers acyclic complete named known
    obtain ⟨later, hconstraints⟩ := ih (sweep_namesTypes named) known'
    refine ⟨covers.trans later acyclic, ?_⟩
    rw [hconstraints, sweep_remembered acyclic complete rise named known later]

end Run

/-! ### Solutions -/

/-- If the constraint is about overloads, it has forgotten none of its symbol. -/
def Constraint.IsFresh : Constraint → Prop
  | overload symbol _ _ _ remaining => remaining = Overload.ofSymbol symbol
  | _ => True

theorem Constraint.IsFresh.remembered_eq {constraint : Constraint} (fresh : constraint.IsFresh)
    {symbol : String} {result : TypeVar} {args : List TypeVar} {subtypeResult : Bool}
    {remaining : List Overload} :
    constraint.remembered env A = overload symbol result args subtypeResult remaining ↔
      constraint = anyOverload symbol result args subtypeResult ∧
        (Overload.ofSymbol symbol).filter (·.isPossible env A result args) = remaining := by
  cases constraint with
  | overload symbol' result' args' subtypeResult' remaining' =>
      have fresh : remaining' = Overload.ofSymbol symbol' := fresh
      simp only [remembered, anyOverload, overload.injEq, fresh]
      constructor
      · rintro ⟨rfl, rfl, rfl, rfl, h⟩
        exact ⟨⟨rfl, rfl, rfl, rfl, rfl⟩, h⟩
      · rintro ⟨⟨rfl, rfl, rfl, rfl, -⟩, h⟩
        exact ⟨rfl, rfl, rfl, rfl, h⟩
  | _ => simp [remembered, anyOverload]

theorem Overload.filter_ofSymbol (symbol : String) (result : TypeVar) (args : List TypeVar) :
    (ofSymbol symbol).filter (·.isPossible env A result args) =
      table.filter fun choice => choice.symbol = symbol ∧ choice.Suits env A result args := by
  rw [ofSymbol, List.filter_filter]
  refine List.filter_congr fun choice _ => ?_
  rw [Bool.eq_iff_iff, Bool.and_eq_true, isPossible_iff, decide_eq_true_iff, decide_eq_true_iff,
    and_comm]

namespace Problem

/-- In the solution of a problem each constraint for overloads is left with those overloads
of its symbol, in the order of the table, that take its number of arguments and whose kinds
the final sets of types allow for. -/
theorem solve_overloads (acyclic : env.Acyclic) (complete : env.Complete) (kinded : env.Kinded)
    {problem : Problem} (named : ∀ constraint ∈ problem.constraints, constraint.NamesTypes env)
    (fresh : ∀ constraint ∈ problem.constraints, constraint.IsFresh)
    {solution : Round} (h : problem.solve env = .ok solution) (index : Nat) (symbol : String)
    (result : TypeVar) (args : List TypeVar) (subtypeResult : Bool) (remaining : List Overload) :
    solution.constraints[index]? = some (.overload symbol result args subtypeResult remaining) ↔
      problem.constraints[index]? = some (.anyOverload symbol result args subtypeResult) ∧
        remaining = Overload.table.filter fun choice =>
          choice.symbol = symbol ∧ choice.Suits env solution.assignment result args := by
  have rise := kinded.kindsRise acyclic complete
  obtain ⟨-, hconstraints⟩ :=
    settle_remembers acyclic complete rise h named fun _ => trivial
  rw [hconstraints, List.getElem?_map, Option.map_eq_some_iff, ← Overload.filter_ofSymbol]
  constructor
  · rintro ⟨constraint, hconstraint, hremembered⟩
    have isFresh := fresh constraint (List.mem_of_getElem? hconstraint)
    obtain ⟨rfl, rfl⟩ := isFresh.remembered_eq.mp hremembered
    exact ⟨hconstraint, rfl⟩
  · rintro ⟨hconstraint, rfl⟩
    have isFresh := fresh _ (List.mem_of_getElem? hconstraint)
    exact ⟨_, hconstraint, isFresh.remembered_eq.mpr ⟨rfl, rfl⟩⟩

/-- A difference with a side in a union of subsets of `number` or in `float`, and one that
is a number or a float. The difference comes first, so its constraint is updated before
anything is known about the sides. -/
def unionDifference : Problem :=
  { vars := [.named "x", .named "y", .named "z"]
    constraints := [.anyOverload "-" (.named "z") [.named "x", .named "y"] false,
      .supertypeIn (.named "x") (.ofList ["W", "float"]),
      .supertypeIn (.named "y") (TypeEnv.constantTypes [.signed, .float])] }

theorem overlappingEnv_kinded : overlappingEnv.Kinded :=
  TypeEnv.kinded_of_names (by decide +kernel)

theorem unionDifference_namesTypes :
    ∀ constraint ∈ unionDifference.constraints, constraint.NamesTypes overlappingEnv := by
  simp only [unionDifference, List.forall_mem_cons, Constraint.anyOverload, Constraint.NamesTypes]
  exact ⟨trivial, Constraint.known_ofList (by decide),
    Constraint.known_constantTypes overlappingEnv_complete.builtIns _, by simp⟩

/-- Subtraction of numbers and of floats are what remains of the five overloads: those with
one argument are forgotten at once, that of unsigned numbers in the second round. -/
theorem solve_overloads_unionDifference :
    ∃ solution, unionDifference.solve overlappingEnv = .ok solution ∧
      (Overload.ofSymbol "-").length = 5 ∧
      solution.constraints[0]? = some (.overload "-" (.named "z") [.named "x", .named "y"] false
        (Overload.table.filter fun choice => choice.symbol = "-" ∧
          choice.Suits overlappingEnv solution.assignment (.named "z") [.named "x", .named "y"])) ∧
      (Overload.table.filter fun choice => choice.symbol = "-" ∧
        choice.Suits overlappingEnv solution.assignment (.named "z") [.named "x", .named "y"]).map
          (·.op) = [.sub, .fsub] := by
  have solved : (unionDifference.solve overlappingEnv).toOption.map (fun solution =>
      (Overload.table.filter fun choice => choice.symbol = "-" ∧
        choice.Suits overlappingEnv solution.assignment (.named "z") [.named "x", .named "y"]).map
          (·.op)) = some [.sub, .fsub] := by decide +kernel
  cases h : unionDifference.solve overlappingEnv with
  | error fault => simp [h, Except.toOption] at solved
  | ok solution =>
      have fresh : ∀ constraint ∈ unionDifference.constraints, constraint.IsFresh := by
        simp [unionDifference, Constraint.anyOverload, Constraint.IsFresh]
      refine ⟨solution, rfl, by decide, ?_, by simpa [h, Except.toOption] using solved⟩
      exact (solve_overloads overlappingEnv_acyclic overlappingEnv_complete overlappingEnv_kinded
        unionDifference_namesTypes fresh h 0 "-" (.named "z") [.named "x", .named "y"] false _).mpr
          ⟨rfl, rfl⟩

end Problem

end DatalogTyping

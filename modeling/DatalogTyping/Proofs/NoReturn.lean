import DatalogTyping.Proofs.Stopping

/-!
# Solving without tests for records

Constraints that do not test for records drop no type below one that they keep. So
every update narrows every set (`Constraint.RecordFree.update_narrows`), and the
weights of the sets show that solving comes to an end, whatever unions there are.

Narrowing is transitive, so it relates any two moments of a run, not only the ends of
an update (`Problem.WellPosed.history_narrows`). What has left a finite set is either
below no member of what is left, and then it stays out, or it is below one, and then
it would not have left (`TypeSet.Narrows.notMem`).
-/

namespace DatalogTyping

/-! ### Narrowing over several steps -/

namespace TypeSet

variable {env : TypeEnv} {types others third : TypeSet}

theorem Narrows.trans (acyclic : env.Acyclic) (first : types.Narrows env others)
    (second : others.Narrows env third) : types.Narrows env third := by
  rcases types with _ | types
  · trivial
  rcases others with _ | others
  · exact first.elim
  rcases third with _ | third
  · exact second.elim
  obtain ⟨below, keeps⟩ := first
  obtain ⟨below', keeps'⟩ := second
  refine ⟨fun low hlow => ?_, fun name hname low hlow hsub => ?_⟩
  · obtain ⟨between, hbetween, hsub⟩ := below' low hlow
    obtain ⟨high, hhigh, hsub'⟩ := below between hbetween
    exact ⟨high, hhigh, acyclic.isSubtype_trans hsub hsub'⟩
  · -- a member below what is left in the end is below what was left in between
    obtain ⟨between, hbetween, hsub'⟩ := below' low hlow
    have stays := keeps name hname between hbetween (acyclic.isSubtype_trans hsub hsub')
    exact keeps' name stays low hlow hsub

/-- A type that has left a finite set does not come back. -/
theorem Narrows.notMem (first : types.Narrows env others) (second : others.Narrows env third)
    (finite : types ≠ .all) {name : String} (h : name ∈ types) (gone : name ∉ others) :
    name ∉ third := by
  rcases types with _ | types
  · exact absurd rfl finite
  rcases others with _ | others
  · exact absurd (mem_all name) gone
  rcases third with _ | third
  · exact second.elim
  rw [mem_only] at h gone ⊢
  intro back
  obtain ⟨high, hhigh, hsub⟩ := second.1 name back
  exact gone (first.2 name h high hhigh hsub)

end TypeSet

/-- Each set narrows. -/
def Assignment.Narrows (env : TypeEnv) (A B : Assignment) : Prop :=
  ∀ var, (A var).Narrows env (B var)

theorem Assignment.Narrows.trans {env : TypeEnv} (acyclic : env.Acyclic) {A B C : Assignment}
    (first : A.Narrows env B) (second : B.Narrows env C) : A.Narrows env C :=
  fun var => (first var).trans acyclic (second var)

/-! ### Constraints without tests for records -/

namespace Constraint

variable {env : TypeEnv} {A : Assignment} {constraint : Constraint}

/-- The constraint does not test for records. It may still ask for a primitive kind. -/
def RecordFree : Constraint → Prop
  | ofKind _ kind _ => kind ∈ Kind.primitives
  | recordOf _ _ _ | component _ _ _ => False
  | _ => True

theorem RecordFree.evolves {current : Constraint} (recordFree : constraint.RecordFree)
    (h : constraint.Evolves current) : current.RecordFree := by
  cases h with
  | same => exact recordFree
  | fewer _ => trivial

theorem RecordFree.not_dropsBelow (recordFree : constraint.RecordFree) (acyclic : env.Acyclic)
    (A : Assignment) : ¬ constraint.DropsBelow env A := by
  rintro ⟨var, keep, names, test, -, dropped, -, kept, -, hsub, hkept, hdropped⟩
  cases constraint with
  | ofKind tested kind candidates =>
      obtain ⟨-, rfl⟩ : tested = var ∧ _ = keep := by simpa [test?] using test
      have passes := acyclic.isOfKind_down recordFree hsub hkept
      exact Bool.false_ne_true (hdropped.symm.trans passes)
  | recordOf | component => exact recordFree
  | _ => simp [test?] at test

theorem RecordFree.update_narrows (recordFree : constraint.RecordFree) (acyclic : env.Acyclic)
    (A : Assignment) : A.Narrows env (constraint.update env A).assignment := by
  intro var
  have effect := update_effect acyclic constraint (A := A) var
  exact effect.narrows acyclic (recordFree.not_dropsBelow acyclic A)

end Constraint

/-! ### The history of a run -/

section History

variable {env : TypeEnv} {A : Assignment} {vars : List TypeVar} {constraints : List Constraint}

/-- The assignments that a round passes through, one after each update. -/
def passed (env : TypeEnv) : List Constraint → Assignment → List Assignment
  | [], _ => []
  | constraint :: rest, A =>
    (constraint.update env A).assignment :: passed env rest (constraint.update env A).assignment

theorem getLast?_cons_passed (env : TypeEnv) (constraints : List Constraint) (A : Assignment) :
    (A :: passed env constraints A).getLast? = some (sweep env constraints A).assignment := by
  induction constraints generalizing A with
  | nil => rfl
  | cons constraint rest ih =>
      rw [passed, List.getLast?_cons_cons, ih]
      rfl

/-- A round narrows with each update: from its start to every moment of it, between any
two moments, and from each to its end. -/
theorem passed_narrows (acyclic : env.Acyclic) (complete : env.Complete)
    (recordFree : ∀ constraint ∈ constraints, constraint.RecordFree)
    (posed : ∀ constraint ∈ constraints, constraint.PosedIn env vars)
    (within : A.Within env vars) :
    (A :: passed env constraints A).Pairwise (Assignment.Narrows env) := by
  induction constraints generalizing A with
  | nil => exact List.pairwise_singleton _ _
  | cons constraint rest ih =>
      obtain ⟨hfree, hrestFree⟩ := List.forall_mem_cons.mp recordFree
      obtain ⟨hposed, hrestPosed⟩ := List.forall_mem_cons.mp posed
      have here := hfree.update_narrows acyclic A
      have there := ih hrestFree hrestPosed (within.update acyclic complete hposed)
      refine List.pairwise_cons.mpr ⟨fun B hB => ?_, there⟩
      rcases List.mem_cons.mp hB with rfl | hB
      · exact here
      · exact here.trans acyclic ((List.pairwise_cons.mp there).1 B hB)

namespace Problem

variable {problem : Problem}

/-- The assignments that a run passes through in so many rounds, one after each update. -/
def history (env : TypeEnv) (problem : Problem) : Nat → List Assignment
  | 0 => [.start]
  | count + 1 => problem.history env count ++
      passed env (problem.after env count).constraints (problem.after env count).assignment

theorem getLast?_history (env : TypeEnv) (problem : Problem) (count : Nat) :
    (problem.history env count).getLast? = some (problem.after env count).assignment := by
  induction count with
  | zero => rfl
  | succ count ih =>
      have last := getLast?_cons_passed env (problem.after env count).constraints
        (problem.after env count).assignment
      rw [history, List.getLast?_append, ih]
      rw [List.getLast?_cons] at last
      simpa [after_succ, Option.or_some] using last

theorem WellPosed.recordFree_after (acyclic : env.Acyclic) (complete : env.Complete)
    (posed : problem.WellPosed env)
    (recordFree : ∀ constraint ∈ problem.constraints, constraint.RecordFree) (count : Nat) :
    ∀ constraint ∈ (problem.after env count).constraints, constraint.RecordFree := by
  intro constraint hmem
  obtain ⟨evolved, -, -⟩ := posed.invariant acyclic complete count
  obtain ⟨original, horiginal, hevolves⟩ := exists_mem_of_forall₂ evolved.flip hmem
  exact (recordFree original horiginal).evolves hevolves

/-- Without tests for records, a run narrows between any two of its moments. -/
theorem WellPosed.history_narrows (acyclic : env.Acyclic) (complete : env.Complete)
    (posed : problem.WellPosed env)
    (recordFree : ∀ constraint ∈ problem.constraints, constraint.RecordFree) (count : Nat) :
    (problem.history env count).Pairwise (Assignment.Narrows env) := by
  induction count with
  | zero => exact List.pairwise_singleton _ _
  | succ count ih =>
      obtain ⟨-, hposed, within⟩ := posed.invariant acyclic complete count
      have hfree := posed.recordFree_after acyclic complete recordFree count
      obtain ⟨onward, round⟩ := List.pairwise_cons.mp
        (passed_narrows acyclic complete hfree hposed within)
      refine List.pairwise_append.mpr ⟨ih, round, fun B hB C hC => ?_⟩
      -- whatever came before the round narrows to its start
      obtain ⟨earlier, hsplit⟩ := List.getLast?_eq_some_iff.mp (problem.getLast?_history env count)
      rw [hsplit] at ih hB
      rcases List.mem_append.mp hB with hB | hB
      · have reaches := (List.pairwise_append.mp ih).2.2 B hB _ List.mem_cons_self
        exact reaches.trans acyclic (onward C hC)
      · rw [List.mem_singleton.mp hB]
        exact onward C hC

end Problem

end History

/-! ### Solving -/

namespace Problem

/-- A problem without tests for records has a solution, which the first round that
changes nothing leaves behind. On the way there, a type that has left a finite set of
a variable never comes back to it. -/
theorem solve_recordFree {env : TypeEnv} (acyclic : env.Acyclic) (complete : env.Complete)
    {problem : Problem} (posed : problem.WellPosed env)
    (recordFree : ∀ constraint ∈ problem.constraints, constraint.RecordFree) :
    (∃ count solution, problem.solve env = .ok solution ∧
      solution = problem.after env (count + 1) ∧ solution.changed = false ∧
      (∀ earlier < count, (problem.after env (earlier + 1)).changed = true) ∧
      (problem.history env (count + 1)).getLast? = some solution.assignment) ∧
    ∀ count A B C, [A, B, C].Sublist (problem.history env count) →
      ∀ var name, A var ≠ .all → name ∈ A var → name ∉ B var → name ∉ C var := by
  constructor
  · have stops : problem.Stops env := by
      refine posed.stops_of_tidy acyclic complete 0 fun count _ visit hvisit => ?_
      have hfree := posed.recordFree_after acyclic complete recordFree count visit.1
        (mem_constraints_of_visit visit hvisit)
      exact hfree.not_dropsBelow acyclic visit.2
    refine ⟨Nat.find stops, _, posed.solve_eq_ok acyclic complete stops, rfl, Nat.find_spec stops,
      fun earlier hearlier => ?_, getLast?_history env problem _⟩
    simpa using Nat.find_min stops hearlier
  · intro count A B C sub var name finite hname gone
    have narrows := (posed.history_narrows acyclic complete recordFree count).sublist sub
    obtain ⟨fromA, rest⟩ := List.pairwise_cons.mp narrows
    have first := fromA B List.mem_cons_self var
    have second := (List.pairwise_cons.mp rest).1 C List.mem_cons_self var
    exact first.notMem second finite hname gone

/-! ### Unions that overlap -/

/-- Two unions of subsets of `number` that have `B` in common, and another name for one
of them, which is older than the union itself. -/
def overlappingEnv : TypeEnv :=
  ⟨TypeEnv.builtIn.entries ++ [("W", .synonym "V"), ("U", .union ["A", "B"]),
    ("V", .union ["B", "C"]), ("A", .subset "number"), ("B", .subset "number"),
    ("C", .subset "number")]⟩

theorem overlappingEnv_complete : overlappingEnv.Complete where
  builtIns := by unfold TypeEnv.HasBuiltIns; decide
  closed := by
    have refs : ∀ entry ∈ overlappingEnv.entries, ∀ other ∈ entry.2.refs,
        overlappingEnv.isType other := by decide
    intro name definition hfind
    exact refs (name, definition) (TypeEnv.mem_entries_of_find? hfind)

theorem overlappingEnv_acyclic : overlappingEnv.Acyclic :=
  TypeEnv.acyclic_of_order
    ("__symbolConstant" :: "__numberConstant" :: "__unsignedConstant" :: "__floatConstant" ::
      "symbol" :: "number" :: "unsigned" :: "float" :: ["A", "B", "C", "U", "V", "W"]) (by decide)

/-- The set of `x` is first the one union, then has `B` besides, and then `B` alone. -/
def overlappingBounds : Problem :=
  { vars := [.named "x", .named "y", .named "z"]
    constraints := [.supertypeIn (.named "y") (.ofList ["U", "W"]), .subtypeOf (.named "x") "U",
      .below (.named "x") (.named "y"), .ofKind (.named "x") .signed (.ofList ["A"]),
      .sameBase (.named "z") (.named "x"),
      .anyOverload "+" (.named "z") [.named "x", .named "x"] true, .subtypeOf (.named "x") "W"] }

theorem overlappingBounds_wellPosed : overlappingBounds.WellPosed overlappingEnv := by
  have mentions : ∀ constraint ∈ overlappingBounds.constraints, ∀ var ∈ constraint.vars,
      var ∈ overlappingBounds.vars := by decide
  have known : ∀ names : List String, (∀ name ∈ names, overlappingEnv.isType name) →
      (TypeSet.ofList names).Known overlappingEnv := fun _ => Constraint.known_ofList
  have proper : ∀ constraint ∈ overlappingBounds.constraints, constraint.Proper overlappingEnv := by
    simp only [overlappingBounds, List.forall_mem_cons, Constraint.anyOverload, Constraint.Proper]
    exact ⟨⟨by decide, known _ (by decide)⟩, by decide, trivial,
      ⟨by decide, by decide, known _ (by decide)⟩, trivial, trivial, by decide, by simp⟩
  exact fun constraint hmem => ⟨proper constraint hmem, mentions constraint hmem⟩

/-- The set of `x` grows on the way and ends with `B`. What it has lost by then it does
not get back. -/
theorem solve_recordFree_overlappingBounds :
    (∃ solution, overlappingBounds.solve overlappingEnv = .ok solution ∧
      solution.assignment (.named "x") = .ofList ["B"]) ∧
    (overlappingBounds.history overlappingEnv 1).map (fun A => A (.named "x")) =
      [.all, .all, .ofList ["U"], .ofList ["B", "U"], .ofList ["B", "U"], .ofList ["B", "U"],
        .ofList ["B", "U"], .ofList ["B"]] ∧
    ∀ count A B C, [A, B, C].Sublist (overlappingBounds.history overlappingEnv count) →
      "U" ∈ A (.named "x") → A (.named "x") ≠ .all → "U" ∉ B (.named "x") →
        "U" ∉ C (.named "x") := by
  have recordFree : ∀ constraint ∈ overlappingBounds.constraints, constraint.RecordFree := by
    simp [overlappingBounds, Constraint.anyOverload, Constraint.RecordFree, Kind.primitives]
  obtain ⟨⟨count, solution, hsolve, -⟩, noReturn⟩ :=
    solve_recordFree overlappingEnv_acyclic overlappingEnv_complete overlappingBounds_wellPosed
      recordFree
  have solved : (overlappingBounds.solve overlappingEnv).toOption.map
      (fun solution => solution.assignment (.named "x")) = some (.ofList ["B"]) := by
    decide +kernel
  refine ⟨⟨solution, hsolve, ?_⟩, by decide +kernel, ?_⟩
  · simpa [hsolve, Except.toOption] using solved
  · intro count A B C sub hmem finite gone
    exact noReturn count A B C sub (.named "x") "U" finite hmem gone

end Problem

end DatalogTyping

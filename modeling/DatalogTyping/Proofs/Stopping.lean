import Mathlib.Data.List.ProdSigma
import Mathlib.Data.List.Sublists
import Mathlib.Data.Nat.Find
import DatalogTyping.Proofs.Narrowing

/-!
# When the solver stops

The rounds of a problem, continued forever, are `Problem.after`. The problem stops
if one of them changes nothing. The solver finds that round if there is one: it
gives up only after more rounds than there are states, and a run without a
repeated state is no longer than that (`solve_eq_ok`).

A problem stops exactly if from some round on no test drops a type below one that
it keeps (`stops_iff_eventually_tidy`). Each round that does not do so takes
weight away if it changes anything, so there are finitely many of these.
-/

namespace DatalogTyping

/-! ### Posing a problem -/

/-- The constraint is proper and about the given variables. -/
def Constraint.PosedIn (env : TypeEnv) (vars : List TypeVar) (constraint : Constraint) : Prop :=
  constraint.Proper env ∧ ∀ var ∈ constraint.vars, var ∈ vars

/-- The assignment has sets of types, and knows nothing about other variables than
the given ones. -/
def Assignment.Within (env : TypeEnv) (vars : List TypeVar) (A : Assignment) : Prop :=
  (∀ var, (A var).Known env) ∧ ∀ var, var ∉ vars → A var = .all

/-- The constraints are proper and about the variables of the problem. -/
def Problem.WellPosed (env : TypeEnv) (problem : Problem) : Prop :=
  ∀ constraint ∈ problem.constraints, constraint.PosedIn env problem.vars

section Posed

variable {env : TypeEnv} {A : Assignment} {vars : List TypeVar}

theorem Constraint.PosedIn.update {constraint : Constraint} (posed : constraint.PosedIn env vars)
    (A : Assignment) : (constraint.update env A).constraint.PosedIn env vars := by
  have evolves := (Evolves.same constraint).update env A
  generalize (constraint.update env A).constraint = updated at evolves
  cases evolves with
  | same => exact posed
  | fewer _ => exact ⟨trivial, posed.2⟩

theorem Assignment.Within.update (acyclic : env.Acyclic) (complete : env.Complete)
    {constraint : Constraint} (posed : constraint.PosedIn env vars) (within : A.Within env vars) :
    (constraint.update env A).assignment.Within env vars := by
  refine ⟨Constraint.update_known acyclic complete posed.1.namesTypes within.1, fun var hvar => ?_⟩
  rw [Constraint.update_frame fun hmem => hvar (posed.2 var hmem)]
  exact within.2 var hvar

/-- Every constraint of a round is updated with an assignment to the variables. -/
theorem visits_posed (acyclic : env.Acyclic) (complete : env.Complete)
    {constraints : List Constraint}
    (posed : ∀ constraint ∈ constraints, constraint.PosedIn env vars)
    (within : A.Within env vars) :
    ∀ visit ∈ visits env constraints A,
      visit.1.PosedIn env vars ∧ visit.2.Within env vars := by
  induction constraints generalizing A with
  | nil => simp [visits]
  | cons constraint rest ih =>
      obtain ⟨hfirst, hrest⟩ := List.forall_mem_cons.mp posed
      simp only [visits, List.forall_mem_cons]
      exact ⟨⟨hfirst, within⟩, ih hrest (within.update acyclic complete hfirst)⟩

/-- A round that drops no type below one that it keeps takes away from the weight
whatever it changes. -/
theorem sweep_totalWeight (acyclic : env.Acyclic) (complete : env.Complete)
    {constraints : List Constraint}
    (posed : ∀ constraint ∈ constraints, constraint.PosedIn env vars)
    (within : A.Within env vars)
    (tidy : ∀ visit ∈ visits env constraints A, ¬ visit.1.DropsBelow env visit.2) :
    (sweep env constraints A).assignment.totalWeight env vars ≤ A.totalWeight env vars ∧
      ((sweep env constraints A).changed →
        (sweep env constraints A).assignment.totalWeight env vars < A.totalWeight env vars) := by
  induction constraints generalizing A with
  | nil => exact ⟨le_rfl, fun changed => by cases changed⟩
  | cons constraint rest ih =>
      obtain ⟨hfirst, hrest⟩ := List.forall_mem_cons.mp posed
      simp only [visits, List.forall_mem_cons] at tidy
      obtain ⟨here, hereLt⟩ := Constraint.update_totalWeight acyclic complete hfirst.1 within.1
        tidy.1 hfirst.2
      obtain ⟨there, thereLt⟩ := ih hrest (within.update acyclic complete hfirst) tidy.2
      refine ⟨there.trans here, fun changed => ?_⟩
      rcases Bool.or_eq_true _ _ ▸ changed with changed | changed
      · exact there.trans_lt (hereLt changed)
      · exact (thereLt changed).trans_le here

end Posed

/-! ### Rounds that change nothing -/

section Unchanged

variable {env : TypeEnv} {A : Assignment}

/-- An overload constraint forgets no more if it is updated once more with the
same assignment. -/
theorem Constraint.update_again (constraint : Constraint) :
    (constraint.update env A).constraint.update env A = constraint.update env A := by
  rw [update_constraint]
  cases constraint with
  | overload symbol result args subtypeResult remaining =>
      simp only [remembered, update_overload, List.filter_filter, Bool.and_self]
  | _ => rfl

theorem sweep_again {constraints : List Constraint}
    (h : (sweep env constraints A).changed = false) :
    (sweep env (sweep env constraints A).constraints (sweep env constraints A).assignment).changed =
      false := by
  rw [(sweep_unchanged h).1]
  induction constraints with
  | nil => rfl
  | cons constraint rest ih =>
      simp only [sweep, Bool.or_eq_false_iff] at h ⊢
      rw [Constraint.update_again]
      obtain ⟨here, there⟩ := h
      rw [Constraint.update_unchanged here] at there ⊢
      exact ⟨here, ih there⟩

theorem mem_visits_of_unchanged {constraints : List Constraint}
    (h : (sweep env constraints A).changed = false) {visit : Constraint × Assignment}
    (hvisit : visit ∈ visits env constraints A) : visit.1 ∈ constraints ∧ visit.2 = A := by
  induction constraints with
  | nil => simp [visits] at hvisit
  | cons constraint rest ih =>
      simp only [sweep, Bool.or_eq_false_iff] at h
      obtain ⟨here, there⟩ := h
      simp only [visits, Constraint.update_unchanged here, List.mem_cons] at there hvisit
      rcases hvisit with rfl | hvisit
      · exact ⟨List.mem_cons_self, rfl⟩
      · obtain ⟨hmem, hsame⟩ := ih there hvisit
        exact ⟨List.mem_cons_of_mem _ hmem, hsame⟩

/-- A constraint that drops a type changes something. -/
theorem Constraint.not_dropsBelow_of_unchanged {constraint : Constraint}
    (h : (constraint.update env A).changed = false) : ¬ constraint.DropsBelow env A := by
  rintro ⟨var, keep, names, test, hnames, dropped, hdropped, -, -, -, -, hfails⟩
  have passes : names.filter keep = names := by
    cases constraint with
    | ofKind tested kind candidates =>
        obtain ⟨rfl, rfl⟩ : tested = var ∧ _ = keep := by simpa [test?] using test
        simp only [update_ofKind, hnames, TypeSet.filter, decide_eq_false_iff_not, not_not,
          TypeSet.only.injEq] at h
        exact h.symm
    | recordOf tested arity candidates =>
        obtain ⟨rfl, rfl⟩ : tested = var ∧ _ = keep := by simpa [test?] using test
        simp only [update_recordOf, hnames, TypeSet.filter, decide_eq_false_iff_not, not_not,
          TypeSet.only.injEq] at h
        exact h.symm
    | component element record position =>
        obtain ⟨rfl, rfl⟩ : record = var ∧ _ = keep := by simpa [test?] using test
        rw [update_component_only hnames] at h
        simp only [Bool.or_eq_false_iff, decide_eq_false_iff_not, not_not] at h
        rw [hnames, TypeSet.only.injEq] at h
        exact h.1.symm
    | _ => simp [test?] at test
  rw [Names.filter_eq_self.mp passes dropped hdropped] at hfails
  cases hfails

end Unchanged

/-! ### The rounds of a problem -/

namespace Problem

/-- The state after a number of rounds. -/
def after (env : TypeEnv) (problem : Problem) : Nat → Round
  | 0 => ⟨problem.constraints, .start, true⟩
  | count + 1 =>
    sweep env (problem.after env count).constraints (problem.after env count).assignment

theorem after_succ (env : TypeEnv) (problem : Problem) (count : Nat) :
    problem.after env (count + 1) =
      sweep env (problem.after env count).constraints (problem.after env count).assignment := rfl

/-- Some round changes nothing. -/
def Stops (env : TypeEnv) (problem : Problem) : Prop :=
  ∃ count, (problem.after env (count + 1)).changed = false

/-- No constraint of the round after the given one drops a type below one that it
keeps. -/
def TidyAfter (env : TypeEnv) (problem : Problem) (count : Nat) : Prop :=
  ∀ visit ∈ visits env (problem.after env count).constraints (problem.after env count).assignment,
    ¬ visit.1.DropsBelow env visit.2

variable {env : TypeEnv} {problem : Problem}

/-- What holds of the state after any number of rounds. -/
theorem WellPosed.invariant (acyclic : env.Acyclic) (complete : env.Complete)
    (posed : problem.WellPosed env) (count : Nat) :
    List.Forall₂ Constraint.Evolves problem.constraints (problem.after env count).constraints ∧
      (∀ constraint ∈ (problem.after env count).constraints,
        constraint.PosedIn env problem.vars) ∧
      (problem.after env count).assignment.Within env problem.vars := by
  -- the two facts about constraints are carried along as one relation
  have both : List.Forall₂
        (fun original current => original.Evolves current ∧ current.PosedIn env problem.vars)
        problem.constraints (problem.after env count).constraints ∧
      (problem.after env count).assignment.Within env problem.vars := by
    induction count with
    | zero =>
        refine ⟨List.forall₂_same.mpr fun constraint hmem => ⟨.same _, posed constraint hmem⟩, ?_⟩
        exact ⟨fun _ => trivial, fun _ _ => rfl⟩
    | succ count ih =>
        refine sweep_preserves _ (Assignment.Within env problem.vars) ?_ ih.1 ih.2
        rintro original current A ⟨evolves, hposed⟩ within
        exact ⟨⟨evolves.update env A, hposed.update A⟩, within.update acyclic complete hposed⟩
  refine ⟨both.1.imp fun _ _ h => h.1, fun constraint hmem => ?_, both.2⟩
  obtain ⟨original, -, h⟩ := exists_mem_of_forall₂ both.1.flip hmem
  exact h.2

theorem WellPosed.round_after (acyclic : env.Acyclic) (complete : env.Complete)
    (posed : problem.WellPosed env) (count : Nat) :
    round env (problem.after env count).constraints (problem.after env count).assignment =
      .ok (problem.after env (count + 1)) := by
  obtain ⟨-, hposed, within⟩ := posed.invariant acyclic complete count
  refine round_eq_ok_iff.mpr ⟨rfl, fun visit hvisit => ?_⟩
  exact Constraint.fault?_of_proper (visits_posed acyclic complete hposed within visit hvisit).1.1

/-- A run that finds an unchanged round within its bound ends with it. -/
theorem WellPosed.settle_eq_ok (acyclic : env.Acyclic) (complete : env.Complete)
    (posed : problem.WellPosed env) {bound : Nat} (rest count : Nat) (room : rest < bound)
    (busy : ∀ i < rest, (problem.after env (count + i + 1)).changed = true)
    (done : (problem.after env (count + rest + 1)).changed = false) :
    settle env bound (problem.after env count).constraints (problem.after env count).assignment =
      .ok (problem.after env (count + rest + 1)) := by
  induction bound generalizing rest count with
  | zero => omega
  | succ bound ih =>
      rw [settle, posed.round_after acyclic complete]
      cases rest with
      | zero => simp [done]
      | succ rest =>
          have changed := busy 0 (Nat.succ_pos rest)
          simp only [Nat.add_zero] at changed
          have later : ∀ i, count + 1 + i + 1 = count + (i + 1) + 1 := by omega
          have found := ih rest (count + 1) (by omega)
            (fun i hi => by rw [later]; exact busy (i + 1) (by omega))
            (by rw [later]; exact done)
          simp only [changed, if_true, found, later]

/-- A run all of whose rounds change something ends without a solution. -/
theorem WellPosed.settle_eq_endless (acyclic : env.Acyclic) (complete : env.Complete)
    (posed : problem.WellPosed env) {bound : Nat} (count : Nat)
    (busy : ∀ i, (problem.after env (count + i + 1)).changed = true) :
    settle env bound (problem.after env count).constraints (problem.after env count).assignment =
      .error .endless := by
  induction bound generalizing count with
  | zero => rfl
  | succ bound ih =>
      rw [settle, posed.round_after acyclic complete]
      have changed := busy 0
      simp only [Nat.add_zero] at changed
      simp only [changed, if_true]
      refine ih (count + 1) fun i => ?_
      rw [show count + 1 + i + 1 = count + (i + 1) + 1 by omega]
      exact busy (i + 1)

/-! ### States -/

/-- What can become of a constraint. -/
def descendants : Constraint → List Constraint
  | .overload symbol result args subtypeResult remaining =>
    remaining.sublists.map (.overload symbol result args subtypeResult)
  | constraint => [constraint]

theorem length_descendants (constraint : Constraint) :
    (descendants constraint).length = memories constraint := by
  cases constraint <;> simp [descendants, memories]

theorem mem_descendants {original current : Constraint} (h : original.Evolves current) :
    current ∈ descendants original := by
  cases h with
  | same => cases original <;> simp [descendants]
  | fewer h => simpa [descendants] using h

/-- Every set of types. -/
def typeSets (env : TypeEnv) : List TypeSet :=
  .all :: env.names.sublists.map TypeSet.ofList

theorem length_typeSets (env : TypeEnv) : (typeSets env).length = 2 ^ env.size + 1 := by
  simp [typeSets]

theorem mem_typeSets {types : TypeSet} (known : types.Known env) : types ∈ typeSets env := by
  cases types with
  | all => exact List.mem_cons_self
  | only names =>
      refine List.mem_cons_of_mem _ (List.mem_map.mpr ⟨env.names.filter names.contains, ?_, ?_⟩)
      · exact List.mem_sublists.mpr List.filter_sublist
      · rw [TypeSet.ofList, TypeSet.only.injEq]
        refine Names.ext_mem fun name => ?_
        have htype : name ∈ names → name ∈ env.names :=
          fun hname => TypeEnv.mem_names_iff.mpr (known name hname)
        simpa [Names.contains] using htype

/-- The states that a problem can be in: the sets of its variables, and what has
become of its constraints. -/
def states (env : TypeEnv) (problem : Problem) : List (List TypeSet × List Constraint) :=
  (problem.vars.map fun _ => typeSets env).sections ×ˢ
    (problem.constraints.map descendants).sections

theorem length_states (env : TypeEnv) (problem : Problem) :
    (states env problem).length = problem.stateBound env := by
  have power : ∀ vars : List TypeVar,
      ((vars.map fun _ => typeSets env).map List.length).foldr (· * ·) 1 =
        (2 ^ env.size + 1) ^ vars.length := by
    intro vars
    induction vars with
    | nil => rfl
    | cons var rest ih =>
        simp only [List.map_cons, List.foldr_cons, ih, length_typeSets, List.length_cons]
        exact (Nat.pow_succ').symm
  have each : (problem.constraints.map descendants).map List.length =
      problem.constraints.map memories := by
    simp [length_descendants]
  simp only [states, List.length_product, length_sections, power, each, stateBound, Nat.pow_eq]

/-- The state that a problem is in after a number of rounds. -/
def stateAfter (env : TypeEnv) (problem : Problem) (count : Nat) :
    List TypeSet × List Constraint :=
  (problem.vars.map fun var => (problem.after env count).assignment var,
    (problem.after env count).constraints)

theorem WellPosed.stateAfter_mem_states (acyclic : env.Acyclic) (complete : env.Complete)
    (posed : problem.WellPosed env) (count : Nat) :
    problem.stateAfter env count ∈ states env problem := by
  obtain ⟨evolved, -, within⟩ := posed.invariant acyclic complete count
  rw [stateAfter, states, List.mem_product, List.mem_sections, List.mem_sections]
  refine ⟨?_, ?_⟩
  · rw [List.forall₂_map_left_iff, List.forall₂_map_right_iff]
    exact List.forall₂_same.mpr fun var _ => mem_typeSets (within.1 var)
  · rw [List.forall₂_map_right_iff]
    exact evolved.flip.imp fun _ _ h => mem_descendants h

/-- The state determines all that follows. -/
theorem WellPosed.after_add_eq (acyclic : env.Acyclic) (complete : env.Complete)
    (posed : problem.WellPosed env) {first second : Nat}
    (same : problem.stateAfter env first = problem.stateAfter env second) (more : Nat) :
    problem.after env (first + more + 1) = problem.after env (second + more + 1) := by
  obtain ⟨sets, constraints⟩ := Prod.mk.inj same
  induction more with
  | zero =>
      have assignments :
          (problem.after env first).assignment = (problem.after env second).assignment := by
        funext var
        by_cases hvar : var ∈ problem.vars
        · exact List.map_inj_left.mp sets var hvar
        · -- nothing is ever known about a variable that is not mentioned
          rw [(posed.invariant acyclic complete first).2.2.2 var hvar,
            (posed.invariant acyclic complete second).2.2.2 var hvar]
      rw [Nat.add_zero, Nat.add_zero, after_succ, after_succ, assignments, constraints]
  | succ more ih => rw [← Nat.add_assoc, ← Nat.add_assoc, after_succ, ih, ← after_succ]

/-- No state comes back before the first unchanged round: it would bring back that
round as well, only earlier. -/
theorem WellPosed.stateAfter_ne (acyclic : env.Acyclic) (complete : env.Complete)
    (posed : problem.WellPosed env) (stops : problem.Stops env) {first second : Nat}
    (hlt : first < second) (hle : second ≤ Nat.find stops) :
    problem.stateAfter env first ≠ problem.stateAfter env second := by
  intro same
  have again := posed.after_add_eq acyclic complete same (Nat.find stops - second)
  rw [Nat.add_sub_cancel' hle] at again
  refine Nat.find_min stops (m := first + (Nat.find stops - second)) (by omega) ?_
  rw [again]
  exact Nat.find_spec stops

/-- The first unchanged round comes before more rounds have passed than there are
states. -/
theorem WellPosed.find_lt_stateBound (acyclic : env.Acyclic) (complete : env.Complete)
    (posed : problem.WellPosed env) (stops : problem.Stops env) :
    Nat.find stops < problem.stateBound env := by
  by_contra late
  -- with more rounds than states, two rounds leave the same one
  have crowded : (states env problem).toFinset.card <
      (Finset.range (Nat.find stops + 1)).card := by
    rw [Finset.card_range, Nat.lt_succ_iff]
    refine (List.toFinset_card_le _).trans ?_
    rw [length_states]
    exact not_lt.mp late
  obtain ⟨i, hi, j, hj, hne, same⟩ := Finset.exists_ne_map_eq_of_card_lt_of_maps_to crowded
    fun count _ => List.mem_toFinset.mpr (posed.stateAfter_mem_states acyclic complete count)
  rw [Finset.mem_range, Nat.lt_succ_iff] at hi hj
  rcases Nat.lt_or_gt_of_ne hne with hij | hij
  · exact posed.stateAfter_ne acyclic complete stops hij hj same
  · exact posed.stateAfter_ne acyclic complete stops hij hi same.symm

/-- The solver finds the first unchanged round. -/
theorem WellPosed.solve_eq_ok (acyclic : env.Acyclic) (complete : env.Complete)
    (posed : problem.WellPosed env) (stops : problem.Stops env) :
    problem.solve env = .ok (problem.after env (Nat.find stops + 1)) := by
  have room := posed.find_lt_stateBound acyclic complete stops
  have found := posed.settle_eq_ok acyclic complete (Nat.find stops) 0
    (Nat.lt_succ_of_lt room) (fun i hi => ?_) (by rw [Nat.zero_add]; exact Nat.find_spec stops)
  · rwa [Nat.zero_add] at found
  · rw [Nat.zero_add]
    simpa using Nat.find_min stops hi

theorem WellPosed.solve_eq_endless (acyclic : env.Acyclic) (complete : env.Complete)
    (posed : problem.WellPosed env) (endless : ¬ problem.Stops env) :
    problem.solve env = .error .endless := by
  refine posed.settle_eq_endless acyclic complete 0 fun i => ?_
  rw [Nat.zero_add]
  by_contra unchanged
  exact endless ⟨i, by simpa using unchanged⟩

/-- A problem does not stop if it has been in the same state before and every round
so far has changed something. -/
theorem WellPosed.not_stops_of_stateAfter_eq (acyclic : env.Acyclic)
    (complete : env.Complete) (posed : problem.WellPosed env) {first second : Nat}
    (hlt : first < second) (same : problem.stateAfter env first = problem.stateAfter env second)
    (busy : ∀ count < second, (problem.after env (count + 1)).changed = true) :
    ¬ problem.Stops env := by
  intro stops
  refine posed.stateAfter_ne acyclic complete stops hlt (not_lt.mp fun early => ?_) same
  have changed := busy (Nat.find stops) early
  rw [Nat.find_spec stops] at changed
  cases changed

/-! ### Tidy rounds -/

theorem WellPosed.stops_of_tidy (acyclic : env.Acyclic) (complete : env.Complete)
    (posed : problem.WellPosed env) (start : Nat)
    (tidy : ∀ count ≥ start, problem.TidyAfter env count) : problem.Stops env := by
  by_contra endless
  have busy : ∀ count, (problem.after env (count + 1)).changed = true := by
    intro count
    by_contra unchanged
    exact endless ⟨count, by simpa using unchanged⟩
  -- each round from then on takes away at least one from the weight
  have falls : ∀ more, (problem.after env (start + more)).assignment.totalWeight env problem.vars +
      more ≤ (problem.after env start).assignment.totalWeight env problem.vars := by
    intro more
    induction more with
    | zero => exact le_rfl
    | succ more ih =>
        obtain ⟨-, hposed, within⟩ := posed.invariant acyclic complete (start + more)
        have lighter := (sweep_totalWeight acyclic complete hposed within
          (tidy (start + more) (Nat.le_add_right _ _))).2 (busy (start + more))
        rw [← after_succ, Nat.add_assoc] at lighter
        omega
  have := falls ((problem.after env start).assignment.totalWeight env problem.vars + 1)
  omega

/-- After a round that changed nothing, no round changes anything. -/
theorem after_unchanged {count : Nat} (h : (problem.after env (count + 1)).changed = false)
    (more : Nat) : (problem.after env (count + more + 1)).changed = false := by
  induction more with
  | zero => exact h
  | succ more ih => exact sweep_again ih

theorem tidyAfter_of_unchanged {count : Nat} (h : (problem.after env (count + 1)).changed = false) :
    problem.TidyAfter env count := by
  intro visit hvisit
  rw [after_succ] at h
  obtain ⟨-, flags⟩ := sweep_unchanged h
  obtain ⟨hmem, hsame⟩ := mem_visits_of_unchanged h hvisit
  rw [hsame]
  exact Constraint.not_dropsBelow_of_unchanged (flags visit.1 hmem)

/-- A problem stops exactly if from some round on no test drops a type below one
that it keeps. -/
theorem WellPosed.stops_iff_eventually_tidy (acyclic : env.Acyclic) (complete : env.Complete)
    (posed : problem.WellPosed env) :
    problem.Stops env ↔ ∃ start, ∀ count ≥ start, problem.TidyAfter env count := by
  constructor
  · rintro ⟨count, unchanged⟩
    refine ⟨count, fun later hlater => ?_⟩
    obtain ⟨more, rfl⟩ := Nat.exists_eq_add_of_le hlater
    exact tidyAfter_of_unchanged (after_unchanged unchanged more)
  · rintro ⟨start, tidy⟩
    exact posed.stops_of_tidy acyclic complete start tidy

end Problem

end DatalogTyping

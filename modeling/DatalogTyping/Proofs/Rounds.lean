import DatalogTyping.Proofs.Updates

/-!
# Rounds and runs

What holds at every update holds at the end of a run. A round updates the
constraints one after another, each with the assignment that the one before it
left, and a run goes on with the constraints and the assignment of the last
round. So a property of runs has two parts, one of each constraint and one of
the assignment, and `settle_preserves` asks of both together that no update
destroys them.

A run ends with a round that changed nothing, and there the flags of the single
updates say that each constraint is content with the final assignment.
-/

namespace DatalogTyping

variable {env : TypeEnv} {A : Assignment} {result : Round}

/-! ### One round -/

/-- A round, whether or not a constraint refuses to be updated. -/
def sweep (env : TypeEnv) : List Constraint → Assignment → Round
  | [], A => ⟨[], A, false⟩
  | constraint :: rest, A =>
    let update := constraint.update env A
    let others := sweep env rest update.assignment
    ⟨update.constraint :: others.constraints, others.assignment, update.changed || others.changed⟩

/-- The constraints of a round, each with the assignment it is updated with. -/
def visits (env : TypeEnv) : List Constraint → Assignment → List (Constraint × Assignment)
  | [], _ => []
  | constraint :: rest, A => (constraint, A) :: visits env rest (constraint.update env A).assignment

theorem mem_constraints_of_visit {constraints : List Constraint} :
    ∀ visit ∈ visits env constraints A, visit.1 ∈ constraints := by
  induction constraints generalizing A with
  | nil => simp [visits]
  | cons constraint rest ih =>
      rw [visits]
      refine List.forall_mem_cons.mpr ⟨List.mem_cons_self, fun visit hvisit => ?_⟩
      exact List.mem_cons_of_mem _ (ih visit hvisit)

theorem round_eq_ok_iff {constraints : List Constraint} :
    round env constraints A = .ok result ↔
      sweep env constraints A = result ∧
        ∀ visit ∈ visits env constraints A, visit.1.fault? env visit.2 = none := by
  induction constraints generalizing A result with
  | nil => simp [round, sweep, visits]
  | cons constraint rest ih =>
      rw [round]
      cases hfault : constraint.fault? env A with
      | some fault => simp [visits, hfault]
      | none =>
          simp only [sweep, visits, List.forall_mem_cons, hfault, true_and]
          constructor
          · intro h
            split at h
            · rename_i others hothers
              obtain ⟨rfl, hclean⟩ := ih.mp hothers
              exact ⟨Except.ok.inj h, hclean⟩
            · cases h
          · rintro ⟨rfl, hclean⟩
            rw [ih.mpr ⟨rfl, hclean⟩]

section Preserve

variable (relate : Constraint → Constraint → Prop) (holds : Assignment → Prop)

/-- A relation of each constraint to what it was once, together with a property
of the assignment, survives a round if it survives each update. -/
theorem sweep_preserves
    (step : ∀ {original current : Constraint} {A : Assignment}, relate original current →
      holds A → relate original (current.update env A).constraint ∧
        holds (current.update env A).assignment)
    {originals constraints : List Constraint}
    (hrelate : List.Forall₂ relate originals constraints) (hholds : holds A) :
    List.Forall₂ relate originals (sweep env constraints A).constraints ∧
      holds (sweep env constraints A).assignment := by
  induction hrelate generalizing A with
  | nil => exact ⟨.nil, hholds⟩
  | cons hfirst _ ih =>
      obtain ⟨hfirst', hholds'⟩ := step hfirst hholds
      obtain ⟨hrest, hend⟩ := ih hholds'
      exact ⟨.cons hfirst' hrest, hend⟩

end Preserve

/-! ### A run -/

/-- What is true of the last round, and true before any round if it is true after it, is
true at the beginning of a run. -/
@[elab_as_elim]
theorem settle_induction {motive : List Constraint → Assignment → Prop}
    (last : ∀ {constraints A}, sweep env constraints A = result → result.changed = false →
      motive constraints A)
    (again : ∀ {constraints A},
      motive (sweep env constraints A).constraints (sweep env constraints A).assignment →
        motive constraints A)
    {constraints : List Constraint} {bound : Nat}
    (h : settle env bound constraints A = .ok result) : motive constraints A := by
  induction bound generalizing constraints A with
  | zero => cases h
  | succ bound ih =>
      rw [settle] at h
      split at h
      · rename_i after hafter
        obtain ⟨rfl, -⟩ := round_eq_ok_iff.mp hafter
        split at h
        · exact again (ih h)
        · rename_i hchanged
          have hlast := Except.ok.inj h
          exact last hlast (by rw [← hlast]; simpa using hchanged)
      · cases h

section Preserve

variable (relate : Constraint → Constraint → Prop) (holds : Assignment → Prop)

/-- A run ends with a round that changed nothing, before which everything held
that no update destroys. -/
theorem settle_preserves
    (step : ∀ {original current : Constraint} {A : Assignment}, relate original current →
      holds A → relate original (current.update env A).constraint ∧
        holds (current.update env A).assignment)
    {originals constraints : List Constraint} {bound : Nat}
    (hrelate : List.Forall₂ relate originals constraints) (hholds : holds A)
    (h : settle env bound constraints A = .ok result) :
    ∃ last before, List.Forall₂ relate originals last ∧ holds before ∧
      sweep env last before = result ∧ result.changed = false := by
  revert hrelate hholds
  refine settle_induction ?_ ?_ h
  · intro last before hlast unchanged hrelate hholds
    exact ⟨last, before, hrelate, hholds, hlast, unchanged⟩
  · intro constraints A ih hrelate hholds
    obtain ⟨hrelate', hholds'⟩ := sweep_preserves relate holds step hrelate hholds
    exact ih hrelate' hholds'

end Preserve

/-- In a round that changed nothing, every update found the assignment as it is
in the end and reported no change. -/
theorem sweep_unchanged {constraints : List Constraint}
    (h : (sweep env constraints A).changed = false) :
    (sweep env constraints A).assignment = A ∧
      ∀ constraint ∈ constraints, (constraint.update env A).changed = false := by
  induction constraints generalizing A with
  | nil => exact ⟨rfl, by simp⟩
  | cons constraint rest ih =>
      simp only [sweep, Bool.or_eq_false_iff] at h ⊢
      obtain ⟨hhere, hthere⟩ := h
      rw [Constraint.update_unchanged hhere] at hthere ⊢
      obtain ⟨hend, hrest⟩ := ih hthere
      exact ⟨hend, List.forall_mem_cons.mpr ⟨hhere, hrest⟩⟩

/-! ### What becomes of a constraint -/

namespace Constraint

/-- The second constraint is the first one, perhaps with fewer overloads
remaining. -/
inductive Evolves : Constraint → Constraint → Prop
  | same (constraint : Constraint) : Evolves constraint constraint
  | fewer {symbol : String} {result : TypeVar} {args : List TypeVar} {subtypeResult : Bool}
      {remaining fewer : List Overload} (h : fewer.Sublist remaining) :
      Evolves (overload symbol result args subtypeResult remaining)
        (overload symbol result args subtypeResult fewer)

/-- An update at most strikes overloads off. -/
theorem Evolves.update {original current : Constraint} (h : Evolves original current)
    (env : TypeEnv) (A : Assignment) : Evolves original (current.update env A).constraint := by
  rw [update_constraint]
  cases h with
  | fewer h => exact .fewer (List.filter_sublist.trans h)
  | same =>
      cases original with
      | overload symbol result args subtypeResult remaining => exact .fewer List.filter_sublist
      | _ => exact .same _

end Constraint

end DatalogTyping

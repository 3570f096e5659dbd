import Mathlib.Data.Finset.Card
import Mathlib.Data.Nat.Find
import Mathlib.Logic.Relation

/-!
# Walks with one way on

From each place there is at most one step. A walk that arrives somewhere arrives
there first without passing a place twice, so it need not be longer than there
are places to step from (`exists_short_walk`). That is what makes the bounds of
the lattice operations generous enough, cycles or not.
-/

namespace DatalogTyping

/-- Take the given number of steps. -/
def walk (step : String → Option String) : Nat → String → Option String
  | 0, name => some name
  | count + 1, name => (step name).bind (walk step count)

section Walks

variable {step : String → Option String} {a b c : String}

/-- The steps of a walk, as a relation. -/
def Leads (step : String → Option String) (a b : String) : Prop := step a = some b

theorem leads_rightUnique (step : String → Option String) : Relator.RightUnique (Leads step) := by
  intro a b c hb hc
  exact Option.some.inj (hb.symm.trans hc)

theorem walk_add (first second : Nat) (a : String) :
    walk step (first + second) a = (walk step first a).bind (walk step second) := by
  induction first generalizing a with
  | zero => simp [walk]
  | succ first ih =>
      rw [Nat.add_right_comm]
      cases h : step a with
      | none => simp [walk, h]
      | some next => simp [walk, h, ih]

theorem exists_walk (h : Relation.ReflTransGen (Leads step) a b) :
    ∃ count, walk step count a = some b := by
  induction h using Relation.ReflTransGen.head_induction_on with
  | refl => exact ⟨0, rfl⟩
  | head link _ ih =>
      obtain ⟨count, hcount⟩ := ih
      refine ⟨count + 1, ?_⟩
      rw [walk, show step _ = some _ from link]
      exact hcount

/-- A walk to a place that was reached before can be cut short. -/
theorem exists_shorter_walk {i j count : Nat} (hij : i < j) (hj : j ≤ count)
    (same : walk step i a = walk step j a) (h : walk step count a = some b) :
    ∃ fewer < count, walk step fewer a = some b := by
  refine ⟨i + (count - j), by omega, ?_⟩
  rw [walk_add, same, ← walk_add, Nat.add_sub_cancel' hj]
  exact h

/-- Walks that only pass through the given names need not be longer than these
are many. -/
theorem exists_short_walk {names : List String} (known : ∀ {x y}, step x = some y → x ∈ names)
    (h : Relation.ReflTransGen (Leads step) a b) :
    ∃ count ≤ names.length, walk step count a = some b := by
  classical
  have walks := exists_walk h
  refine ⟨Nat.find walks, ?_, Nat.find_spec walks⟩
  by_contra long
  -- every place but the last is one of the names, and no place is passed twice
  have passes : ∀ i < Nat.find walks, ∃ x ∈ names, walk step i a = some x := by
    intro i hi
    have hend := Nat.find_spec walks
    obtain ⟨rest, hrest⟩ := Nat.exists_eq_add_of_lt hi
    rw [hrest, Nat.add_assoc, walk_add] at hend
    obtain ⟨x, hx, hend⟩ := Option.bind_eq_some_iff.mp hend
    rw [walk] at hend
    obtain ⟨y, hy, -⟩ := Option.bind_eq_some_iff.mp hend
    exact ⟨x, known hy, hx⟩
  have crowded : (names.toFinset.image some).card < (Finset.range (Nat.find walks)).card := by
    rw [Finset.card_range]
    exact (Finset.card_image_le.trans (List.toFinset_card_le names)).trans_lt (not_le.mp long)
  have lands : ∀ i ∈ Finset.range (Nat.find walks),
      walk step i a ∈ names.toFinset.image some := by
    intro i hi
    obtain ⟨x, hx, heq⟩ := passes i (Finset.mem_range.mp hi)
    rw [heq]
    exact Finset.mem_image_of_mem some (List.mem_toFinset.mpr hx)
  obtain ⟨i, hi, j, hj, hne, same⟩ :=
    Finset.exists_ne_map_eq_of_card_lt_of_maps_to crowded lands
  have cut : ∀ {i j : Nat}, i < j → j < Nat.find walks → walk step i a ≠ walk step j a := by
    intro i j hij hj same
    obtain ⟨fewer, hfewer, hend⟩ := exists_shorter_walk hij hj.le same (Nat.find_spec walks)
    exact Nat.find_min walks hfewer hend
  rcases Nat.lt_or_gt_of_ne hne with hij | hij
  · exact cut hij (Finset.mem_range.mp hj) same
  · exact cut hij (Finset.mem_range.mp hi) same.symm

theorem leads_of_walk {count : Nat} (h : walk step count a = some b) :
    Relation.ReflTransGen (Leads step) a b := by
  induction count generalizing a with
  | zero =>
      obtain rfl : a = b := by simpa [walk] using h
      exact .refl
  | succ count ih =>
      rw [walk] at h
      obtain ⟨next, hnext, h⟩ := Option.bind_eq_some_iff.mp h
      exact (ih h).head hnext

theorem eq_of_leads_of_end (h : Relation.ReflTransGen (Leads step) a b) (ends : step a = none) :
    a = b := by
  rcases Relation.ReflTransGen.cases_head h with same | ⟨next, link, -⟩
  · exact same
  · rw [Leads, ends] at link
    cases link

/-- The end of a way is where every part of the way leads. -/
theorem leads_to_end (h : Relation.ReflTransGen (Leads step) a b)
    (hc : Relation.ReflTransGen (Leads step) a c) (ends : step c = none) :
    Relation.ReflTransGen (Leads step) b c := by
  rcases Relation.ReflTransGen.total_of_right_unique (leads_rightUnique step) h hc with up | back
  · exact up
  · rw [eq_of_leads_of_end back ends]

/-- There is no way on from the end of a way, so no way back either. -/
theorem no_cycle_before_end (h : Relation.ReflTransGen (Leads step) a b) (ends : step b = none) :
    ¬ Relation.TransGen (Leads step) a a := by
  induction h using Relation.ReflTransGen.head_induction_on with
  | refl =>
      intro cycle
      obtain ⟨next, link, -⟩ := Relation.TransGen.head'_iff.mp cycle
      rw [Leads, ends] at link
      cases link
  | @head a next link _ ih =>
      intro cycle
      obtain ⟨other, hother, back⟩ := Relation.TransGen.head'_iff.mp cycle
      obtain rfl := leads_rightUnique step hother link
      exact ih (Relation.TransGen.tail' back link)

end Walks

end DatalogTyping

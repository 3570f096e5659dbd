import Mathlib.Data.List.Forall2
import Mathlib.Data.List.Nodup
import Mathlib.Data.List.Sections

/-!
# Sequences

Facts about lists, and about computations on lists that may fail, which say nothing about
types or clauses. A list of questions that were all answered is related to the list of its
answers (`forall₂_of_mapM_ok`), so most of what is asked of it is asked of `List.Forall₂`.
-/

namespace DatalogTyping

variable {ε σ α β : Type}

/-! ### Lists side by side -/

section Related

variable {R S : α → β → Prop} {xs : List α} {ys : List β}

theorem exists_mem_of_forall₂ (h : List.Forall₂ R xs ys) {x : α} (hx : x ∈ xs) :
    ∃ y ∈ ys, R x y := by
  induction h with
  | nil => cases hx
  | cons first _ ih =>
      rcases List.mem_cons.mp hx with rfl | hx
      · exact ⟨_, List.mem_cons_self, first⟩
      · obtain ⟨y, hy, related⟩ := ih hx
        exact ⟨y, List.mem_cons_of_mem _ hy, related⟩

theorem forall₂_of_forall_mem (h : List.Forall₂ R xs ys)
    (step : ∀ x ∈ xs, ∀ y ∈ ys, R x y → S x y) : List.Forall₂ S xs ys := by
  induction h with
  | nil => exact .nil
  | cons first _ ih =>
      refine .cons (step _ List.mem_cons_self _ List.mem_cons_self first) (ih ?_)
      exact fun x hx y hy => step x (List.mem_cons_of_mem _ hx) y (List.mem_cons_of_mem _ hy)

theorem map_eq_map_of_forall₂ {f g : α → β} {xs ys : List α}
    (h : List.Forall₂ (fun x y => f x = g y) xs ys) : xs.map f = ys.map g := by
  rwa [← List.forall₂_eq_eq_eq, List.forall₂_map_left_iff, List.forall₂_map_right_iff]

/-- What a function makes of the elements it is defined for stands beside these elements. -/
theorem forall₂_filter_filterMap {condition : α → Prop} [DecidablePred condition]
    {f : α → Option β} (hcondition : ∀ x, condition x ↔ ∃ y, R x y)
    (h : ∀ x ∈ xs, ∀ y, f x = some y ↔ R x y) :
    List.Forall₂ R (xs.filter condition) (xs.filterMap f) := by
  induction xs with
  | nil => exact .nil
  | cons x rest ih =>
      obtain ⟨hx, hrest⟩ := List.forall_mem_cons.mp h
      cases hfx : f x with
      | none =>
          have not : ¬ condition x := by
            rw [hcondition]
            rintro ⟨y, hy⟩
            cases hfx.symm.trans ((hx y).mpr hy)
          rw [List.filter_cons_of_neg (by simpa using not), List.filterMap_cons_none hfx]
          exact ih hrest
      | some y =>
          have holds : condition x := (hcondition x).mpr ⟨y, (hx y).mp hfx⟩
          rw [List.filter_cons_of_pos (by simpa using holds), List.filterMap_cons_some hfx]
          exact .cons ((hx y).mp hfx) (ih hrest)

end Related

/-! ### Conditions on elements -/

/-- What is checked for each element of a list is checked for these only, not for all that
there are of their type. -/
theorem forall_mem_of_all {xs : List α} {condition : α → Prop} [DecidablePred condition]
    (h : xs.all fun x => decide (condition x)) : ∀ x ∈ xs, condition x := by
  simpa using h

theorem exists_last_of_exists {xs : List α} {p : α → Prop} (h : ∃ x ∈ xs, p x) :
    ∃ before x after, xs = before ++ x :: after ∧ p x ∧ ∀ later ∈ after, ¬ p later := by
  induction xs with
  | nil => simp at h
  | cons first rest ih =>
      by_cases hrest : ∃ x ∈ rest, p x
      · obtain ⟨before, x, after, rfl, hx, none⟩ := ih hrest
        exact ⟨first :: before, x, after, rfl, hx, none⟩
      · have hfirst : p first := by simpa [hrest] using h
        exact ⟨[], first, rest, rfl, hfirst, fun later hlater hp => hrest ⟨later, hlater, hp⟩⟩

theorem all_congr_mem {xs : List α} {p q : α → Bool} (h : ∀ x ∈ xs, p x = q x) :
    xs.all p = xs.all q := by
  rw [Bool.eq_iff_iff, List.all_eq_true, List.all_eq_true]
  exact forall₂_congr fun x hx => by rw [h x hx]

theorem any_congr_mem {xs : List α} {p q : α → Bool} (h : ∀ x ∈ xs, p x = q x) :
    xs.any p = xs.any q := by
  rw [Bool.eq_iff_iff, List.any_eq_true, List.any_eq_true]
  exact exists_congr fun x => and_congr_right fun hx => by rw [h x hx]

theorem contains_map_of_injective [BEq α] [LawfulBEq α] [BEq β] [LawfulBEq β] {f : α → β}
    (injective : Function.Injective f) (xs : List α) (x : α) :
    (xs.map f).contains (f x) = xs.contains x := by
  rw [Bool.eq_iff_iff, List.contains_iff_mem, List.contains_iff_mem]
  exact List.mem_map_of_injective injective

/-! ### Positions and keys -/

/-- An element that is not filtered out comes after those before it that are not. -/
theorem getElem?_filter_countP {p : α → Bool} {xs : List α} {i : Nat} {x : α}
    (h : xs[i]? = some x) (hx : p x) : (xs.filter p)[(xs.take i).countP p]? = some x := by
  induction xs generalizing i with
  | nil => simp at h
  | cons first rest ih =>
      cases i with
      | zero =>
          obtain rfl : first = x := by simpa using h
          simp [hx]
      | succ i =>
          have there := ih (List.getElem?_cons_succ ▸ h)
          by_cases hfirst : p first
          · simpa [List.filter_cons_of_pos hfirst, List.countP_cons_of_pos hfirst] using there
          · simpa [List.filter_cons_of_neg hfirst, List.countP_cons_of_neg hfirst] using there

theorem mem_of_lookup_eq_some {entries : List (String × α)} {key : String} {value : α}
    (h : entries.lookup key = some value) : (key, value) ∈ entries := by
  obtain ⟨before, after, rfl, -⟩ := List.lookup_eq_some_iff.mp h
  exact List.mem_append_right before List.mem_cons_self

/-- Where keys are distinct, the entry of a key stands where the key does. -/
theorem find?_zip_of_nodup {key : α → Nat} {xs : List α} {ys : List β} {i : Nat} {x : α}
    (distinct : (xs.map key).Nodup) (h : xs[i]? = some x) :
    ((xs.zip ys).find? fun entry => key entry.1 == key x).map Prod.snd = ys[i]? := by
  induction xs generalizing ys i with
  | nil => simp at h
  | cons first rest ih =>
      obtain ⟨other, distinct⟩ := List.nodup_cons.mp distinct
      cases ys with
      | nil => simp
      | cons y ys =>
          cases i with
          | zero =>
              obtain rfl : first = x := by simpa using h
              simp
          | succ i =>
              have there : rest[i]? = some x := by simpa using h
              have differs : ¬ key first = key x := fun same =>
                other (same ▸ List.mem_map_of_mem (List.mem_of_getElem? there))
              simpa [differs] using ih distinct there

theorem length_sections (choices : List (List α)) :
    choices.sections.length = (choices.map List.length).foldr (· * ·) 1 := by
  induction choices with
  | nil => rfl
  | cons first rest ih =>
      simp [List.sections, List.length_flatMap, ih, Nat.mul_comm]

/-! ### Computations that may fail -/

theorem bind_eq_ok {x : Except ε α} {f : α → Except ε β} {result : β} :
    (x >>= f) = .ok result ↔ ∃ value, x = .ok value ∧ f value = .ok result := by
  cases x <;> simp [bind, Except.bind]

section Traversal

variable {f : α → Except ε β} {xs : List α} {ys : List β}

theorem forall₂_of_mapM_ok (h : xs.mapM f = .ok ys) :
    List.Forall₂ (fun x y => f x = .ok y) xs ys := by
  induction xs generalizing ys with
  | nil =>
      obtain rfl : [] = ys := by simpa [pure, Except.pure] using h
      exact .nil
  | cons x rest ih =>
      rw [List.mapM_cons] at h
      obtain ⟨first, hfirst, h⟩ := bind_eq_ok.mp h
      obtain ⟨others, hothers, h⟩ := bind_eq_ok.mp h
      obtain rfl : first :: others = ys := by simpa [pure, Except.pure] using h
      exact .cons hfirst (ih hothers)

/-- Every answer is the answer for one of the elements. -/
theorem exists_mem_of_mapM_ok (h : xs.mapM f = .ok ys) {y : β} (hy : y ∈ ys) :
    ∃ x ∈ xs, f x = .ok y :=
  exists_mem_of_forall₂ (forall₂_of_mapM_ok h).flip hy

theorem mem_of_mapM_ok (h : xs.mapM f = .ok ys) {x : α} (hx : x ∈ xs) {y : β}
    (hy : f x = .ok y) : y ∈ ys := by
  obtain ⟨found, hfound, hof⟩ := exists_mem_of_forall₂ (forall₂_of_mapM_ok h) hx
  obtain rfl := Except.ok.inj (hof.symm.trans hy)
  exact hfound

theorem mapM_eq_ok (h : ∀ x ∈ xs, ∃ y, f x = .ok y) : ∃ ys, xs.mapM f = .ok ys := by
  induction xs with
  | nil => exact ⟨[], rfl⟩
  | cons x rest ih =>
      obtain ⟨⟨y, hy⟩, hrest⟩ := List.forall_mem_cons.mp h
      obtain ⟨ys, hys⟩ := ih hrest
      exact ⟨y :: ys, by simp [List.mapM_cons, hy, hys, bind, Except.bind, pure, Except.pure]⟩

theorem mapM_congr_mem {g : α → Except ε β} (h : ∀ x ∈ xs, f x = g x) :
    xs.mapM f = xs.mapM g := by
  induction xs with
  | nil => rfl
  | cons x rest ih =>
      obtain ⟨hx, hrest⟩ := List.forall_mem_cons.mp h
      rw [List.mapM_cons, List.mapM_cons, hx, ih hrest]

/-- A loop none of whose steps fails runs to its end. -/
theorem forIn_eq_ok {body : α → PUnit → Except ε (ForInStep PUnit)}
    (h : ∀ x ∈ xs, body x ⟨⟩ = .ok (.yield ⟨⟩)) : forIn xs PUnit.unit body = .ok ⟨⟩ := by
  induction xs with
  | nil => rfl
  | cons x rest ih =>
      obtain ⟨here, there⟩ := List.forall_mem_cons.mp h
      rw [List.forIn_cons, here]
      exact ih there

end Traversal

/-- What each step keeps holds after all of them. -/
theorem foldlM_preserves {step : σ → α → Except ε σ} (holds : σ → Prop)
    (keeps : ∀ {state item after}, holds state → step state item = .ok after → holds after)
    {items : List α} {state after : σ} (h : items.foldlM step state = .ok after)
    (hstate : holds state) : holds after := by
  induction items generalizing state with
  | nil =>
      obtain rfl : state = after := Except.ok.inj h
      exact hstate
  | cons item rest ih =>
      rw [List.foldlM_cons] at h
      obtain ⟨next, hnext, h⟩ := bind_eq_ok.mp h
      exact ih h (keeps hstate hnext)

end DatalogTyping

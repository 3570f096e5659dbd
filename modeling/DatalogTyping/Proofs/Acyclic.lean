import Mathlib.Data.Finset.Card
import Mathlib.Logic.Relation
import DatalogTyping.Proofs.Members
import DatalogTyping.Proofs.Sequences
import DatalogTyping.Types.Lattice

/-!
# Environments without cycles

A type is linked to the target of its alias, to its base, or to its elements.
Every question about the lattice is a walk along these links, cut off by a bound
(see `Types/Lattice.lean`). In an environment where no walk returns to where it
started, every walk ends before the bound cuts it off: the number of types that
can be reached from a name, its `height`, falls with each link, and there are no
more of them than types.

So `isSubtype` satisfies the recursive equation that its definition only
satisfies up to the bound (`isSubtype_eq`), and everything else about subtyping
follows from that equation.
-/

namespace DatalogTyping

namespace TypeEnv

variable {env : TypeEnv} {a b : String}

/-! ### What a name is linked to -/

/-- The target of an alias. -/
def target? (env : TypeEnv) (name : String) : Option String :=
  match env.find? name with
  | some (.synonym target) => some target
  | _ => none

/-- The elements of a union. -/
def elements? (env : TypeEnv) (name : String) : Option (List String) :=
  match env.find? name with
  | some (.union elements) => some elements
  | _ => none

/-- The type that a type is carved from. -/
def parent? (env : TypeEnv) (name : String) : Option String :=
  (env.find? name).bind TypeDef.base?

/-- One name leads to another: as an alias to its target, as a union to its
elements, as a subset to its base. -/
def LinksTo (env : TypeEnv) (name other : String) : Prop :=
  env.target? name = some other ∨
    (∃ elements, env.elements? name = some elements ∧ other ∈ elements) ∨
    env.parent? name = some other

/-- No walk along links returns to where it started. -/
def Acyclic (env : TypeEnv) : Prop :=
  ∀ name, ¬ Relation.TransGen env.LinksTo name name

theorem target?_eq_some {target : String} :
    env.target? a = some target ↔ env.find? a = some (.synonym target) := by
  unfold target?
  split <;> simp_all

theorem elements?_eq_some {elements : List String} :
    env.elements? a = some elements ↔ env.find? a = some (.union elements) := by
  unfold elements?
  split <;> simp_all

theorem parent?_eq_some {base : String} :
    env.parent? a = some base ↔
      env.find? a = some (.primitive base) ∨ env.find? a = some (.subset base) := by
  unfold parent?
  rcases env.find? a with _ | (_ | _ | _ | _ | _ | _ | _) <;> simp [TypeDef.base?]

/-- A union is no alias. -/
theorem target?_of_elements? {elements : List String} (h : env.elements? a = some elements) :
    env.target? a = none := by
  simp [target?, elements?_eq_some.mp h]

/-- A subset type is no alias. -/
theorem target?_of_parent? {base : String} (h : env.parent? a = some base) :
    env.target? a = none := by
  rcases parent?_eq_some.mp h with h | h <;> simp [target?, h]

/-- A subset type is no union. -/
theorem elements?_of_parent? {base : String} (h : env.parent? a = some base) :
    env.elements? a = none := by
  rcases parent?_eq_some.mp h with h | h <;> simp [elements?, h]

/-- What is linked to anything is a type. -/
theorem LinksTo.find?_isSome (h : env.LinksTo a b) : (env.find? a).isSome := by
  rcases h with h | ⟨elements, h, -⟩ | h
  · rw [target?_eq_some.mp h]; rfl
  · rw [elements?_eq_some.mp h]; rfl
  · rcases parent?_eq_some.mp h with h | h <;> rw [h] <;> rfl

/-! ### Heights -/

/-- The names of all types. -/
def names (env : TypeEnv) : List String := env.entries.map Prod.fst

@[simp] theorem length_names (env : TypeEnv) : env.names.length = env.size := by
  simp [names, size]

theorem mem_names_iff : a ∈ env.names ↔ env.isType a := by
  simp only [names, isType, find?, List.lookup_isSome_iff, List.mem_map, beq_iff_eq]
  exact exists_congr fun entry => and_congr_right fun _ => eq_comm

open scoped Classical in
/-- The number of types that can be reached from a name, itself included. -/
noncomputable def height (env : TypeEnv) (name : String) : Nat :=
  (env.names.toFinset.filter fun other => Relation.ReflTransGen env.LinksTo name other).card

theorem height_le_size (env : TypeEnv) (name : String) : env.height name ≤ env.size := by
  classical
  refine (Finset.card_filter_le _ _).trans ?_
  exact (List.toFinset_card_le _).trans (length_names env).le

/-- A link that cannot be walked back leads to a lower name. -/
theorem height_lt (h : env.LinksTo a b) (oneWay : ¬ Relation.ReflTransGen env.LinksTo b a) :
    env.height b < env.height a := by
  classical
  have hmem : a ∈ env.names := mem_names_iff.mpr h.find?_isSome
  -- `a` reaches whatever `b` reaches, and itself besides
  apply Finset.card_lt_card
  rw [Finset.ssubset_iff_of_subset]
  · refine ⟨a, ?_, ?_⟩
    · simp [hmem, Relation.ReflTransGen.refl]
    · simp [oneWay]
  · intro other
    simp only [Finset.mem_filter]
    exact fun hother => ⟨hother.1, hother.2.head h⟩

theorem Acyclic.height_lt (acyclic : env.Acyclic) (h : env.LinksTo a b) :
    env.height b < env.height a :=
  TypeEnv.height_lt h fun back => acyclic a (Relation.TransGen.head' h back)

/-- Environments whose links all lead downwards have no cycle. -/
theorem acyclic_of_rank (rank : String → Nat)
    (falls : ∀ {a b}, env.LinksTo a b → rank b < rank a) : env.Acyclic := by
  intro name cycle
  have below : ∀ {a b}, Relation.TransGen env.LinksTo a b → rank b < rank a := by
    intro a b path
    induction path with
    | single link => exact falls link
    | tail _ link ih => exact (falls link).trans ih
  exact lt_irrefl _ (below cycle)

/-- Everything that a name is linked to. -/
def links (env : TypeEnv) (name : String) : List String :=
  (env.target? name).toList ++ (env.elements? name).getD [] ++ (env.parent? name).toList

theorem linksTo_iff_mem_links : env.LinksTo a b ↔ b ∈ env.links a := by
  unfold LinksTo links
  rw [List.mem_append, List.mem_append, Option.mem_toList, Option.mem_toList, or_assoc]
  cases env.elements? a <;> simp

/-- Environments whose types can be put in an order in which each comes after the types
it is linked to have no cycle. -/
theorem acyclic_of_order (order : List String)
    (ordered : ∀ a ∈ env.names, ∀ b ∈ env.links a, order.idxOf b < order.idxOf a) :
    env.Acyclic :=
  acyclic_of_rank order.idxOf fun {a b} link =>
    ordered a (mem_names_iff.mpr link.find?_isSome) b (linksTo_iff_mem_links.mp link)

/-- The order may be that of the environment itself. -/
theorem acyclic_of_ordered
    (ordered : ∀ a ∈ env.names, ∀ b ∈ env.links a, env.names.idxOf b < env.names.idxOf a) :
    env.Acyclic :=
  acyclic_of_order env.names ordered

/-! ### The equation of subtyping -/

/-- One step of comparing two types, given how to compare the types they are
linked to. -/
def subtypeStep (env : TypeEnv) (smaller : String → String → Bool) (a b : String) : Bool :=
  if a = b then true
  else match env.target? a, env.target? b with
    | some target, _ => smaller target b
    | none, some target => smaller a target
    | none, none =>
      match env.elements? a with
      | some elements => !elements.isEmpty && elements.all fun element => smaller element b
      | none =>
        ((env.elements? b).getD []).any (smaller a) || (env.parent? a).any (smaller · b)

theorem subtypeIn_succ (bound : Nat) :
    env.subtypeIn (bound + 1) a b = env.subtypeStep (env.subtypeIn bound) a b := by
  unfold subtypeIn subtypeStep target? elements? parent?
  rcases env.find? a with _ | (_ | _ | _ | _ | _ | _ | _) <;>
    rcases env.find? b with _ | (_ | _ | _ | _ | _ | _ | _) <;>
    simp [TypeDef.base?]

/-- A step only looks at pairs one link further on. -/
theorem subtypeStep_congr {f g : String → String → Bool}
    (left : ∀ x, env.LinksTo a x → f x b = g x b)
    (right : ∀ y, env.LinksTo b y → f a y = g a y) :
    env.subtypeStep f a b = env.subtypeStep g a b := by
  unfold subtypeStep
  split
  · rfl
  · cases ha : env.target? a with
    | some target => exact left target (.inl ha)
    | none =>
      cases hb : env.target? b with
      | some target => exact right target (.inl hb)
      | none =>
        cases hea : env.elements? a with
        | some elements =>
          have same : ∀ x ∈ elements, f x b = g x b :=
            fun x hx => left x (.inr (.inl ⟨elements, hea, hx⟩))
          simp only
          rw [all_congr_mem same]
        | none =>
          have sameAbove : ∀ y ∈ (env.elements? b).getD [], f a y = g a y := by
            intro y hy
            cases heb : env.elements? b with
            | none => simp [heb] at hy
            | some elements =>
              rw [heb] at hy
              exact right y (.inr (.inl ⟨elements, heb, hy⟩))
          have sameBelow : (env.parent? a).any (f · b) = (env.parent? a).any (g · b) := by
            cases hp : env.parent? a with
            | none => rfl
            | some base => exact left base (.inr (.inr hp))
          simp only
          rw [any_congr_mem sameAbove, sameBelow]

/-- Beyond the heights of the two types, a greater bound makes no difference. -/
theorem Acyclic.subtypeIn_stable (acyclic : env.Acyclic) :
    ∀ (bound : Nat) (a b : String), env.height a + env.height b < bound →
      env.subtypeIn (bound + 1) a b = env.subtypeIn bound a b
  | 0, _, _, h => absurd h (Nat.not_lt_zero _)
  | bound + 1, a, b, h => by
      -- a step follows a link on one side only, and the sum of the heights falls
      rw [subtypeIn_succ, subtypeIn_succ]
      apply subtypeStep_congr
      · intro x hx
        have := acyclic.height_lt hx
        exact acyclic.subtypeIn_stable bound x b (by omega)
      · intro y hy
        have := acyclic.height_lt hy
        exact acyclic.subtypeIn_stable bound a y (by omega)

/-- Without cycles, comparing two types is comparing the types they are linked
to; the bound no longer shows. -/
theorem Acyclic.isSubtype_eq (acyclic : env.Acyclic) (a b : String) :
    env.isSubtype a b = env.subtypeStep env.isSubtype a b := by
  have room : env.height a + env.height b < (env.size + 2) * (env.size + 2) := by
    have ha := env.height_le_size a
    have hb := env.height_le_size b
    have hsq : (env.size + 2) * 2 ≤ (env.size + 2) * (env.size + 2) :=
      Nat.mul_le_mul_left _ (Nat.le_add_left 2 env.size)
    omega
  unfold isSubtype
  rw [← acyclic.subtypeIn_stable _ a b room, subtypeIn_succ]

end TypeEnv

end DatalogTyping

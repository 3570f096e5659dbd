import DatalogTyping.Proofs.LeastTypes

/-!
# Ways up come to an end

The way up from a type leads from an alias to its target, and from a subset type to
its base. In an environment that is put together by hand it may go round in circles,
or stop at an alias that has no target yet. Resolving aliases takes notice of circles
made of aliases alone, looking for a base takes notice of none, and a bound cuts both
of them off.

A way up ends if some rank falls with each step (`exists_end_of_rank`). In an
environment without cycles that is the height of a type. In the environment of a
program it is its place among the types: whichever declaration asks for a subset type
or an alias, it comes into being after the type it refers to. That is so whatever is
declared. Unions, records and sum types may go round in circles, but they have no way
up; subset types and aliases that only refer to each other make no types.

So in the environment of a program both walks arrive, at whatever bound exceeds the
number of types, and at a type (`ofDecls_ways_end`).
-/

namespace DatalogTyping

/-- The types that have no way up are the constant ones and those with a structure of
their own. -/
theorem TypeDef.up?_eq_none_iff {definition : TypeDef} :
    definition.up? = none ↔ definition.isComposite ∨ ∃ kind, definition = .constant kind := by
  cases definition <;> simp [up?, isComposite]

namespace TypeEnv

variable {env : TypeEnv} {name : String}

/-! ### The end of a way up -/

/-- A way up on which a rank falls with each step ends. -/
theorem exists_end_of_rank (rank : String → Nat)
    (falls : ∀ {name upper}, env.next? name = some upper → rank upper < rank name)
    (name : String) : ∃ root, env.Reaches name root ∧ env.next? root = none := by
  induction hrank : rank name using Nat.strong_induction_on generalizing name with
  | _ height ih =>
      cases hnext : env.next? name with
      | none => exact ⟨name, .refl, hnext⟩
      | some upper =>
          obtain ⟨root, up, ends⟩ := ih _ (hrank ▸ falls hnext) upper rfl
          exact ⟨root, up.head hnext, ends⟩

/-- Without cycles, every way up ends. -/
theorem Acyclic.exists_end (acyclic : env.Acyclic) (name : String) :
    ∃ root, env.Reaches name root ∧ env.next? root = none :=
  exists_end_of_rank env.height (fun h => acyclic.height_lt (linksTo_of_next? h)) name

theorem Acyclic.exists_baseType (acyclic : env.Acyclic) (name : String) :
    ∃ root, env.baseType name = .ok root := by
  obtain ⟨root, up, ends⟩ := acyclic.exists_end name
  exact ⟨root, (baseType_eq_ok_iff ends).mpr up⟩

/-- The way up from a type ends in a type. -/
theorem WellFormed.exists_end (wellFormed : env.WellFormed) (h : env.isType name) :
    ∃ root, env.Reaches name root ∧ env.isType root ∧ env.next? root = none := by
  obtain ⟨root, up, ends⟩ := exists_end_of_rank env.names.idxOf wellFormed.earlier_of_next? name
  exact ⟨root, up, wellFormed.closed.isType_of_linked h up.linked, ends⟩

/-! ### Aliases and bases of a program -/

/-- An alias stands for a type that is no alias. -/
theorem WellFormed.exists_standsFor (wellFormed : env.WellFormed) (h : env.isType name) :
    ∃ root, env.StandsFor name root ∧ env.isType root ∧ env.target? root = none := by
  obtain ⟨last, up, -, ends⟩ := wellFormed.exists_end h
  obtain ⟨root, stands, plain⟩ := up.exists_root (target?_of_next?_none ends)
  exact ⟨root, stands, wellFormed.closed.isType_of_linked h stands.linked, plain⟩

/-- A type is carved from a constant type, or from one with a structure of its own. -/
theorem WellFormed.exists_base (wellFormed : env.WellFormed) (h : env.isType name) :
    ∃ root definition, env.Reaches name root ∧ env.next? root = none ∧
      env.find? root = some definition ∧
      (definition.isComposite ∨ ∃ kind, definition = .constant kind) := by
  obtain ⟨root, up, hroot, ends⟩ := wellFormed.exists_end h
  obtain ⟨definition, hfind⟩ := Option.isSome_iff_exists.mp hroot
  refine ⟨root, definition, up, ends, hfind, TypeDef.up?_eq_none_iff.mp ?_⟩
  simpa [next?_eq_bind, hfind] using ends

/-- Where every declaration has a name, no type has the name that stands for none. -/
theorem Realises.not_isType_noType {decls : List TypeDecl} (realises : env.Realises decls)
    (named : ∀ decl ∈ decls, decl.name ≠ "") : env.isType noType = false := by
  rw [Bool.eq_false_iff]
  intro h
  obtain ⟨decl, hfirst⟩ := realises.exists_first? h (by decide)
  exact named decl (TypeDecl.mem_of_first? hfirst) (TypeDecl.name_of_first? hfirst)

/-- In the environment that declarations make, every way up from a type ends, and passes
through types alone, so through no alias without a target. Resolving aliases gives a type
that is no alias, and looking for the base gives a constant type, a union, a record or a
sum type. Neither walk fails, and neither is cut off: every bound that exceeds the number
of types gives the same answer. -/
theorem ofDecls_ways_end (decls : List TypeDecl) (named : ∀ decl ∈ decls, decl.name ≠ "") :
    ∃ env, ofDecls decls = .ok env ∧ env.isType noType = false ∧
      ∀ name, env.isType name →
        (∀ place, env.Reaches name place → env.isType place) ∧
        (∃ root, env.skipAliases name = .ok root ∧
          (∀ bound, env.size < bound → env.skipFrom [] bound name = .ok root) ∧
          env.StandsFor name root ∧ env.isType root ∧ env.target? root = none) ∧
        ∃ root definition, env.baseType name = .ok root ∧
          (∀ bound, env.size < bound → env.baseFrom bound name = .ok root) ∧
          env.Reaches name root ∧ env.next? root = none ∧ env.find? root = some definition ∧
          (definition.isComposite ∨ ∃ kind, definition = .constant kind) := by
  obtain ⟨env, henv, realises⟩ := ofDecls_realises named
  have wellFormed := ofDecls_wellFormed henv
  refine ⟨env, henv, realises.not_isType_noType named, fun name htype => ⟨?_, ?_, ?_⟩⟩
  · intro place up
    exact wellFormed.closed.isType_of_linked htype up.linked
  · obtain ⟨root, stands, hroot, plain⟩ := wellFormed.exists_standsFor htype
    exact ⟨root, skipAliases_of_standsFor stands plain,
      fun bound room => skipFrom_of_standsFor stands plain room, stands, hroot, plain⟩
  · obtain ⟨root, definition, up, ends, hfind, base⟩ := wellFormed.exists_base htype
    exact ⟨root, definition, (baseType_eq_ok_iff ends).mpr up,
      fun bound room => baseFrom_of_reaches up ends room, up, ends, hfind, base⟩

/-- Unions, a record, aliases and subset types that go round in circles, and aliases and
subset types that lead into such circles. -/
def windingDecls : List TypeDecl := [
  .synonym "Id" "Key", .subset "Key" "Either", .union "Either" ["Other", "number"],
  .union "Other" ["Either", "Id"], .subset "Few" "Twin", .synonym "Twin" "Pair",
  .record "Pair" ["Pair", "Id"], .synonym "Loop" "Back", .subset "Back" "Loop",
  .synonym "Self" "Self"]

/-- What they make. -/
def windingEnv : TypeEnv :=
  ⟨builtIn.entries ++ [("Either", .union ["Other", "number"]), ("Other", .union ["Either", "Id"]),
    ("Pair", .record ["Pair", "Id"]), ("Key", .subset "Either"), ("Id", .synonym "Key"),
    ("Twin", .synonym "Pair"), ("Few", .subset "Twin")]⟩

/-- The unions refer to each other, directly and by way of an alias of a subset type. Yet
the way up from that alias ends. -/
theorem ofDecls_ways_end_windingDecls :
    (∀ decl ∈ windingDecls, decl.name ≠ "") ∧ ofDecls windingDecls = .ok windingEnv ∧
      ¬ windingEnv.Acyclic ∧ windingEnv.isType "Id" ∧
      (∃ root, windingEnv.skipAliases "Id" = .ok root ∧ windingEnv.isType root ∧
        windingEnv.target? root = none) ∧
      ∃ root definition, windingEnv.baseType "Id" = .ok root ∧
        windingEnv.find? root = some definition ∧
        (definition.isComposite ∨ ∃ kind, definition = .constant kind) := by
  have named : ∀ decl ∈ windingDecls, decl.name ≠ "" := by decide
  have made : ofDecls windingDecls = .ok windingEnv := by decide +kernel
  have circle : ¬ windingEnv.Acyclic := fun acyclic =>
    acyclic "Either" (.tail (b := "Other") (.single (linksTo_iff_mem_links.mpr (by decide)))
      (linksTo_iff_mem_links.mpr (by decide)))
  have htype : windingEnv.isType "Id" := by decide
  obtain ⟨env, henv, -, ends⟩ := ofDecls_ways_end windingDecls named
  obtain rfl := Except.ok.inj (henv.symm.trans made)
  obtain ⟨-, ⟨root, hskip, -, -, hroot, plain⟩, base, definition, hbase, -, -, -, hfind, ends⟩ :=
    ends "Id" htype
  exact ⟨named, made, circle, htype, ⟨root, hskip, hroot, plain⟩, base, definition, hbase, hfind,
    ends⟩

example : windingEnv.skipAliases "Id" = .ok "Key" ∧ windingEnv.baseType "Id" = .ok "Either" ∧
    windingEnv.baseType "Few" = .ok "Pair" ∧ ¬ windingEnv.isType "Loop" := by decide +kernel

end TypeEnv

end DatalogTyping

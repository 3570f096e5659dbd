import DatalogTyping.Proofs.UnionFree
import DatalogTyping.Types.Declared

/-!
# Environments made from declarations

Whatever a program declares, its environment has the built-in types, every name
that a type refers to is the name of a type, and aliases and subset types come
after the types they refer to (`ofDecls_wellFormed`). Records and sum types may
refer to each other in any order, and so may unions; without unions there is
therefore no cycle.

An environment is built by installing types and by giving structure to unions,
records and sum types that are already there. Both keep it well-formed, so the
steps of `ofDecls` need no more than these two facts.
-/

namespace DatalogTyping

/-- The names that a type refers to. -/
def TypeDef.refs : TypeDef → List String
  | .constant _ => []
  | .primitive base | .subset base => [base]
  | .synonym target => [target]
  | .union elements => elements
  | .record fields => fields
  | .adt branches => branches.flatMap Branch.types

/-- The type one step up: the target of an alias, the base of a subset type. -/
def TypeDef.up? : TypeDef → Option String
  | .primitive base | .subset base => some base
  | .synonym target => some target
  | _ => none

/-- Is the type a union, a record or a sum type? -/
def TypeDef.isComposite : TypeDef → Bool
  | .union _ | .record _ | .adt _ => true
  | _ => false

theorem TypeDef.up?_of_isComposite {definition : TypeDef} (h : definition.isComposite) :
    definition.up? = none := by
  cases definition <;> simp_all [up?, isComposite]

theorem TypeDef.mem_refs_of_up? {definition : TypeDef} {other : String}
    (h : definition.up? = some other) : other ∈ definition.refs := by
  cases definition <;> simp_all [up?, refs]

namespace TypeEnv

variable {env : TypeEnv}

/-- Every name that a type refers to is the name of a type. -/
def Closed (env : TypeEnv) : Prop :=
  ∀ name definition, env.find? name = some definition →
    ∀ other ∈ definition.refs, env.isType other

theorem Closed.isType_of_linksTo {a b : String} (closed : env.Closed)
    (h : env.LinksTo a b) : env.isType b := by
  rcases h with h | ⟨elements, h, hb⟩ | h
  · exact closed _ _ (target?_eq_some.mp h) b (by simp [TypeDef.refs])
  · exact closed _ _ (elements?_eq_some.mp h) b hb
  · rcases parent?_eq_some.mp h with h | h <;> exact closed _ _ h b (by simp [TypeDef.refs])

theorem Closed.isType_of_linked {a b : String} (closed : env.Closed) (ha : env.isType a)
    (h : Relation.ReflTransGen env.LinksTo a b) : env.isType b := by
  induction h with
  | refl => exact ha
  | tail _ link _ => exact closed.isType_of_linksTo link

/-- The built-in types are there, and whatever a type refers to is a type. -/
structure Complete (env : TypeEnv) : Prop where
  builtIns : env.HasBuiltIns
  closed : env.Closed

/-- What every environment of a program has in common. -/
structure WellFormed (env : TypeEnv) : Prop where
  builtIns : env.HasBuiltIns
  closed : env.Closed
  ordered : ∀ {name definition other}, env.find? name = some definition →
    definition.up? = some other → env.names.idxOf other < env.names.idxOf name
  constants : ∀ {name kind}, env.find? name = some (.constant kind) →
    constantName? kind = some name

theorem WellFormed.complete (wellFormed : env.WellFormed) : env.Complete :=
  ⟨wellFormed.builtIns, wellFormed.closed⟩

theorem next?_eq_bind (env : TypeEnv) (name : String) :
    env.next? name = (env.find? name).bind TypeDef.up? := by
  unfold next? target? parent?
  rcases env.find? name with _ | (_ | _ | _ | _ | _ | _ | _) <;> rfl

/-- A step up leads to a type that came into being earlier. -/
theorem WellFormed.earlier_of_next? (wellFormed : env.WellFormed) {name upper : String}
    (h : env.next? name = some upper) : env.names.idxOf upper < env.names.idxOf name := by
  rw [next?_eq_bind] at h
  obtain ⟨definition, hfind, hup⟩ := Option.bind_eq_some_iff.mp h
  exact wellFormed.ordered hfind hup

/-- Without unions, following aliases and bases leads to earlier types, so there
is no cycle. -/
theorem WellFormed.acyclic (wellFormed : env.WellFormed) (unionFree : env.UnionFree) :
    env.Acyclic := by
  refine acyclic_of_rank env.names.idxOf fun {a b} link => wellFormed.earlier_of_next? ?_
  rcases link with h | ⟨elements, h, -⟩ | h
  · exact next?_of_target? h
  · rw [unionFree a] at h
    cases h
  · rw [next?_of_not_alias (target?_of_parent? h), h]

theorem mem_entries_of_find? {name : String} {definition : TypeDef}
    (h : env.find? name = some definition) : (name, definition) ∈ env.entries :=
  mem_of_lookup_eq_some h

theorem builtIn_wellFormed : builtIn.WellFormed where
  builtIns := by unfold HasBuiltIns; decide
  closed := by
    intro name definition hfind
    have known : ∀ entry ∈ builtIn.entries, ∀ other ∈ entry.2.refs, builtIn.isType other := by
      decide
    exact known _ (mem_entries_of_find? hfind)
  ordered := by
    intro name definition other hfind hup
    have earlier : ∀ entry ∈ builtIn.entries, ∀ other ∈ entry.2.up?,
        builtIn.names.idxOf other < builtIn.names.idxOf entry.1 := by decide
    exact earlier _ (mem_entries_of_find? hfind) other hup
  constants := by
    intro name kind hfind
    have named : ∀ entry ∈ builtIn.entries, ∀ kind ∈ Kind.all, entry.2 = .constant kind →
        constantName? kind = some entry.1 := by decide
    exact named _ (mem_entries_of_find? hfind) kind (by cases kind <;> decide) rfl

/-! ### Installing a type -/

theorem find?_append (name : String) (definition : TypeDef) (other : String) :
    (⟨env.entries ++ [(name, definition)]⟩ : TypeEnv).find? other =
      (env.find? other).or (if other = name then some definition else none) := by
  unfold find?
  rw [List.lookup_append]
  by_cases h : other = name
  · simp [h]
  · have hne : (other == name) = false := by simpa using h
    simp [List.lookup_cons, hne, h]

theorem install_eq_ok {name : String} {definition : TypeDef} {env' : TypeEnv}
    (h : env.install name definition = .ok env') :
    env.find? name = none ∧ env' = ⟨env.entries ++ [(name, definition)]⟩ := by
  unfold install at h
  split at h
  · cases h
  · split at h
    · cases h
    · rename_i hnone
      exact ⟨by simpa [isType] using hnone, (Except.ok.inj h).symm⟩

/-- A new type that refers to existing ones keeps an environment well-formed. -/
theorem WellFormed.install (wellFormed : env.WellFormed) {name : String} {definition : TypeDef}
    {env' : TypeEnv} (h : env.install name definition = .ok env')
    (known : ∀ other ∈ definition.refs, env.isType other)
    (derived : ∀ kind, definition ≠ .constant kind) : env'.WellFormed := by
  obtain ⟨fresh, rfl⟩ := install_eq_ok h
  have stays : ∀ {other found}, env.find? other = some found →
      (⟨env.entries ++ [(name, definition)]⟩ : TypeEnv).find? other = some found := by
    intro other found hfound
    rw [find?_append, hfound]
    rfl
  have staysType : ∀ {other}, env.isType other →
      (⟨env.entries ++ [(name, definition)]⟩ : TypeEnv).isType other := by
    intro other hother
    obtain ⟨found, hfound⟩ := Option.isSome_iff_exists.mp hother
    exact Option.isSome_iff_exists.mpr ⟨found, stays hfound⟩
  have names_eq :
      (⟨env.entries ++ [(name, definition)]⟩ : TypeEnv).names = env.names ++ [name] := by
    simp [names]
  have name_fresh : name ∉ env.names := by
    rw [mem_names_iff, isType, fresh]
    simp
  -- whatever is found is either an old type or the new one
  have found : ∀ {other defn},
      (⟨env.entries ++ [(name, definition)]⟩ : TypeEnv).find? other = some defn →
      env.find? other = some defn ∨ other = name ∧ defn = definition := by
    intro other defn hfind
    rw [find?_append] at hfind
    rcases Option.or_eq_some_iff.mp hfind with hold | ⟨-, hnew⟩
    · exact .inl hold
    · split at hnew
      · rename_i hname
        exact .inr ⟨hname, (Option.some.inj hnew).symm⟩
      · cases hnew
  refine ⟨fun entry hentry => stays (wellFormed.builtIns entry hentry), ?_, ?_, ?_⟩
  · intro other defn hfind ref href
    rcases found hfind with hold | ⟨rfl, rfl⟩
    · exact staysType (wellFormed.closed _ _ hold ref href)
    · exact staysType (known ref href)
  · intro other defn upper hfind hup
    rw [names_eq]
    rcases found hfind with hold | ⟨rfl, rfl⟩
    · have hother : other ∈ env.names := mem_names_iff.mpr (by simp [isType, hold])
      have earlier := wellFormed.ordered hold hup
      have hupper : upper ∈ env.names :=
        List.idxOf_lt_length_iff.mp (earlier.trans (List.idxOf_lt_length_iff.mpr hother))
      rwa [List.idxOf_append_of_mem hupper, List.idxOf_append_of_mem hother]
    · have hupper : upper ∈ env.names :=
        mem_names_iff.mpr (known upper (TypeDef.mem_refs_of_up? hup))
      rw [List.idxOf_append_of_mem hupper, List.idxOf_append_of_notMem name_fresh]
      exact (List.idxOf_lt_length_iff.mpr hupper).trans_le (Nat.le_add_right _ _)
  · intro other kind hfind
    rcases found hfind with hold | ⟨-, hnew⟩
    · exact wellFormed.constants hold
    · exact absurd hnew.symm (derived kind)

/-! ### Giving structure to a type -/

theorem find?_redefine (name : String) (change : TypeDef → TypeDef) (other : String) :
    (env.redefine name change).find? other =
      (env.find? other).map fun definition =>
        if other = name then change definition else definition := by
  unfold find? redefine
  induction env.entries with
  | nil => rfl
  | cons entry rest ih =>
      obtain ⟨key, value⟩ := entry
      simp only [List.map_cons, List.lookup_cons]
      split
      · rename_i hkey
        rw [eq_of_beq hkey]
        rfl
      · exact ih

/-- Giving structure to unions, records and sum types, in terms of existing types,
keeps an environment well-formed. -/
theorem WellFormed.redefine (wellFormed : env.WellFormed) {name : String}
    {change : TypeDef → TypeDef} (whole : TypeDef) (composite : whole.isComposite)
    (known : ∀ other ∈ whole.refs, env.isType other)
    (completes : ∀ definition, change definition = definition ∨
      definition.isComposite ∧ change definition = whole) :
    (env.redefine name change).WellFormed := by
  have sameTypes : ∀ other, (env.redefine name change).isType other = env.isType other := by
    intro other
    simp [isType, find?_redefine]
  have sameNames : (env.redefine name change).names = env.names := by
    simp [names, TypeEnv.redefine, Function.comp_def]
  refine ⟨fun entry hentry => ?_, ?_, ?_, ?_⟩
  · -- no built-in type is composite, so none is redefined
    rw [find?_redefine, wellFormed.builtIns entry hentry]
    have simple : ∀ entry ∈ builtIn.entries, entry.2.isComposite = false := by decide
    rcases completes entry.2 with same | ⟨own, -⟩
    · simp [same]
    · simp [simple entry hentry] at own
  · intro other definition hfind ref href
    rw [find?_redefine] at hfind
    obtain ⟨old, hold, rfl⟩ := Option.map_eq_some_iff.mp hfind
    rw [sameTypes]
    split at href
    · rcases completes old with same | ⟨-, new⟩
      · exact wellFormed.closed _ _ hold ref (same ▸ href)
      · exact known ref (new ▸ href)
    · exact wellFormed.closed _ _ hold ref href
  · intro other definition upper hfind hup
    rw [find?_redefine] at hfind
    obtain ⟨old, hold, rfl⟩ := Option.map_eq_some_iff.mp hfind
    rw [sameNames]
    split at hup
    · rcases completes old with same | ⟨-, new⟩
      · exact wellFormed.ordered hold (same ▸ hup)
      · -- composite types have no way up, in whatever order they refer to each other
        rw [new, TypeDef.up?_of_isComposite composite] at hup
        cases hup
    · exact wellFormed.ordered hold hup
  · intro other kind hfind
    rw [find?_redefine] at hfind
    obtain ⟨old, hold, hnew⟩ := Option.map_eq_some_iff.mp hfind
    split at hnew
    · rcases completes old with same | ⟨-, new⟩
      · exact wellFormed.constants (hold.trans (congrArg some (same.symm.trans hnew)))
      · rw [← new, hnew] at composite
        cases composite
    · exact wellFormed.constants (hold.trans (congrArg some hnew))

end TypeEnv

/-! ### Building an environment -/

namespace Draft

theorem announce_wellFormed {draft after : Draft} {decl : TypeDecl}
    (wellFormed : draft.env.WellFormed) (h : draft.announce decl = .ok after) :
    after.env.WellFormed := by
  cases decl with
  | subset name base =>
      obtain rfl := Except.ok.inj h
      exact wellFormed
  | synonym name target =>
      obtain rfl := Except.ok.inj h
      exact wellFormed
  | union name elements =>
      obtain ⟨env, henv, h⟩ := bind_eq_ok.mp h
      obtain rfl := Except.ok.inj h
      exact wellFormed.install henv (by simp [TypeDef.refs]) nofun
  | record name fields =>
      obtain ⟨env, henv, h⟩ := bind_eq_ok.mp h
      obtain rfl := Except.ok.inj h
      exact wellFormed.install henv (by simp [TypeDef.refs]) nofun
  | adt name branches =>
      obtain ⟨env, henv, h⟩ := bind_eq_ok.mp h
      obtain rfl := Except.ok.inj h
      exact wellFormed.install henv (by simp [TypeDef.refs]) nofun

/-- A subset type or alias comes into being only after the type it refers to. -/
theorem demandIn_wellFormed {bound : Nat} {draft after : Draft} {name : String}
    (wellFormed : draft.env.WellFormed) (h : demandIn bound draft name = .ok after) :
    after.env.WellFormed := by
  induction bound generalizing draft after name with
  | zero =>
      obtain rfl := Except.ok.inj h
      exact wellFormed
  | succ bound ih =>
      rw [demandIn] at h
      split at h
      · obtain rfl := Except.ok.inj h
        exact wellFormed
      · simp only at h
        split at h
        · obtain ⟨middle, hmiddle, h⟩ := bind_eq_ok.mp h
          have kept : middle.env.WellFormed := by
            refine ih ?_ hmiddle
            exact wellFormed
          split at h
          · rename_i hbase
            obtain ⟨env, henv, h⟩ := bind_eq_ok.mp h
            obtain rfl := Except.ok.inj h
            exact kept.install henv (by simpa [TypeDef.refs] using hbase) nofun
          · obtain rfl := Except.ok.inj h
            exact kept
        · obtain ⟨middle, hmiddle, h⟩ := bind_eq_ok.mp h
          have kept : middle.env.WellFormed := by
            refine ih ?_ hmiddle
            exact wellFormed
          split at h
          · rename_i htarget
            obtain ⟨env, henv, h⟩ := bind_eq_ok.mp h
            obtain rfl := Except.ok.inj h
            exact kept.install henv (by simpa [TypeDef.refs] using htarget) nofun
          · obtain rfl := Except.ok.inj h
            exact kept
        · obtain rfl := Except.ok.inj h
          exact wellFormed

theorem demandAll_wellFormed {draft after : Draft} {names : List String}
    (wellFormed : draft.env.WellFormed) (h : draft.demandAll names = .ok after) :
    after.env.WellFormed :=
  foldlM_preserves (·.env.WellFormed) (fun kept step => demandIn_wellFormed kept step) h wellFormed

theorem isType_of_mem_fields {draft : Draft} {names : List String} {name : String}
    (h : name ∈ draft.fields names) : draft.env.isType name := by
  unfold fields at h
  split at h
  · rename_i hall
    exact List.all_eq_true.mp hall name h
  · simp at h

theorem complete_wellFormed {draft after : Draft} {decl : TypeDecl}
    (wellFormed : draft.env.WellFormed) (h : draft.complete decl = .ok after) :
    after.env.WellFormed := by
  cases decl with
  | subset name base => exact demandIn_wellFormed wellFormed h
  | synonym name target => exact demandIn_wellFormed wellFormed h
  | union name elements =>
      obtain ⟨middle, hmiddle, h⟩ := bind_eq_ok.mp h
      obtain rfl := Except.ok.inj h
      dsimp only [TypeEnv.setElements]
      refine (demandAll_wellFormed wellFormed hmiddle).redefine
        (.union (elements.filter middle.env.isType)) rfl ?_ ?_
      · exact fun other hother => (List.mem_filter.mp hother).2
      · rintro (_ | _) <;> simp [TypeDef.isComposite]
  | record name fields =>
      obtain ⟨middle, hmiddle, h⟩ := bind_eq_ok.mp h
      obtain rfl := Except.ok.inj h
      dsimp only [TypeEnv.setFields]
      refine (demandAll_wellFormed wellFormed hmiddle).redefine (.record (middle.fields fields)) rfl
        ?_ ?_
      · exact fun other hother => isType_of_mem_fields hother
      · rintro (_ | _) <;> simp [TypeDef.isComposite]
  | adt name branches =>
      obtain ⟨middle, hmiddle, h⟩ := bind_eq_ok.mp h
      obtain rfl := Except.ok.inj h
      dsimp only [TypeEnv.setBranches]
      refine (demandAll_wellFormed wellFormed hmiddle).redefine (.adt (branches.map fun branch =>
        { name := branch.1, types := middle.fields branch.2 })) rfl ?_ ?_
      · intro other hother
        obtain ⟨branch, hbranch, hother⟩ := List.mem_flatMap.mp hother
        obtain ⟨declared, -, rfl⟩ := List.mem_map.mp hbranch
        exact isType_of_mem_fields hother
      · rintro (_ | _) <;> simp [TypeDef.isComposite]

end Draft

/-- The environment of any declarations is well-formed. -/
theorem TypeEnv.ofDecls_wellFormed {decls : List TypeDecl} {env : TypeEnv}
    (h : TypeEnv.ofDecls decls = .ok env) : env.WellFormed := by
  obtain ⟨announced, hannounced, h⟩ := bind_eq_ok.mp h
  obtain ⟨completed, hcompleted, h⟩ := bind_eq_ok.mp h
  obtain rfl := Except.ok.inj h
  have first : announced.env.WellFormed :=
    foldlM_preserves (·.env.WellFormed)
      (fun kept step => Draft.announce_wellFormed kept step) hannounced builtIn_wellFormed
  exact foldlM_preserves (·.env.WellFormed)
    (fun kept step => Draft.complete_wellFormed kept step) hcompleted first

end DatalogTyping

import DatalogTyping.Proofs.RecordedOverloads

/-!
# Questions that have answers

An update asks questions of the environment that need not have an answer: an alias
may go round in circles, the set of all types cannot be enumerated, an overload may
have no parameter for an argument, a kind may have no constant type. Updates go on
regardless, with whatever is found. `Constraint.Answerable` says that none of their
questions is of that sort.

In a well-formed environment all questions about types have answers. So a proper
constraint whose overloads are from the table is answerable wherever the sets hold
types only (`answerable`), and this is so throughout the rounds of a problem
(`Problem.WellPosed.answers`).
-/

namespace DatalogTyping

/-! ### Questions about types -/

namespace TypeEnv

variable {env : TypeEnv} {name a b : String} {types others : TypeSet}

theorem WellFormed.skipAliases_eq_ok (wellFormed : env.WellFormed) (h : env.isType name) :
    ∃ root, env.skipAliases name = .ok root ∧ env.isType root := by
  obtain ⟨root, stands, hroot, plain⟩ := wellFormed.exists_standsFor h
  exact ⟨root, skipAliases_of_standsFor stands plain, hroot⟩

theorem WellFormed.baseType_eq_ok (wellFormed : env.WellFormed) (h : env.isType name) :
    ∃ root, env.baseType name = .ok root := by
  obtain ⟨root, up, -, ends⟩ := wellFormed.exists_end h
  exact ⟨root, (baseType_eq_ok_iff ends).mpr up⟩

/-- Leaves can be listed if every alias on the way to them can be resolved. -/
theorem leavesIn_eq_ok {P : String → Prop}
    (resolves : ∀ name, P name → ∃ root, env.skipAliases name = .ok root ∧
      ∀ elements, env.elements? root = some elements → ∀ element ∈ elements, P element)
    (bound : Nat) (h : P name) : ∃ leaves, env.leavesIn bound name = .ok leaves := by
  induction bound generalizing name with
  | zero => exact ⟨[], rfl⟩
  | succ bound ih =>
      obtain ⟨root, hroot, hknown⟩ := resolves name h
      simp only [leavesIn, hroot, bind, Except.bind]
      split
      · rename_i elements hfind
        obtain ⟨leaves, hleaves⟩ : ∃ leaves, elements.mapM (env.leavesIn bound) = .ok leaves :=
          mapM_eq_ok fun element helement =>
            ih (hknown elements (elements?_eq_some.mpr hfind) element helement)
        exact ⟨leaves.flatten, by rw [hleaves]; rfl⟩
      · exact ⟨[root], rfl⟩

theorem WellFormed.leaves_eq_ok (wellFormed : env.WellFormed) (h : env.isType name) :
    ∃ leaves, env.leaves name = .ok leaves := by
  refine leavesIn_eq_ok (P := fun name => env.isType name) (fun name h => ?_) _ h
  obtain ⟨root, hroot, -⟩ := wellFormed.skipAliases_eq_ok h
  exact ⟨root, hroot, fun elements helements =>
    wellFormed.closed root _ (elements?_eq_some.mp helements)⟩

theorem WellFormed.askIsOfKind_eq (wellFormed : env.WellFormed) (h : env.isType name)
    (kind : Kind) : env.askIsOfKind name kind = .ok (env.isOfKind name kind) := by
  obtain ⟨root, hroot⟩ := wellFormed.baseType_eq_ok h
  exact askIsOfKind_eq_ok hroot kind

theorem WellFormed.askHasKind_eq (wellFormed : env.WellFormed) (known : types.Known env)
    (kind : Kind) : env.askHasKind types kind = .ok (env.hasKind types kind) := by
  cases types with
  | all => rfl
  | only names =>
      have asked : ∀ parts : List String, (∀ part ∈ parts, env.isType part) →
          parts.anyM (fun part => env.askIsOfKind part kind) =
            .ok (parts.any fun part => env.isOfKind part kind) := by
        intro parts hparts
        induction parts with
        | nil => rfl
        | cons part rest ih =>
            obtain ⟨hpart, hrest⟩ := List.forall_mem_cons.mp hparts
            simp only [List.anyM, wellFormed.askIsOfKind_eq hpart, bind, Except.bind, List.any_cons]
            cases env.isOfKind part kind with
            | true => rfl
            | false => simpa using ih hrest
      exact asked names.toList fun part hpart => known part (Names.mem_toList.mp hpart)

/-- The greatest common subtypes can be named if the leaves can be listed and all of
them have names. -/
theorem askCommonSubtypes_eq_ok {as bs : List String} (has : env.leaves a = .ok as)
    (hbs : env.leaves b = .ok bs) (named : noType ∉ env.commonSubtypes a b) :
    env.askCommonSubtypes a b = .ok (env.commonSubtypes a b) := by
  have absent : (env.commonSubtypes a b).contains noType = false := by
    simpa [Names.contains] using named
  simp only [askCommonSubtypes, has, hbs, absent, Bool.false_eq_true, if_false, bind,
    Except.bind, pure, Except.pure]
  split
  · split <;> rfl
  · rfl

theorem WellFormed.askCommonSubtypes_eq (wellFormed : env.WellFormed)
    (unnamed : env.isType noType = false) (ha : env.isType a) (hb : env.isType b) :
    env.askCommonSubtypes a b = .ok (env.commonSubtypes a b) := by
  obtain ⟨as, has⟩ := wellFormed.leaves_eq_ok ha
  obtain ⟨bs, hbs⟩ := wellFormed.leaves_eq_ok hb
  refine askCommonSubtypes_eq_ok has hbs fun hmem => ?_
  rw [wellFormed.closed.isType_of_mem_commonSubtypes ha hb hmem] at unnamed
  cases unnamed

/-- A meet can be named if what its pairs have in common can be. -/
theorem askMeet_eq_ok (pairs : ∀ names names', types = .only names → others = .only names' →
      ∀ x ∈ names, ∀ y ∈ names', env.askCommonSubtypes x y = .ok (env.commonSubtypes x y)) :
    env.askMeet types others = .ok (env.meet types others) := by
  cases types with
  | all => rfl
  | only names =>
      cases others with
      | all => rfl
      | only names' =>
          have inner : ∀ x ∈ names.toList, (forIn names'.toList PUnit.unit fun y _ => do
              let _ ← env.askCommonSubtypes x y
              pure (ForInStep.yield PUnit.unit)) = Except.ok PUnit.unit := by
            intro x hx
            refine forIn_eq_ok fun y hy => ?_
            rw [pairs names names' rfl rfl x (Names.mem_toList.mp hx) y (Names.mem_toList.mp hy)]
            rfl
          unfold askMeet
          dsimp only
          rw [forIn_eq_ok]
          · rfl
          · intro x hx
            rw [inner x hx]
            rfl

theorem WellFormed.askMeet_eq (wellFormed : env.WellFormed) (unnamed : env.isType noType = false)
    (known : types.Known env) (known' : others.Known env) :
    env.askMeet types others = .ok (env.meet types others) := by
  refine askMeet_eq_ok ?_
  rintro names names' rfl rfl x hx y hy
  exact wellFormed.askCommonSubtypes_eq unnamed (known x hx) (known' y hy)

end TypeEnv

/-! ### Questions about overloads -/

namespace Overload

variable {overload : Overload} {arity : Nat}

/-- The overload can be applied to that many arguments: there is a parameter for each,
and the kinds of the parameters, those of `ord` apart, and of the result have constant
types. -/
structure Applicable (overload : Overload) (arity : Nat) : Prop where
  params : ∀ index < arity, ∃ kind, overload.paramAt index = .ok kind ∧
    (overload.op ≠ .ord → ∃ constant, TypeEnv.constantType kind = .ok constant)
  result : ∃ constant, TypeEnv.constantType overload.result = .ok constant

theorem constantType_eq_ok {kind : Kind} (h : (TypeEnv.constantName? kind).isSome) :
    ∃ constant, TypeEnv.constantType kind = .ok constant := by
  obtain ⟨constant, hconstant⟩ := Option.isSome_iff_exists.mp h
  exact ⟨constant, by simp [TypeEnv.constantType, hconstant]⟩

/-- All overloads have parameters, and all kinds in them but those of the parameters of
`ord` have constant types. -/
theorem kinds_of_mem_table : ∀ overload ∈ table, 0 < overload.params.length ∧
    (overload.op ≠ .ord → ∀ kind ∈ overload.params, (TypeEnv.constantName? kind).isSome) ∧
    (TypeEnv.constantName? overload.result).isSome := by decide

theorem paramAt_eq_ok (nonempty : 0 < overload.params.length)
    (accepts : overload.acceptsArity arity) {index : Nat} (hindex : index < arity) :
    ∃ kind ∈ overload.params, overload.paramAt index = .ok kind := by
  have reached : (if overload.variadic then 0 else index) < overload.params.length := by
    cases hvariadic : overload.variadic with
    | true => simpa using nonempty
    | false =>
        have harity : arity = overload.params.length := by
          simpa [acceptsArity, hvariadic] using accepts
        simpa [← harity] using hindex
  refine ⟨_, List.getElem_mem reached, ?_⟩
  have position : (if overload.variadic then 0 else (index : Int)) =
      Int.ofNat (if overload.variadic then 0 else index) := by
    cases overload.variadic <;> rfl
  simp only [paramAt, position, elementAt, elementAt?, List.getElem?_eq_getElem reached]

theorem applicable_of_mem_table (h : overload ∈ table) (accepts : overload.acceptsArity arity) :
    overload.Applicable arity := by
  obtain ⟨nonempty, params, result⟩ := kinds_of_mem_table overload h
  refine ⟨fun index hindex => ?_, constantType_eq_ok result⟩
  obtain ⟨kind, hkind, hparam⟩ := paramAt_eq_ok nonempty accepts hindex
  exact ⟨kind, hparam, fun notOrd => constantType_eq_ok (params notOrd kind hkind)⟩

end Overload

/-! ### Questions of updates -/

namespace Constraint

variable {env : TypeEnv} {A : Assignment} {constraint : Constraint}

/-- All questions that an update of the constraint asks have answers. It enumerates
finite sets only and compares types that exist; aliases lead somewhere; and the
overloads that it takes for possible can be applied. -/
def Answerable (env : TypeEnv) (A : Assignment) : Constraint → Prop
  | subtypeOf var bound => env.isType bound ∧
      env.askMeet (A var) (.single bound) = .ok (env.meet (A var) (.single bound))
  | below var bound => env.askMeet (A var) (A bound) = .ok (env.meet (A var) (A bound))
  | supertypeIn _ values => ∃ names, values = .only names
  | ofKind var kind _ => ∀ names, A var = .only names → ∀ name ∈ names,
      env.askIsOfKind name kind = .ok (env.isOfKind name kind)
  | sameBase left right => ∀ names, A left = .only names ∨ A right = .only names →
      ∀ name ∈ names, ∃ root, env.baseType name = .ok root
  | overload _ result args _ remaining => ∀ choice ∈ remaining, choice.acceptsArity args.length →
      choice.Applicable args.length ∧ ∀ var ∈ result :: args, ∀ kind,
        env.askHasKind (A var) kind = .ok (env.hasKind (A var) kind)
  | recordOf var _ candidates => ∀ names, A var = .only names ∨ candidates = .only names →
      ∀ name ∈ names, ∃ root, env.skipAliases name = .ok root
  | component element record position => 0 ≤ position ∧ ∀ records, A record = .only records →
      (∀ name ∈ records, ∃ root, env.skipAliases name = .ok root) ∧
      env.askMeet (A element) (.ofList (records.toList.filterMap (env.field? position))) =
        .ok (env.meet (A element) (.ofList (records.toList.filterMap (env.field? position))))

/-- If the constraint is about overloads, they are from the table. -/
def FromTable : Constraint → Prop
  | overload _ _ _ _ remaining => ∀ choice ∈ remaining, choice ∈ Overload.table
  | _ => True

theorem FromTable.evolves {current : Constraint} (fromTable : constraint.FromTable)
    (h : constraint.Evolves current) : current.FromTable := by
  cases h with
  | same => exact fromTable
  | fewer sub => exact fun choice hchoice => fromTable choice (sub.subset hchoice)

theorem exists_root_of_known (wellFormed : env.WellFormed) {types : TypeSet} (h : types.Known env)
    {names : Names} (hnames : types = .only names) {name : String} (hname : name ∈ names) :
    ∃ root, env.skipAliases name = .ok root := by
  subst hnames
  obtain ⟨root, hroot, -⟩ := wellFormed.skipAliases_eq_ok (h name hname)
  exact ⟨root, hroot⟩

/-- Wherever the sets hold types only, proper constraints have all their questions
answered. -/
theorem answerable (wellFormed : env.WellFormed) (unnamed : env.isType noType = false)
    (proper : constraint.Proper env) (fromTable : constraint.FromTable)
    (known : ∀ var, (A var).Known env) : constraint.Answerable env A := by
  have isType : ∀ {var names}, A var = .only names → ∀ name ∈ names, env.isType name := by
    intro var names hnames name hname
    have := known var
    rw [hnames] at this
    exact this name hname
  cases constraint with
  | subtypeOf var bound =>
      have isBound : env.isType bound := proper
      refine ⟨isBound, wellFormed.askMeet_eq unnamed (known var) fun name hname => ?_⟩
      obtain rfl := Names.mem_single.mp hname
      exact isBound
  | below var bound => exact wellFormed.askMeet_eq unnamed (known var) (known bound)
  | supertypeIn var values =>
      cases values with
      | all => exact absurd rfl proper.1
      | only names => exact ⟨names, rfl⟩
  | ofKind var kind candidates =>
      exact fun names hnames name hname =>
        wellFormed.askIsOfKind_eq (isType hnames name hname) kind
  | sameBase left right =>
      intro names hnames name hname
      exact hnames.elim (fun h => wellFormed.baseType_eq_ok (isType h name hname))
        fun h => wellFormed.baseType_eq_ok (isType h name hname)
  | overload symbol result args subtypeResult remaining =>
      intro choice hchoice accepts
      exact ⟨Overload.applicable_of_mem_table (fromTable choice hchoice) accepts,
        fun var _ kind => wellFormed.askHasKind_eq (known var) kind⟩
  | recordOf var arity candidates =>
      intro names hnames name hname
      exact hnames.elim (fun h => exists_root_of_known wellFormed (known var) h hname)
        fun h => exists_root_of_known wellFormed proper.2 h hname
  | component element record position =>
      refine ⟨proper.2, fun records hrecords => ⟨fun name hname => ?_, ?_⟩⟩
      · exact exists_root_of_known wellFormed (known record) hrecords hname
      · refine wellFormed.askMeet_eq unnamed (known element) (known_ofList fun field hfield => ?_)
        obtain ⟨name, -, hfield⟩ := List.mem_filterMap.mp hfield
        exact wellFormed.closed.isType_of_field? hfield

end Constraint

/-! ### Questions of the solver -/

/-- All questions that the solver asks have answers, however many rounds it takes. -/
def Problem.Answers (env : TypeEnv) (problem : Problem) : Prop :=
  ∀ count, ∀ visit ∈ visits env (problem.after env count).constraints
    (problem.after env count).assignment, visit.1.Answerable env visit.2

theorem Problem.WellPosed.answers {env : TypeEnv} {problem : Problem}
    (posed : problem.WellPosed env) (acyclic : env.Acyclic) (wellFormed : env.WellFormed)
    (unnamed : env.isType noType = false)
    (fromTable : ∀ constraint ∈ problem.constraints, constraint.FromTable) :
    problem.Answers env := by
  intro count visit hvisit
  obtain ⟨evolved, posed, within⟩ := posed.invariant acyclic wellFormed.complete count
  obtain ⟨⟨proper, -⟩, known, -⟩ := visits_posed acyclic wellFormed.complete posed within visit hvisit
  obtain ⟨original, horiginal, hevolves⟩ :=
    exists_mem_of_forall₂ evolved.flip (mem_constraints_of_visit visit hvisit)
  exact Constraint.answerable wellFormed unnamed proper
    ((fromTable original horiginal).evolves hevolves) known

end DatalogTyping

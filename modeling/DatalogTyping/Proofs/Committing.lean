import DatalogTyping.Proofs.Greatest
import DatalogTyping.Proofs.Kinds

/-!
# Committing numerals to a representation

A numeral is resolved to the first representation that a type in its set allows
(`TypeSet.preferred?`), and from then on it is bound to that kind. Which
representation this is has been chosen for each numeral by itself, while numerals
are linked by comparisons, aggregates and records. Yet the choices go together:
sets that are linked both ways have types of the same kinds, and so they prefer the
same representation.

So from the solution of a clause without functors one gets an assignment that obeys
all the choices: each set keeps its types that are no numbers, and of the others
those of the kind it prefers (`TypeSet.committed`). It satisfies the constraints
again (`satisfied_committed`).
-/

namespace DatalogTyping

variable {env : TypeEnv}

/-! ### Kinds without unions -/

namespace TypeEnv

variable {name : String} {kind : Kind}

/-- Without unions a type of a primitive kind has that kind. -/
theorem UnionFree.kindOf_eq (unionFree : env.UnionFree) (wellFormed : env.WellFormed)
    (hkind : kind ∈ Kind.primitives) (h : env.isOfKind name kind) : env.kindOf name = .ok kind := by
  obtain ⟨constant, hconstant⟩ := exists_constant_of_primitive hkind
  have hfind := wellFormed.builtIns.find?_constant hconstant
  have hends := next?_of_constant hfind
  have hbase : env.baseType name = .ok constant := by
    rw [baseType_eq_ok_iff hends, ← unionFree.isSubtype_end_iff hends]
    exact (TypeEnv.isOfKind_iff hconstant).mp h
  obtain ⟨found, hfound⟩ := Option.isSome_iff_exists.mp (List.find?_isSome.mpr ⟨kind, hkind, h⟩)
  have hsame : found = kind := (wellFormed.acyclic unionFree).isOfKind_unique wellFormed.builtIns
    (List.find?_some hfound) h
  unfold kindOf
  simp only [hbase, hfind, hfound, hsame, bind, Except.bind]
  rfl

/-- Without unions a record is of no primitive kind. -/
theorem UnionFree.not_isOfKind_of_recordFields? (unionFree : env.UnionFree)
    (builtIns : env.HasBuiltIns) {fields : List String} (h : env.recordFields? name = some fields)
    (hkind : kind ∈ Kind.primitives) : ¬ env.isOfKind name kind := by
  intro hof
  obtain ⟨root, path, hroot⟩ := recordFields?_eq_some.mp h
  obtain ⟨constant, hconstant⟩ := exists_constant_of_primitive hkind
  have hends := next?_of_constant (builtIns.find?_constant hconstant)
  have hup := (unionFree.isSubtype_end_iff hends).mp ((TypeEnv.isOfKind_iff hconstant).mp hof)
  -- the way up from the record would end in a record and in a constant type
  have hsame : root = constant :=
    eq_of_leads_of_end (leads_to_end path.reaches hup hends) (next?_of_record hroot)
  rw [hsame, builtIns.find?_constant hconstant] at hroot
  cases hroot

end TypeEnv

theorem NumericKind.kind_mem_primitives (representation : NumericKind) :
    representation.kind ∈ Kind.primitives := by
  cases representation <;> decide

theorem NumericKind.mem_all (representation : NumericKind) : representation ∈ NumericKind.all := by
  cases representation <;> decide

theorem NumericKind.kind_injective {first second : NumericKind} (h : first.kind = second.kind) :
    first = second := by
  cases first <;> cases second <;> first | rfl | cases h

/-! ### Preferred representations -/

namespace TypeSet

variable {types others : TypeSet} {names : Names} {name : String} {representation : NumericKind}

/-- The first representation whose kind a type of the set is of. -/
def preferred? (env : TypeEnv) (types : TypeSet) : Option NumericKind :=
  NumericKind.all.find? fun representation => env.hasKind types representation.kind

/-- Is the type no number, or of the kind that a set prefers? -/
def keeps (env : TypeEnv) (types : TypeSet) (name : String) : Bool :=
  NumericKind.all.all fun representation =>
    !env.isOfKind name representation.kind || types.preferred? env = some representation

/-- The set without the types of numeric kinds that it does not prefer. -/
def committed (env : TypeEnv) (types : TypeSet) : TypeSet :=
  types.filter (types.keeps env) .all

theorem keeps_iff : types.keeps env name ↔ ∀ representation : NumericKind,
    env.isOfKind name representation.kind → types.preferred? env = some representation := by
  simp only [keeps, List.all_eq_true, Bool.or_eq_true, Bool.not_eq_true', decide_eq_true_eq]
  constructor
  · intro h representation hof
    refine (h representation representation.mem_all).resolve_left ?_
    simp [hof]
  · intro h representation _
    cases hof : env.isOfKind name representation.kind with
    | false => exact .inl rfl
    | true => exact .inr (h representation hof)

theorem committed_only (h : types = .only names) :
    types.committed env = .only (names.filter (types.keeps env)) := by
  subst h
  rfl

theorem hasKind_of_preferred? (h : types.preferred? env = some representation) :
    env.hasKind types representation.kind := by
  unfold preferred? at h
  simpa using List.find?_some h

theorem exists_preferred? (h : env.hasKind types representation.kind) :
    ∃ found, types.preferred? env = some found := by
  refine Option.isSome_iff_exists.mp ?_
  rw [preferred?, List.find?_isSome]
  exact ⟨representation, representation.mem_all, h⟩

/-- The set still has a type of the kind it prefers. -/
theorem hasKind_committed (acyclic : env.Acyclic) (builtIns : env.HasBuiltIns)
    (h : types.preferred? env = some representation) :
    env.hasKind (types.committed env) representation.kind := by
  cases htypes : types with
  | all => rfl
  | only names =>
      have hkind := hasKind_of_preferred? h
      rw [htypes, hasKind_only] at hkind
      obtain ⟨name, hname, hof⟩ := hkind
      rw [committed_only rfl, hasKind_only]
      refine ⟨name, Names.mem_filter.mpr ⟨hname, keeps_iff.mpr fun other hother => ?_⟩, hof⟩
      rw [← htypes, h]
      exact congrArg some (NumericKind.kind_injective
        (acyclic.isOfKind_unique builtIns hof hother))

/-- A finite set whose types are all of one numeric kind prefers that. -/
theorem preferred?_of_allOfKind (acyclic : env.Acyclic) (builtIns : env.HasBuiltIns)
    (consists : types.Consists fun name => env.isOfKind name representation.kind)
    (h : env.hasKind types representation.kind) : types.preferred? env = some representation := by
  obtain ⟨names, rfl, hall⟩ := consists
  obtain ⟨found, hfound⟩ := exists_preferred? h
  obtain ⟨name, hname, hof⟩ := hasKind_only.mp (hasKind_of_preferred? hfound)
  have hsame : found = representation := NumericKind.kind_injective
    (acyclic.isOfKind_unique builtIns hof (hall name hname))
  exact hsame ▸ hfound

theorem Mutual.covers (mutually : types.Mutual env others) :
    types.Covers env others ∧ others.Covers env types := by
  rcases mutually with ⟨rfl, rfl⟩ | ⟨names, names', rfl, rfl, below, above⟩
  · exact ⟨covers_all _, covers_all _⟩
  · exact ⟨covers_of_exists_above rfl fun name hname => by simpa using above name hname,
      covers_of_exists_above rfl fun name hname => by simpa using below name hname⟩

/-- Sets that are linked both ways prefer the same representation. -/
theorem Mutual.preferred?_eq (mutually : types.Mutual env others) (unionFree : env.UnionFree)
    (builtIns : env.HasBuiltIns) : types.preferred? env = others.preferred? env := by
  obtain ⟨covers, covered⟩ := mutually.covers
  unfold preferred?
  congr 1
  funext representation
  rw [Bool.eq_iff_iff]
  have rise := unionFree.kindsRise builtIns
  exact ⟨covered.hasKind rise, covers.hasKind rise⟩

/-- What a condition says of a set it says of the committed set. -/
theorem Consists.committed {condition : String → Prop} (consists : types.Consists condition) :
    (types.committed env).Consists condition := by
  obtain ⟨names, rfl, hall⟩ := consists
  exact ⟨_, rfl, fun name hname => hall name (Names.mem_filter.mp hname).1⟩

end TypeSet

/-! ### Constraints that stay satisfied -/

/-- Every set is committed to the representation it prefers. -/
def Assignment.committed (env : TypeEnv) (A : Assignment) : Assignment :=
  fun var => (A var).committed env

namespace Constraint

variable {A : Assignment} {constraints : List Constraint}

/-- The constraint is none about a functor, and if it puts a variable below another
then that is below it, too. -/
def MirroredIn (constraints : List Constraint) : Constraint → Prop
  | below var bound => below bound var ∈ constraints
  | sameBase _ _ | overload _ _ _ _ _ => False
  | _ => True

/-- Committing sets that prefer the same representation leaves one below the other. -/
theorem covers_committed (acyclic : env.Acyclic) {types others : TypeSet}
    (covers : others.Covers env types) (same : types.preferred? env = others.preferred? env) :
    (others.committed env).Covers env (types.committed env) := by
  intro uppers huppers
  cases hothers : others with
  | all =>
      rw [hothers] at huppers
      cases huppers
  | only names =>
      obtain ⟨names', htypes, above⟩ := covers names hothers
      rw [TypeSet.committed_only hothers] at huppers
      obtain rfl := TypeSet.only.inj huppers
      refine ⟨_, TypeSet.committed_only htypes, fun name hname => ?_⟩
      obtain ⟨hname, keeps⟩ := Names.mem_filter.mp hname
      obtain ⟨upper, hupper, hsub⟩ := above name hname
      refine ⟨upper, Names.mem_filter.mpr ⟨hupper, TypeSet.keeps_iff.mpr ?_⟩, hsub⟩
      intro representation hof
      rw [← same]
      exact TypeSet.keeps_iff.mp keeps representation
        (acyclic.isOfKind_down representation.kind_mem_primitives hsub hof)

/-- Committing takes no records away, so their fields still bound the elements. -/
theorem component_committed (unionFree : env.UnionFree) (builtIns : env.HasBuiltIns)
    {element record : TypeVar} {position : Int}
    (satisfied : (component element record position).Satisfied env A) :
    (component element record position).Satisfied env (A.committed env) := by
  intro records' hrecords'
  cases hrecord : A record with
  | all =>
      simp only [Assignment.committed, hrecord] at hrecords'
      cases hrecords'
  | only records =>
      obtain ⟨reaching, below⟩ := satisfied records hrecord
      have hcommitted : A.committed env record = .only (records.filter ((A record).keeps env)) :=
        TypeSet.committed_only hrecord
      obtain rfl := TypeSet.only.inj (hcommitted.symm.trans hrecords')
      refine ⟨fun name hname => reaching name (Names.mem_filter.mp hname).1, ?_⟩
      obtain ⟨names, hnames, hfields⟩ := below
      refine ⟨_, TypeSet.committed_only hnames, fun name hname => ?_⟩
      obtain ⟨owner, howner, field, hfield, hsub⟩ := hfields name (Names.mem_filter.mp hname).1
      refine ⟨owner, Names.mem_filter.mpr ⟨howner, TypeSet.keeps_iff.mpr ?_⟩, field, hfield, hsub⟩
      intro representation hof
      obtain ⟨fields, hrecordFields, -⟩ := Option.bind_eq_some_iff.mp hfield
      exact absurd hof (unionFree.not_isOfKind_of_recordFields? builtIns hrecordFields
        representation.kind_mem_primitives)

/-- Constraints that link variables both ways or not at all stay satisfied when
every set is committed to the representation it prefers. -/
theorem satisfied_committed (wellFormed : env.WellFormed) (unionFree : env.UnionFree)
    (mirrored : ∀ constraint ∈ constraints, constraint.MirroredIn constraints)
    (satisfied : ∀ constraint ∈ constraints, constraint.Satisfied env A) :
    ∀ constraint ∈ constraints, constraint.Satisfied env (A.committed env) := by
  intro constraint hmem
  have holds := satisfied constraint hmem
  have mirror := mirrored constraint hmem
  cases constraint with
  | subtypeOf var bound => exact TypeSet.Consists.committed holds
  | supertypeIn var values => exact TypeSet.Consists.committed holds
  | ofKind var kind candidates => exact TypeSet.Consists.committed holds
  | recordOf var arity candidates => exact TypeSet.Consists.committed holds
  | component element record position =>
      exact component_committed unionFree wellFormed.builtIns holds
  | below var bound =>
      have covers : (A bound).Covers env (A var) := holds
      have covered : (A var).Covers env (A bound) := satisfied _ mirror
      have same := (TypeSet.mutual_of_covers covered covers).preferred?_eq unionFree
        wellFormed.builtIns
      exact covers_committed (wellFormed.acyclic unionFree) covers same
  | sameBase left right => exact mirror.elim
  | overload symbol result args subtypeResult remaining => exact mirror.elim

end Constraint

end DatalogTyping

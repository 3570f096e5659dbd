import DatalogTyping.Proofs.Declared

/-!
# The types that declarations make

Of several declarations of a name the first counts. A union, a record or a sum
type then is a type; a subset type or an alias is one if what it refers to is
one, which is the least solution of that condition (`IsDeclared`): declarations
that only refer to each other make no types. `ofDecls_least` says that building
an environment always succeeds, that it makes just these types, and that each is
what its declaration says.

A subset type or alias comes into being when something asks for it, so what there
is at some moment depends on the order of the declarations. What does not depend
on it is what a draft `Offers`: the types it has and those it can still bring
into being. Asking for a type changes nothing of that, and afterwards the type
exists if it was on offer. So every step of building keeps what the draft offers
after all declarations are announced, and in the end nothing on offer is missing.

A type cannot come into being without a name, and that is all that can go wrong. So
each step comes with a promise about its result, and with this reason to fail
(`Draft.Keeps`).
-/

namespace DatalogTyping

namespace TypeDecl

/-- The type that the declaration of a subset type or alias refers to. -/
def target? : TypeDecl → Option String
  | subset _ base => some base
  | synonym _ target => some target
  | _ => none

/-- The names that the structure of a union, a record or a sum type mentions. -/
def parts : TypeDecl → List String
  | union _ elements => elements
  | record _ fields => fields
  | adt _ branches => branches.flatMap Prod.snd
  | _ => []

/-- What a type is when it comes into being. -/
def initial : TypeDecl → TypeDef
  | subset _ base => .subset base
  | synonym _ target => .synonym target
  | union _ _ => .union []
  | record _ _ => .record []
  | adt _ _ => .adt []

/-- The types of a list of fields: none if one of the names is not that of a
type. -/
def fieldsAmong (isType : String → Bool) (names : List String) : List String :=
  if names.all isType then names else []

/-- What the type of a declaration is, given which names are those of types. -/
def definition (isType : String → Bool) : TypeDecl → TypeDef
  | subset _ base => .subset base
  | synonym _ target => .synonym target
  | union _ elements => .union (elements.filter isType)
  | record _ fields => .record (fieldsAmong isType fields)
  | adt _ branches =>
    .adt (branches.map fun branch => { name := branch.1, types := fieldsAmong isType branch.2 })

theorem initial_of_target? {decl : TypeDecl} {target : String} (h : decl.target? = some target)
    (isType : String → Bool) : decl.initial = decl.definition isType := by
  cases decl <;> first | rfl | cases h

theorem fieldsAmong_congr {p q : String → Bool} {names : List String}
    (h : ∀ name ∈ names, p name = q name) : fieldsAmong p names = fieldsAmong q names := by
  have same : names.all p = names.all q := all_congr_mem h
  simp only [fieldsAmong, same]

/-- A definition depends only on which of the parts are types. -/
theorem definition_congr {decl : TypeDecl} {p q : String → Bool}
    (h : ∀ name ∈ decl.parts, p name = q name) : decl.definition p = decl.definition q := by
  cases decl with
  | subset name base => rfl
  | synonym name target => rfl
  | union name elements => exact congrArg TypeDef.union (List.filter_congr h)
  | record name fields => exact congrArg TypeDef.record (fieldsAmong_congr h)
  | adt name branches =>
      refine congrArg TypeDef.adt (List.map_congr_left fun branch hbranch => ?_)
      refine congrArg (Branch.mk branch.1) (fieldsAmong_congr fun field hfield => ?_)
      exact h field (List.mem_flatMap.mpr ⟨branch, hbranch, hfield⟩)

/-- The declaration that counts for a name: the first, unless the name is that of
a built-in type. -/
def first? (decls : List TypeDecl) (name : String) : Option TypeDecl :=
  if TypeEnv.builtIn.isType name then none else decls.find? fun decl => decl.name = name

end TypeDecl

/-- The names that declarations make names of types: the built-in ones, those of
unions, records and sum types, and those of subset types and aliases that refer to
such a name. -/
inductive IsDeclared (decls : List TypeDecl) : String → Prop
  | builtIn {name : String} : TypeEnv.builtIn.isType name → IsDeclared decls name
  | composite {name : String} {decl : TypeDecl} :
      TypeDecl.first? decls name = some decl → decl.target? = none → IsDeclared decls name
  | derived {name : String} {decl : TypeDecl} {target : String} :
      TypeDecl.first? decls name = some decl → decl.target? = some target →
      IsDeclared decls target → IsDeclared decls name

/-- An environment has the declared types, and each is what its declaration
says. -/
structure TypeEnv.Realises (env : TypeEnv) (decls : List TypeDecl) : Prop where
  /-- No name stands for two types. -/
  distinct : env.names.Nodup
  builtIns : env.HasBuiltIns
  isType_iff : ∀ name, env.isType name ↔ IsDeclared decls name
  find?_eq : ∀ {name decl}, TypeDecl.first? decls name = some decl → env.isType name →
    env.find? name = some (decl.definition env.isType)

/-! ### The declarations that count -/

theorem mem_countingDecls {decls : List TypeDecl} {taken : List String} {decl : TypeDecl} :
    decl ∈ countingDecls decls taken ↔
      decl.name ∉ taken ∧ TypeDecl.first? decls decl.name = some decl := by
  induction decls generalizing taken with
  | nil => simp [countingDecls, TypeDecl.first?]
  | cons head rest ih =>
      unfold countingDecls
      split
      · -- the head does not count: its name is taken or built in
        rename_i hskip
        rw [ih]
        refine and_congr_right fun htaken => ?_
        unfold TypeDecl.first?
        split
        · rfl
        · rename_i hbuiltIn
          have hne : head.name ≠ decl.name := by
            intro hname
            simp only [Bool.or_eq_true, List.contains_iff_mem, hname] at hskip
            exact hskip.elim htaken hbuiltIn
          rw [List.find?_cons_of_neg (by simpa using hne)]
      · rename_i hcount
        simp only [Bool.or_eq_true, List.contains_iff_mem, not_or] at hcount
        by_cases hname : head.name = decl.name
        · have hfirst : TypeDecl.first? (head :: rest) decl.name = some head := by
            rw [TypeDecl.first?, if_neg (hname ▸ hcount.2),
              List.find?_cons_of_pos (by simpa using hname)]
          rw [hfirst, List.mem_cons, ih]
          constructor
          · rintro (rfl | ⟨hnot, -⟩)
            · exact ⟨hcount.1, rfl⟩
            · exact absurd (hname ▸ List.mem_cons_self) hnot
          · rintro ⟨-, h⟩
            exact .inl (Option.some.inj h).symm
        · have hfirst : TypeDecl.first? (head :: rest) decl.name =
              TypeDecl.first? rest decl.name := by
            unfold TypeDecl.first?
            rw [List.find?_cons_of_neg (by simpa using hname)]
          have hne : decl ≠ head := fun h => hname (h ▸ rfl)
          rw [hfirst, List.mem_cons, ih, or_iff_right hne, List.mem_cons, not_or]
          exact ⟨fun h => ⟨h.1.2, h.2⟩, fun h => ⟨⟨Ne.symm hname, h.1⟩, h.2⟩⟩

theorem nodup_countingDecls (decls : List TypeDecl) (taken : List String) :
    ((countingDecls decls taken).map TypeDecl.name).Nodup := by
  induction decls generalizing taken with
  | nil => exact List.nodup_nil
  | cons head rest ih =>
      unfold countingDecls
      split
      · exact ih taken
      · refine List.nodup_cons.mpr ⟨fun hmem => ?_, ih _⟩
        obtain ⟨decl, hdecl, hname⟩ := List.mem_map.mp hmem
        exact (mem_countingDecls.mp hdecl).1 (hname ▸ List.mem_cons_self)

theorem TypeDecl.find?_eq_some_iff {decls : List TypeDecl}
    (distinct : (decls.map TypeDecl.name).Nodup) {name : String} {decl : TypeDecl} :
    decls.find? (fun decl => decl.name = name) = some decl ↔ decl ∈ decls ∧ decl.name = name := by
  constructor
  · intro h
    exact ⟨List.mem_of_find?_eq_some h, by simpa using List.find?_some h⟩
  · rintro ⟨hdecl, hname⟩
    have hsome : (decls.find? fun decl => decl.name = name).isSome :=
      List.find?_isSome.mpr ⟨decl, hdecl, by simpa using hname⟩
    obtain ⟨found, hfound⟩ := Option.isSome_iff_exists.mp hsome
    have hfound_name : found.name = name := by simpa using List.find?_some hfound
    rw [hfound, List.inj_on_of_nodup_map distinct (List.mem_of_find?_eq_some hfound) hdecl
      (hfound_name.trans hname.symm)]

theorem TypeDecl.name_of_first? {decls : List TypeDecl} {name : String} {decl : TypeDecl}
    (h : TypeDecl.first? decls name = some decl) : decl.name = name := by
  unfold TypeDecl.first? at h
  split at h
  · cases h
  · simpa using List.find?_some h

theorem TypeDecl.mem_of_first? {decls : List TypeDecl} {name : String} {decl : TypeDecl}
    (h : TypeDecl.first? decls name = some decl) : decl ∈ decls := by
  unfold TypeDecl.first? at h
  split at h
  · cases h
  · exact List.mem_of_find?_eq_some h

theorem TypeDecl.first?_eq_some_iff {decls : List TypeDecl} {name : String} {decl : TypeDecl} :
    TypeDecl.first? decls name = some decl ↔
      decl ∈ countingDecls decls [] ∧ decl.name = name := by
  rw [mem_countingDecls]
  constructor
  · intro h
    have hname := TypeDecl.name_of_first? h
    exact ⟨⟨List.not_mem_nil, hname ▸ h⟩, hname⟩
  · rintro ⟨⟨-, h⟩, rfl⟩
    exact h

/-! ### What a draft offers -/

namespace Draft

/-- What a draft has or can still bring into being. -/
inductive Offers (draft : Draft) : String → Prop
  | type {name : String} : draft.env.isType name → Offers draft name
  | waiting {name : String} {decl : TypeDecl} {target : String} : decl ∈ draft.waiting →
      decl.name = name → decl.target? = some target → Offers draft target → Offers draft name

/-- What holds of a draft at every moment of building: bringing a waiting type
into being cannot fail, if it has a name. -/
structure Tidy (draft : Draft) : Prop where
  distinct : (draft.waiting.map TypeDecl.name).Nodup
  fresh : ∀ decl ∈ draft.waiting, draft.env.find? decl.name = none
  derived : ∀ decl ∈ draft.waiting, ∃ target, decl.target? = some target
  names : draft.env.names.Nodup

/-- Asking for types takes a draft to another: a waiting type may have come into
being, and what is on offer is the same. -/
structure Grows (draft after : Draft) : Prop where
  tidy : after.Tidy
  offers_iff : ∀ name, after.Offers name ↔ draft.Offers name
  waiting : ∀ decl ∈ after.waiting, decl ∈ draft.waiting
  find?_eq : ∀ name, after.env.find? name = draft.env.find? name ∨
    draft.env.find? name = none ∧
      ∃ decl ∈ draft.waiting, decl.name = name ∧ after.env.find? name = some decl.initial

theorem Tidy.refl_grows {draft : Draft} (tidy : draft.Tidy) : draft.Grows draft :=
  ⟨tidy, fun _ => Iff.rfl, fun _ h => h, fun _ => .inl rfl⟩

theorem Grows.trans {draft middle after : Draft} (first : draft.Grows middle)
    (second : middle.Grows after) : draft.Grows after where
  tidy := second.tidy
  offers_iff name := (second.offers_iff name).trans (first.offers_iff name)
  waiting decl h := first.waiting decl (second.waiting decl h)
  find?_eq name := by
    rcases second.find?_eq name with same | ⟨hnone, decl, hdecl, hname, hfind⟩
    · rw [same]
      exact first.find?_eq name
    · rcases first.find?_eq name with same | ⟨-, _, _, _, hsome⟩
      · exact .inr ⟨same ▸ hnone, decl, first.waiting decl hdecl, hname, hfind⟩
      · rw [hsome] at hnone
        cases hnone

theorem Grows.isType {draft after : Draft} (grows : draft.Grows after) {name : String}
    (h : draft.env.isType name) : after.env.isType name := by
  rcases grows.find?_eq name with same | ⟨hnone, -⟩
  · rwa [TypeEnv.isType, same]
  · simp [TypeEnv.isType, hnone] at h

/-- A draft without a waiting declaration. -/
def without (draft : Draft) (name : String) : Draft :=
  { draft with waiting := draft.waiting.filter fun other => other.name ≠ name }

theorem mem_without {draft : Draft} {name : String} {decl : TypeDecl} :
    decl ∈ (draft.without name).waiting ↔ decl ∈ draft.waiting ∧ decl.name ≠ name := by
  simp [without]

theorem Tidy.without {draft : Draft} (tidy : draft.Tidy) (name : String) :
    (draft.without name).Tidy where
  distinct := tidy.distinct.sublist (List.filter_sublist.map _)
  fresh decl h := tidy.fresh decl (mem_without.mp h).1
  derived decl h := tidy.derived decl (mem_without.mp h).1
  names := tidy.names

theorem length_without {draft : Draft} {decl : TypeDecl} (h : decl ∈ draft.waiting) :
    (draft.without decl.name).waiting.length < draft.waiting.length := by
  refine List.length_filter_lt_length_iff_exists.mpr ⟨decl, h, ?_⟩
  simp

theorem offers_of_without {draft : Draft} {name other : String}
    (h : (draft.without name).Offers other) : draft.Offers other := by
  induction h with
  | type h => exact .type h
  | waiting hdecl hname htarget _ ih => exact .waiting (mem_without.mp hdecl).1 hname htarget ih

theorem Tidy.eq_of_name_eq {draft : Draft} (tidy : draft.Tidy) {decl other : TypeDecl}
    (hdecl : decl ∈ draft.waiting) (hother : other ∈ draft.waiting)
    (h : decl.name = other.name) : decl = other :=
  List.inj_on_of_nodup_map tidy.distinct hdecl hother h

/-- What is on offer is on offer without a waiting declaration, unless it needs
that declaration: then what the declaration refers to is on offer without it. -/
theorem Tidy.offers_without {draft : Draft} (tidy : draft.Tidy) {decl : TypeDecl}
    {target other : String} (hdecl : decl ∈ draft.waiting) (htarget : decl.target? = some target)
    (h : draft.Offers other) :
    (draft.without decl.name).Offers other ∨ (draft.without decl.name).Offers target := by
  induction h with
  | type h => exact .inl (.type h)
  | @waiting _ decl' target' hdecl' hname' htarget' _ ih =>
      rcases ih with ih | ih
      · by_cases hname : decl'.name = decl.name
        · obtain rfl := tidy.eq_of_name_eq hdecl' hdecl hname
          obtain rfl : target' = target := Option.some.inj (htarget'.symm.trans htarget)
          exact .inr ih
        · exact .inl (.waiting (mem_without.mpr ⟨hdecl', hname⟩) hname' htarget' ih)
      · exact .inr ih

/-- A waiting type is on offer if what it refers to is on offer without it. -/
theorem Tidy.offers_name_iff {draft : Draft} (tidy : draft.Tidy) {decl : TypeDecl}
    {target : String} (hdecl : decl ∈ draft.waiting) (htarget : decl.target? = some target) :
    draft.Offers decl.name ↔ (draft.without decl.name).Offers target := by
  constructor
  · intro h
    refine (tidy.offers_without hdecl htarget h).elim (fun hname => ?_) id
    -- without its declaration a waiting name is neither a type nor waiting
    cases hname with
    | type htype =>
        have hnone := tidy.fresh decl hdecl
        simp [Draft.without, TypeEnv.isType, hnone] at htype
    | waiting hmem hsame => exact absurd hsame (mem_without.mp hmem).2
  · intro h
    exact .waiting hdecl rfl htarget (offers_of_without h)

/-! ### Asking for a type -/

/-- A step of building keeps a promise, or fails for a reason. -/
def Keeps {α : Type} (promise : α → Prop) (reason : Prop) : Except Fault α → Prop
  | .ok result => promise result
  | .error _ => reason

section Keeps

variable {α β : Type} {promise : α → Prop} {reason : Prop} {step : Except Fault α}

theorem Keeps.mono {promise' : α → Prop} {reason' : Prop} (h : Keeps promise reason step)
    (hpromise : ∀ result, promise result → promise' result) (hreason : reason → reason') :
    Keeps promise' reason' step := by
  cases step with
  | error fault => exact hreason h
  | ok result => exact hpromise result h

theorem Keeps.bind {promise' : β → Prop} {next : α → Except Fault β}
    (h : Keeps promise reason step)
    (hnext : ∀ result, promise result → Keeps promise' reason (next result)) :
    Keeps promise' reason (step.bind next) := by
  cases step with
  | error fault => exact h
  | ok result => exact hnext result h

theorem Keeps.map {promise' : β → Prop} {f : α → β} (h : Keeps promise reason step)
    (hmap : ∀ result, promise result → promise' (f result)) :
    Keeps promise' reason (step.map f) := by
  cases step with
  | error fault => exact h
  | ok result => exact hmap result h

theorem Keeps.exists_ok (h : Keeps promise reason step) (sound : ¬ reason) :
    ∃ result, step = .ok result ∧ promise result := by
  cases step with
  | error fault => exact absurd h sound
  | ok result => exact ⟨result, rfl, h⟩

end Keeps

/-- One of the declarations has no name. -/
def Unnamed (decls : List TypeDecl) : Prop :=
  ∃ decl ∈ decls, decl.name = ""

theorem Unnamed.mono {decls others : List TypeDecl} (h : Unnamed decls)
    (sub : ∀ decl ∈ decls, decl ∈ others) : Unnamed others := by
  obtain ⟨decl, hdecl, hname⟩ := h
  exact ⟨decl, sub decl hdecl, hname⟩

/-- The bound on the steps is never reached. -/
theorem demandIn_stable {draft : Draft} {name : String} {bound bound' : Nat}
    (enough : draft.waiting.length ≤ bound) (enough' : draft.waiting.length ≤ bound') :
    demandIn bound draft name = demandIn bound' draft name := by
  induction bound generalizing draft name bound' with
  | zero =>
      have hnil : draft.waiting = [] := List.length_eq_zero_iff.mp (Nat.le_zero.mp enough)
      cases bound' with
      | zero => rfl
      | succ bound' => rw [demandIn, demandIn, hnil, List.find?_nil]
  | succ bound ih =>
      cases bound' with
      | zero =>
          have hnil : draft.waiting = [] := List.length_eq_zero_iff.mp (Nat.le_zero.mp enough')
          rw [demandIn, demandIn, hnil, List.find?_nil]
      | succ bound' =>
          rw [demandIn, demandIn]
          cases hfind : draft.waiting.find? fun decl => decl.name = name with
          | none => rfl
          | some decl =>
              have hname : decl.name = name := by simpa using List.find?_some hfind
              have shorter := length_without (List.mem_of_find?_eq_some hfind)
              have same : ∀ target, demandIn bound (draft.without name) target =
                  demandIn bound' (draft.without name) target := by
                intro target
                rw [hname] at shorter
                exact ih (by omega) (by omega)
              unfold Draft.without at same
              cases decl <;> simp only [same]

/-- What asking for a type leads to: it is there if it is on offer, and so then are the
types whose declarations are no longer waiting. -/
structure Supplies (draft : Draft) (name : String) (after : Draft) : Prop where
  grows : draft.Grows after
  offered : draft.Offers name → after.env.isType name ∧
    ∀ decl ∈ draft.waiting, decl ∈ after.waiting ∨ after.env.isType decl.name

theorem Tidy.demandIn_of_not_waiting {draft : Draft} (tidy : draft.Tidy) {name : String}
    (h : ∀ decl ∈ draft.waiting, decl.name ≠ name) (bound : Nat) :
    Keeps (draft.Supplies name) (Unnamed draft.waiting) (demandIn bound draft name) := by
  have same : demandIn bound draft name = .ok draft := by
    cases bound with
    | zero => rfl
    | succ bound =>
        have hnone : draft.waiting.find? (fun decl => decl.name = name) = none := by
          simpa using h
        rw [demandIn, hnone]
  rw [same]
  refine ⟨tidy.refl_grows, fun hoffer => ⟨?_, fun decl hdecl => .inl hdecl⟩⟩
  cases hoffer with
  | type htype => exact htype
  | waiting hdecl hname => exact absurd hname (h _ hdecl)

theorem Tidy.demandIn_succ {draft : Draft} (tidy : draft.Tidy) {decl : TypeDecl}
    {target : String} (hdecl : decl ∈ draft.waiting) (htarget : decl.target? = some target)
    (bound : Nat) :
    demandIn (bound + 1) draft decl.name =
      (demandIn bound (draft.without decl.name) target).bind fun middle =>
        if middle.env.isType target then
          (middle.env.install decl.name decl.initial).map fun env => { middle with env }
        else .ok middle := by
  rw [demandIn, (TypeDecl.find?_eq_some_iff tidy.distinct).mpr ⟨hdecl, rfl⟩]
  cases decl <;> cases htarget <;> rfl

theorem install_of_fresh {env : TypeEnv} {name : String} (definition : TypeDef)
    (named : name ≠ "") (fresh : env.find? name = none) :
    env.install name definition = .ok ⟨env.entries ++ [(name, definition)]⟩ := by
  have hname : name.isEmpty = false := by simpa using named
  simp [TypeEnv.install, TypeEnv.isType, hname, fresh]

theorem install_unnamed {env : TypeEnv} {name : String} (definition : TypeDef) (h : name = "") :
    env.install name definition = .error .emptyText := by
  simp [TypeEnv.install, h]

/-- A draft after a waiting type came into being. -/
def adding (draft : Draft) (decl : TypeDecl) : Draft :=
  { draft with env := ⟨draft.env.entries ++ [(decl.name, decl.initial)]⟩ }

theorem find?_adding (draft : Draft) (decl : TypeDecl) (name : String) :
    (draft.adding decl).env.find? name =
      (draft.env.find? name).or (if name = decl.name then some decl.initial else none) :=
  TypeEnv.find?_append decl.name decl.initial name

theorem isType_adding {draft : Draft} {decl : TypeDecl} {name : String} :
    (draft.adding decl).env.isType name ↔ draft.env.isType name ∨ name = decl.name := by
  simp only [TypeEnv.isType, find?_adding]
  by_cases h : name = decl.name <;> simp [h]

theorem Tidy.adding {draft : Draft} (tidy : draft.Tidy) {decl : TypeDecl}
    (fresh : draft.env.find? decl.name = none)
    (gone : ∀ other ∈ draft.waiting, other.name ≠ decl.name) : (draft.adding decl).Tidy where
  distinct := tidy.distinct
  fresh other h := by simp [find?_adding, tidy.fresh other h, gone other h]
  derived := tidy.derived
  names := by
    have absent : decl.name ∉ draft.env.names := by
      rw [TypeEnv.mem_names_iff, TypeEnv.isType, fresh]
      simp
    have hnames : (draft.adding decl).env.names = draft.env.names ++ [decl.name] := by
      simp [TypeEnv.names, Draft.adding]
    rw [hnames]
    exact List.nodup_append.mpr ⟨tidy.names, List.nodup_singleton _, by
      intro a ha b hb hab
      exact absent (List.mem_singleton.mp hb ▸ hab ▸ ha)⟩

/-- A waiting type comes into being after what it refers to. -/
theorem Tidy.grows_adding {draft middle : Draft} (tidy : draft.Tidy) {decl : TypeDecl}
    {target : String} (hdecl : decl ∈ draft.waiting) (htarget : decl.target? = some target)
    (grows : (draft.without decl.name).Grows middle) (offered : middle.env.isType target)
    (kept : ∀ other ∈ (draft.without decl.name).waiting,
      other ∈ middle.waiting ∨ middle.env.isType other.name) :
    middle.env.find? decl.name = none ∧ draft.Grows (middle.adding decl) := by
  have gone : ∀ other ∈ middle.waiting, other.name ≠ decl.name := fun other hother =>
    (mem_without.mp (grows.waiting other hother)).2
  have fresh : middle.env.find? decl.name = none := by
    rcases grows.find?_eq decl.name with same | ⟨-, other, hother, hname, -⟩
    · exact same.trans (tidy.fresh decl hdecl)
    · exact absurd hname (mem_without.mp hother).2
  have hname : draft.Offers decl.name :=
    (tidy.offers_name_iff hdecl htarget).mpr ((grows.offers_iff target).mp (.type offered))
  refine ⟨fresh, grows.tidy.adding fresh gone, fun name => ⟨fun h => ?_, fun h => ?_⟩, ?_, ?_⟩
  · induction h with
    | type h =>
        rcases isType_adding.mp h with h | rfl
        · exact offers_of_without ((grows.offers_iff _).mp (.type h))
        · exact hname
    | waiting hother hsame hother' _ ih =>
        exact .waiting (mem_without.mp (grows.waiting _ hother)).1 hsame hother' ih
  · induction h with
    | type h => exact .type (isType_adding.mpr (.inl (grows.isType h)))
    | @waiting _ other _ hother hsame hother' _ ih =>
        by_cases hother_name : other.name = decl.name
        · exact .type (isType_adding.mpr (.inr (hsame.symm.trans hother_name)))
        · -- the types that came into being with the target are on offer, the others wait
          rcases kept other (mem_without.mpr ⟨hother, hother_name⟩) with hwaits | htype
          · exact .waiting hwaits hsame hother' ih
          · exact .type (isType_adding.mpr (.inl (hsame ▸ htype)))
  · exact fun other hother => (mem_without.mp (grows.waiting other hother)).1
  · intro name
    by_cases hsame : name = decl.name
    · refine .inr ⟨hsame ▸ tidy.fresh decl hdecl, decl, hdecl, hsame.symm, ?_⟩
      simp [find?_adding, hsame, fresh]
    · have hfind : (middle.adding decl).env.find? name = middle.env.find? name := by
        simp [find?_adding, hsame]
      rw [hfind]
      rcases grows.find?_eq name with same | ⟨hnone, other, hother, hrest⟩
      · exact .inl same
      · exact .inr ⟨hnone, other, (mem_without.mp hother).1, hrest⟩

/-- What refers to something that is not on offer can be dropped. -/
theorem Tidy.grows_without {draft middle : Draft} (tidy : draft.Tidy) {decl : TypeDecl}
    {target : String} (hdecl : decl ∈ draft.waiting) (htarget : decl.target? = some target)
    (grows : (draft.without decl.name).Grows middle)
    (missing : ¬ (draft.without decl.name).Offers target) : draft.Grows middle where
  tidy := grows.tidy
  offers_iff name := by
    rw [grows.offers_iff]
    exact ⟨offers_of_without, fun h =>
      (tidy.offers_without hdecl htarget h).resolve_right missing⟩
  waiting other hother := (mem_without.mp (grows.waiting other hother)).1
  find?_eq name := by
    rcases grows.find?_eq name with same | ⟨hnone, other, hother, hrest⟩
    · exact .inl same
    · exact .inr ⟨hnone, other, (mem_without.mp hother).1, hrest⟩

/-- Asking for a type brings it into being if it is on offer. -/
theorem Tidy.demandIn_keeps {draft : Draft} (tidy : draft.Tidy) {bound : Nat}
    (enough : draft.waiting.length ≤ bound) (name : String) :
    Keeps (draft.Supplies name) (Unnamed draft.waiting) (demandIn bound draft name) := by
  induction bound generalizing draft name with
  | zero =>
      refine tidy.demandIn_of_not_waiting (fun decl hdecl => ?_) 0
      simp [List.length_eq_zero_iff.mp (Nat.le_zero.mp enough)] at hdecl
  | succ bound ih =>
      by_cases hwaits : ∃ decl ∈ draft.waiting, decl.name = name
      · obtain ⟨decl, hdecl, rfl⟩ := hwaits
        obtain ⟨target, htarget⟩ := tidy.derived decl hdecl
        have hbound : (draft.without decl.name).waiting.length ≤ bound := by
          have := length_without hdecl
          omega
        rw [tidy.demandIn_succ hdecl htarget]
        have waits : Unnamed (draft.without decl.name).waiting → Unnamed draft.waiting :=
          fun unnamed => unnamed.mono fun _ h => (mem_without.mp h).1
        refine ((ih (tidy.without decl.name) hbound target).mono (fun _ => id) waits).bind
          fun middle supplies => ?_
        obtain ⟨grows, offered⟩ := supplies
        by_cases htype : middle.env.isType target
        · have hoffer := (grows.offers_iff target).mp (.type htype)
          obtain ⟨fresh, grown⟩ := tidy.grows_adding hdecl htarget grows htype (offered hoffer).2
          rw [if_pos htype]
          by_cases hname : decl.name = ""
          · rw [install_unnamed _ hname]
            exact ⟨decl, hdecl, hname⟩
          rw [install_of_fresh decl.initial hname fresh]
          refine ⟨grown, fun _ => ⟨?_, fun other hother => ?_⟩⟩
          · exact isType_adding.mpr (.inr rfl)
          · by_cases hname : other.name = decl.name
            · exact .inr (isType_adding.mpr (.inr hname))
            · refine ((offered hoffer).2 other (mem_without.mpr ⟨hother, hname⟩)).imp id fun h => ?_
              exact isType_adding.mpr (.inl h)
        · have missing : ¬ (draft.without decl.name).Offers target := fun h =>
            htype (offered h).1
          rw [if_neg htype]
          refine ⟨tidy.grows_without hdecl htarget grows missing, ?_⟩
          exact fun h => absurd ((tidy.offers_name_iff hdecl htarget).mp h) missing
      · exact tidy.demandIn_of_not_waiting (fun decl hdecl hname => hwaits ⟨decl, hdecl, hname⟩) _

theorem Tidy.demandAll_keeps {draft : Draft} (tidy : draft.Tidy) (names : List String) :
    Keeps (fun after => draft.Grows after ∧
        ∀ name ∈ names, draft.Offers name → after.env.isType name)
      (Unnamed draft.waiting) (draft.demandAll names) := by
  induction names generalizing draft with
  | nil => exact ⟨tidy.refl_grows, by simp⟩
  | cons name rest ih =>
      rw [demandAll, List.foldlM_cons]
      refine (tidy.demandIn_keeps le_rfl name).bind fun middle supplies => ?_
      obtain ⟨grows, offered⟩ := supplies
      refine (ih grows.tidy).mono (fun after grown => ?_) fun unnamed => unnamed.mono grows.waiting
      obtain ⟨grows', offered'⟩ := grown
      refine ⟨grows.trans grows', fun other hother hoffer => ?_⟩
      rcases List.mem_cons.mp hother with rfl | hother
      · exact grows'.isType (offered hoffer).1
      · exact offered' other hother ((grows.offers_iff other).mpr hoffer)

/-! ### Announcing the declarations -/

end Draft

theorem TypeEnv.find?_of_mem {env : TypeEnv} (distinct : env.names.Nodup) {name : String}
    {definition : TypeDef} (h : (name, definition) ∈ env.entries) :
    env.find? name = some definition := by
  obtain ⟨found, hfound⟩ := Option.isSome_iff_exists.mp
    (TypeEnv.mem_names_iff.mp (List.mem_map_of_mem (f := Prod.fst) h))
  have hpair := List.inj_on_of_nodup_map distinct (TypeEnv.mem_entries_of_find? hfound) h rfl
  rw [hfound, (Prod.mk.inj hpair).2]

/-- Declarations that all count. -/
structure AllCount (decls : List TypeDecl) : Prop where
  distinct : (decls.map TypeDecl.name).Nodup
  declared : ∀ decl ∈ decls, TypeEnv.builtIn.find? decl.name = none

theorem AllCount.eq_of_name_eq {decls : List TypeDecl} (count : AllCount decls)
    {decl other : TypeDecl} (hdecl : decl ∈ decls) (hother : other ∈ decls)
    (h : decl.name = other.name) : decl = other :=
  List.inj_on_of_nodup_map count.distinct hdecl hother h

theorem countingDecls_allCount (decls : List TypeDecl) : AllCount (countingDecls decls []) where
  distinct := nodup_countingDecls decls []
  declared decl h := by
    have hfirst := (mem_countingDecls.mp h).2
    unfold TypeDecl.first? at hfirst
    split at hfirst
    · cases hfirst
    · rename_i hnot
      simpa [TypeEnv.isType] using hnot

namespace Draft

/-- A draft after declarations are announced. -/
def announcing (draft : Draft) (decls : List TypeDecl) : Draft where
  env := ⟨draft.env.entries ++
    (decls.filter (·.target?.isNone)).map fun decl => (decl.name, decl.initial)⟩
  waiting := draft.waiting ++ decls.filter (·.target?.isSome)

theorem announce_derived {draft : Draft} {decl : TypeDecl} {target : String}
    (h : decl.target? = some target) :
    draft.announce decl = .ok { draft with waiting := draft.waiting ++ [decl] } := by
  cases decl <;> cases h <;> rfl

theorem announce_composite {draft : Draft} {decl : TypeDecl} (h : decl.target? = none) :
    draft.announce decl =
      (draft.env.install decl.name decl.initial).map fun env => { draft with env } := by
  cases decl <;> cases h <;> rfl

theorem announce_keeps {draft : Draft} {decl : TypeDecl}
    (fresh : draft.env.find? decl.name = none) :
    Keeps (· = draft.announcing [decl]) (decl.name = "") (draft.announce decl) := by
  cases htarget : decl.target? with
  | none =>
      rw [announce_composite htarget]
      by_cases hname : decl.name = ""
      · rw [install_unnamed _ hname]
        exact hname
      · rw [install_of_fresh decl.initial hname fresh]
        simp [Keeps, announcing, htarget, Except.map]
  | some target => simp [Keeps, announce_derived htarget, announcing, htarget]

theorem announcing_cons (draft : Draft) (decl : TypeDecl) (rest : List TypeDecl) :
    (draft.announcing [decl]).announcing rest = draft.announcing (decl :: rest) := by
  cases htarget : decl.target? <;> simp [announcing, htarget]

theorem announceAll_keeps {draft : Draft} {decls : List TypeDecl}
    (distinct : (decls.map TypeDecl.name).Nodup)
    (fresh : ∀ decl ∈ decls, draft.env.find? decl.name = none) :
    Keeps (· = draft.announcing decls) (Unnamed decls) (decls.foldlM announce draft) := by
  induction decls generalizing draft with
  | nil => simp [Keeps, announcing, pure, Except.pure]
  | cons decl rest ih =>
      obtain ⟨absent, distinct⟩ := List.nodup_cons.mp distinct
      have stillFresh : ∀ other ∈ rest, (draft.announcing [decl]).env.find? other.name = none := by
        intro other hother
        have hne : other.name ≠ decl.name := fun h => absent (h ▸ List.mem_map_of_mem hother)
        have hold := fresh other (List.mem_cons_of_mem _ hother)
        cases htarget : decl.target? with
        | none =>
            have hfind := draft.find?_adding decl other.name
            simpa [announcing, adding, htarget, hold, hne] using hfind
        | some target => simpa [announcing, htarget] using hold
      rw [List.foldlM_cons, ← announcing_cons draft decl rest]
      refine ((announce_keeps (fresh decl List.mem_cons_self)).mono (fun _ => id)
        fun hname => ⟨decl, List.mem_cons_self, hname⟩).bind fun middle hmiddle => ?_
      rw [hmiddle]
      exact (ih distinct stillFresh).mono (fun _ => id)
        fun unnamed => unnamed.mono fun _ => List.mem_cons_of_mem _

/-- The draft after all declarations are announced. -/
def announced (decls : List TypeDecl) : Draft :=
  announcing { env := .builtIn, waiting := [] } decls

theorem mem_waiting_announced {decls : List TypeDecl} {decl : TypeDecl} :
    decl ∈ (announced decls).waiting ↔ decl ∈ decls ∧ ∃ target, decl.target? = some target := by
  simp [announced, announcing, Option.isSome_iff_exists]

theorem isType_announced {decls : List TypeDecl} {name : String} :
    (announced decls).env.isType name ↔
      TypeEnv.builtIn.isType name ∨ ∃ decl ∈ decls, decl.target? = none ∧ decl.name = name := by
  rw [← TypeEnv.mem_names_iff, ← TypeEnv.mem_names_iff]
  simp [TypeEnv.names, announced, announcing, and_assoc]

theorem tidy_announced {decls : List TypeDecl} (count : AllCount decls) :
    (announced decls).Tidy where
  distinct := by
    simpa [announced, announcing] using count.distinct.sublist (List.filter_sublist.map _)
  fresh decl h := by
    obtain ⟨hdecl, target, htarget⟩ := mem_waiting_announced.mp h
    have untyped : ¬ (announced decls).env.isType decl.name := by
      rw [isType_announced]
      rintro (hbuiltIn | ⟨other, hother, hnone, hname⟩)
      · simp [TypeEnv.isType, count.declared decl hdecl] at hbuiltIn
      · rw [count.eq_of_name_eq hother hdecl hname, htarget] at hnone
        cases hnone
    simpa [TypeEnv.isType] using untyped
  derived decl h := (mem_waiting_announced.mp h).2
  names := by
    have split : (announced decls).env.names = TypeEnv.builtIn.names ++
        (decls.filter (·.target?.isNone)).map TypeDecl.name := by
      simp [TypeEnv.names, announced, announcing, Function.comp_def]
    rw [split]
    refine List.nodup_append.mpr
      ⟨by decide, count.distinct.sublist (List.filter_sublist.map _), ?_⟩
    rintro name hbuiltIn _ hname rfl
    obtain ⟨decl, hdecl, rfl⟩ := List.mem_map.mp hname
    have hnone := count.declared decl (List.mem_filter.mp hdecl).1
    simp [TypeEnv.mem_names_iff, TypeEnv.isType, hnone] at hbuiltIn

theorem find?_announced {decls : List TypeDecl} (count : AllCount decls)
    {decl : TypeDecl} (hdecl : decl ∈ decls) (hnone : decl.target? = none) :
    (announced decls).env.find? decl.name = some decl.initial := by
  refine TypeEnv.find?_of_mem (tidy_announced count).names (List.mem_append_right _ ?_)
  exact List.mem_map.mpr ⟨decl, List.mem_filter.mpr ⟨hdecl, by simp [hnone]⟩, rfl⟩

end Draft

/-! ### Completing the declarations -/

namespace Draft

/-- How far building has come when some declarations are finished: their types and
all that these mention are there if they are on offer, and have their
structure. -/
structure Progress (decls finished : List TypeDecl) (draft : Draft) : Prop where
  tidy : draft.Tidy
  offers_iff : ∀ name, draft.Offers name ↔ (announced decls).Offers name
  waiting : ∀ decl ∈ draft.waiting, decl ∈ decls
  settled : ∀ decl ∈ finished, ∀ name ∈ decl.name :: decl.parts,
    draft.Offers name → draft.env.isType name
  composite : ∀ decl ∈ decls, decl.target? = none → draft.env.isType decl.name
  find?_eq : ∀ decl ∈ decls, draft.env.isType decl.name → draft.env.find? decl.name =
    some (if decl ∈ finished then decl.definition draft.env.isType else decl.initial)

theorem announced_progress {decls : List TypeDecl} (count : AllCount decls) :
    Progress decls [] (announced decls) where
  tidy := tidy_announced count
  offers_iff _ := Iff.rfl
  waiting decl h := (mem_waiting_announced.mp h).1
  settled := by simp
  composite decl hdecl hnone := isType_announced.mpr (.inr ⟨decl, hdecl, hnone, rfl⟩)
  find?_eq decl hdecl htype := by
    cases htarget : decl.target? with
    | none => simpa using find?_announced count hdecl htarget
    | some target =>
        have hnone := (tidy_announced count).fresh decl
          (mem_waiting_announced.mpr ⟨hdecl, target, htarget⟩)
        simp [TypeEnv.isType, hnone] at htype

/-- Asking for types loses no progress. -/
theorem Progress.grows {decls finished : List TypeDecl} {draft after : Draft}
    (progress : Progress decls finished draft) (count : AllCount decls)
    (grows : draft.Grows after) : Progress decls finished after where
  tidy := grows.tidy
  offers_iff name := (grows.offers_iff name).trans (progress.offers_iff name)
  waiting decl h := progress.waiting decl (grows.waiting decl h)
  settled decl hdecl name hname hoffer :=
    grows.isType (progress.settled decl hdecl name hname ((grows.offers_iff name).mp hoffer))
  composite decl hdecl hnone := grows.isType (progress.composite decl hdecl hnone)
  find?_eq decl hdecl htype := by
    rcases grows.find?_eq decl.name with same | ⟨-, other, hother, hname, hfind⟩
    · have htype' : draft.env.isType decl.name := by rwa [TypeEnv.isType, ← same]
      rw [same, progress.find?_eq decl hdecl htype']
      by_cases hfinished : decl ∈ finished
      · -- which of the parts are types was settled when the declaration was finished
        rw [if_pos hfinished, if_pos hfinished]
        refine congrArg some (TypeDecl.definition_congr fun name hname => ?_)
        rw [Bool.eq_iff_iff]
        exact ⟨grows.isType, fun h => progress.settled decl hfinished name
          (List.mem_cons_of_mem _ hname) ((grows.offers_iff name).mp (.type h))⟩
      · rw [if_neg hfinished, if_neg hfinished]
    · obtain rfl := count.eq_of_name_eq (progress.waiting other hother) hdecl hname
      obtain ⟨target, htarget⟩ := progress.tidy.derived other hother
      rw [hfind, ← TypeDecl.initial_of_target? htarget, ite_self]

theorem offers_congr {draft after : Draft} (waiting : after.waiting = draft.waiting)
    (types : after.env.isType = draft.env.isType) {name : String} (h : draft.Offers name) :
    after.Offers name := by
  induction h with
  | type h => exact .type (types ▸ h)
  | waiting hdecl hname htarget _ ih => exact .waiting (waiting ▸ hdecl) hname htarget ih

/-- A declaration is finished when what it mentions is settled and its type has
its structure. -/
theorem Progress.finish {decls finished : List TypeDecl} {draft after : Draft} {decl : TypeDecl}
    (progress : Progress decls finished draft) (count : AllCount decls) (hdecl : decl ∈ decls)
    (waiting : after.waiting = draft.waiting) (names : after.env.names = draft.env.names)
    (others : ∀ name, name ≠ decl.name → after.env.find? name = draft.env.find? name)
    (settled : ∀ name ∈ decl.name :: decl.parts, draft.Offers name → draft.env.isType name)
    (defined : draft.env.isType decl.name →
      after.env.find? decl.name = some (decl.definition draft.env.isType)) :
    Progress decls (decl :: finished) after := by
  have types : after.env.isType = draft.env.isType := by
    funext name
    rw [Bool.eq_iff_iff, ← TypeEnv.mem_names_iff, ← TypeEnv.mem_names_iff, names]
  have offers : ∀ {name}, after.Offers name → draft.Offers name :=
    offers_congr waiting.symm types.symm
  refine ⟨⟨?_, ?_, ?_, ?_⟩, fun name => ?_, ?_, ?_, ?_, ?_⟩
  · exact waiting ▸ progress.tidy.distinct
  · intro other hother
    have hnone := progress.tidy.fresh other (waiting ▸ hother)
    have untyped : after.env.isType other.name = false := by
      rw [types]
      simp [TypeEnv.isType, hnone]
    simpa [TypeEnv.isType] using untyped
  · exact waiting ▸ progress.tidy.derived
  · exact names ▸ progress.tidy.names
  · exact ⟨fun h => (progress.offers_iff name).mp (offers h),
      fun h => offers_congr waiting types ((progress.offers_iff name).mpr h)⟩
  · exact waiting ▸ progress.waiting
  · intro other hother name hname hoffer
    rw [types]
    rcases List.mem_cons.mp hother with rfl | hother
    · exact settled name hname (offers hoffer)
    · exact progress.settled other hother name hname (offers hoffer)
  · exact types ▸ progress.composite
  · intro other hother htype
    rw [types] at htype ⊢
    by_cases hsame : other = decl
    · obtain rfl := hsame
      rw [if_pos List.mem_cons_self]
      exact defined htype
    · have hname : other.name ≠ decl.name := fun h =>
        hsame (count.eq_of_name_eq hother hdecl h)
      rw [others _ hname, progress.find?_eq other hother htype]
      simp [hsame]

/-- Completing a union, a record or a sum type gives it the structure its
declaration says. -/
theorem complete_composite (draft : Draft) {decl : TypeDecl} (h : decl.target? = none) :
    ∃ change : Draft → TypeDef → TypeDef,
      (draft.complete decl = (draft.demandAll decl.parts).map fun after =>
        { after with env := after.env.redefine decl.name (change after) }) ∧
      ∀ after, change after decl.initial = decl.definition after.env.isType := by
  cases decl with
  | subset name base => cases h
  | synonym name target => cases h
  | union name elements => exact ⟨_, rfl, fun _ => rfl⟩
  | record name fields => exact ⟨_, rfl, fun _ => rfl⟩
  | adt name branches => exact ⟨_, rfl, fun _ => rfl⟩

theorem complete_derived {draft : Draft} {decl : TypeDecl} {target : String}
    (h : decl.target? = some target) : draft.complete decl = draft.demand decl.name := by
  cases decl <;> cases h <;> rfl

theorem Progress.complete {decls finished : List TypeDecl} {draft : Draft} {decl : TypeDecl}
    (progress : Progress decls finished draft) (count : AllCount decls) (hdecl : decl ∈ decls)
    (unfinished : decl ∉ finished) :
    Keeps (Progress decls (decl :: finished)) (Unnamed decls) (draft.complete decl) := by
  have waits : Unnamed draft.waiting → Unnamed decls := fun unnamed =>
    unnamed.mono progress.waiting
  cases htarget : decl.target? with
  | some target =>
      rw [complete_derived htarget]
      refine (progress.tidy.demandIn_keeps le_rfl decl.name).mono (fun after supplies => ?_) waits
      obtain ⟨grows, offered⟩ := supplies
      have grown := progress.grows count grows
      refine grown.finish count hdecl rfl rfl (fun _ _ => rfl) ?_ fun htype => ?_
      · have hparts : decl.parts = [] := by cases decl <;> first | rfl | cases htarget
        intro name hname hoffer
        obtain rfl : name = decl.name := by simpa [hparts] using hname
        exact (offered ((grows.offers_iff _).mp hoffer)).1
      · rw [grown.find?_eq decl hdecl htype, if_neg unfinished,
          TypeDecl.initial_of_target? htarget]
  | none =>
      obtain ⟨change, hcomplete, hchange⟩ := complete_composite draft htarget
      rw [hcomplete]
      refine ((progress.tidy.demandAll_keeps decl.parts).mono (fun _ => id) waits).map
        fun middle supplies => ?_
      obtain ⟨grows, offered⟩ := supplies
      have grown := progress.grows count grows
      have htype := grown.composite decl hdecl htarget
      refine grown.finish count hdecl rfl ?_ (fun name hname => ?_) (fun name hname hoffer => ?_)
        fun _ => ?_
      · simp [TypeEnv.names, TypeEnv.redefine, Function.comp_def]
      · rw [TypeEnv.find?_redefine]
        simp [hname]
      · rcases List.mem_cons.mp hname with rfl | hname
        · exact htype
        · exact offered name hname ((grows.offers_iff name).mp hoffer)
      · rw [TypeEnv.find?_redefine, grown.find?_eq decl hdecl htype, if_neg unfinished]
        simp [hchange]

theorem Progress.completeAll {decls finished rest : List TypeDecl} {draft : Draft}
    (progress : Progress decls finished draft) (count : AllCount decls)
    (hrest : ∀ decl ∈ rest, decl ∈ decls ∧ decl ∉ finished) (distinct : rest.Nodup) :
    Keeps (Progress decls (rest.reverse ++ finished)) (Unnamed decls)
      (rest.foldlM Draft.complete draft) := by
  induction rest generalizing finished draft with
  | nil => exact progress
  | cons decl rest ih =>
      obtain ⟨hdecl, unfinished⟩ := hrest decl List.mem_cons_self
      obtain ⟨absent, distinct⟩ := List.nodup_cons.mp distinct
      have hrest : ∀ other ∈ rest, other ∈ decls ∧ other ∉ decl :: finished := by
        intro other hother
        obtain ⟨hdecls, hnot⟩ := hrest other (List.mem_cons_of_mem _ hother)
        refine ⟨hdecls, fun h => ?_⟩
        rcases List.mem_cons.mp h with rfl | h
        · exact absent hother
        · exact hnot h
      rw [List.foldlM_cons]
      refine (progress.complete count hdecl unfinished).bind fun middle progress => ?_
      simpa using ih progress hrest distinct

/-- When all declarations are finished, there is nothing on offer that is not a
type. -/
theorem Progress.isType_iff {decls finished : List TypeDecl} {draft : Draft}
    (progress : Progress decls finished draft) (all : ∀ decl ∈ decls, decl ∈ finished)
    (name : String) : draft.env.isType name ↔ (announced decls).Offers name := by
  rw [← progress.offers_iff]
  constructor
  · exact .type
  · intro h
    cases hoffer : h with
    | type h => exact h
    | waiting hdecl hname =>
        have finished := all _ (progress.waiting _ hdecl)
        exact progress.settled _ finished name (hname ▸ List.mem_cons_self) h

end Draft

/-- What is on offer after the declarations are announced is what they declare. -/
theorem offers_announced_iff {decls : List TypeDecl} {name : String} :
    (Draft.announced (countingDecls decls [])).Offers name ↔ IsDeclared decls name := by
  constructor
  · intro h
    induction h with
    | type h =>
        rcases Draft.isType_announced.mp h with h | ⟨decl, hdecl, hnone, hname⟩
        · exact .builtIn h
        · exact .composite (TypeDecl.first?_eq_some_iff.mpr ⟨hdecl, hname⟩) hnone
    | waiting hdecl hname htarget _ ih =>
        exact .derived (TypeDecl.first?_eq_some_iff.mpr
          ⟨(Draft.mem_waiting_announced.mp hdecl).1, hname⟩) htarget ih
  · intro h
    induction h with
    | builtIn h => exact .type (Draft.isType_announced.mpr (.inl h))
    | composite hfirst hnone =>
        obtain ⟨hdecl, hname⟩ := TypeDecl.first?_eq_some_iff.mp hfirst
        exact .type (Draft.isType_announced.mpr (.inr ⟨_, hdecl, hnone, hname⟩))
    | derived hfirst htarget _ ih =>
        obtain ⟨hdecl, hname⟩ := TypeDecl.first?_eq_some_iff.mp hfirst
        exact .waiting (Draft.mem_waiting_announced.mpr ⟨hdecl, _, htarget⟩) hname htarget ih

/-- The environment that declarations make has the types they declare. It is not made only
if one of them has no name. -/
theorem TypeEnv.ofDecls_keeps (decls : List TypeDecl) :
    Draft.Keeps (TypeEnv.Realises · decls) (Draft.Unnamed decls) (TypeEnv.ofDecls decls) := by
  have count := countingDecls_allCount decls
  have counting : Draft.Unnamed (countingDecls decls []) → Draft.Unnamed decls := by
    rintro ⟨decl, hdecl, hname⟩
    exact ⟨decl, TypeDecl.mem_of_first? (mem_countingDecls.mp hdecl).2, hname⟩
  have hall : ∀ decl ∈ countingDecls decls [], decl ∈ (countingDecls decls []).reverse ++ [] := by
    simp
  have kept : Draft.Keeps (fun env : TypeEnv => env.names.Nodup ∧
      (∀ name, env.isType name ↔ IsDeclared decls name) ∧
      ∀ {name decl}, TypeDecl.first? decls name = some decl → env.isType name →
        env.find? name = some (decl.definition env.isType)) (Draft.Unnamed decls)
      (TypeEnv.ofDecls decls) := by
    refine ((Draft.announceAll_keeps count.distinct count.declared).mono (fun _ => id)
      counting).bind fun draft announced => ?_
    rw [announced]
    refine (((Draft.announced_progress count).completeAll count
      (fun decl h => ⟨h, List.not_mem_nil⟩) count.distinct.of_map).mono (fun _ => id)
      counting).bind fun after progress => ?_
    refine ⟨progress.tidy.names, fun name => ?_, fun {name decl} hfirst htype => ?_⟩
    · rw [progress.isType_iff hall, offers_announced_iff]
    · obtain ⟨hdecl, rfl⟩ := TypeDecl.first?_eq_some_iff.mp hfirst
      rw [progress.find?_eq decl hdecl htype, if_pos (hall decl hdecl)]
  cases henv : TypeEnv.ofDecls decls with
  | error fault => exact (henv ▸ kept :)
  | ok env =>
      rw [henv] at kept
      obtain ⟨distinct, isType_iff, find?_eq⟩ := kept
      exact ⟨distinct, (ofDecls_wellFormed henv).builtIns, isType_iff, find?_eq⟩

theorem TypeEnv.realises_of_ofDecls {decls : List TypeDecl} {env : TypeEnv}
    (h : TypeEnv.ofDecls decls = .ok env) : env.Realises decls := by
  have kept := ofDecls_keeps decls
  rwa [h] at kept

/-- Declarations with names make an environment. -/
theorem TypeEnv.ofDecls_realises {decls : List TypeDecl}
    (named : ∀ decl ∈ decls, decl.name ≠ "") :
    ∃ env, TypeEnv.ofDecls decls = .ok env ∧ env.Realises decls := by
  refine (ofDecls_keeps decls).exists_ok ?_
  rintro ⟨decl, hdecl, hname⟩
  exact named decl hdecl hname

/-! ### The order of the declarations -/

theorem IsDeclared.congr {decls others : List TypeDecl}
    (same : ∀ name, TypeDecl.first? decls name = TypeDecl.first? others name) {name : String}
    (h : IsDeclared decls name) : IsDeclared others name := by
  induction h with
  | builtIn h => exact .builtIn h
  | composite hfirst hnone => exact .composite (same _ ▸ hfirst) hnone
  | derived hfirst htarget _ ih => exact .derived (same _ ▸ hfirst) htarget ih

namespace TypeEnv

/-- A type that is not built in has a declaration. -/
theorem Realises.exists_first? {env : TypeEnv} {decls : List TypeDecl}
    (realises : env.Realises decls) {name : String} (h : env.isType name)
    (derived : ¬ builtIn.isType name) : ∃ decl, TypeDecl.first? decls name = some decl := by
  cases (realises.isType_iff name).mp h with
  | builtIn h => exact absurd h derived
  | composite hfirst => exact ⟨_, hfirst⟩
  | derived hfirst => exact ⟨_, hfirst⟩

/-- The declarations that count determine an environment. -/
theorem Realises.find?_congr {env other : TypeEnv} {decls others : List TypeDecl}
    (realises : env.Realises decls) (realises' : other.Realises others)
    (same : ∀ name, TypeDecl.first? decls name = TypeDecl.first? others name) (name : String) :
    env.find? name = other.find? name := by
  have types : env.isType = other.isType := by
    funext name
    rw [Bool.eq_iff_iff, realises.isType_iff, realises'.isType_iff]
    exact ⟨.congr same, .congr fun name => (same name).symm⟩
  by_cases hbuiltIn : builtIn.isType name
  · obtain ⟨definition, hdefinition⟩ := Option.isSome_iff_exists.mp hbuiltIn
    have hentry := mem_entries_of_find? hdefinition
    exact (realises.builtIns _ hentry).trans (realises'.builtIns _ hentry).symm
  · by_cases htype : env.isType name
    · obtain ⟨decl, hfirst⟩ := realises.exists_first? htype hbuiltIn
      rw [realises.find?_eq hfirst htype, types,
        realises'.find?_eq (same name ▸ hfirst) (types ▸ htype)]
    · have htype' : ¬ other.isType name := types ▸ htype
      rw [isType, Bool.not_eq_true, Option.isSome_eq_false_iff, Option.isNone_iff_eq_none]
        at htype htype'
      rw [htype, htype']

theorem mem_entries_iff {env : TypeEnv} (distinct : env.names.Nodup) {name : String}
    {definition : TypeDef} :
    (name, definition) ∈ env.entries ↔ env.find? name = some definition :=
  ⟨find?_of_mem distinct, mem_entries_of_find?⟩

/-- Environments with the same types differ in the order of their entries only. -/
theorem perm_entries {env other : TypeEnv} (distinct : env.names.Nodup)
    (distinct' : other.names.Nodup) (same : ∀ name, env.find? name = other.find? name) :
    env.entries.Perm other.entries := by
  refine (List.perm_ext_iff_of_nodup distinct.of_map distinct'.of_map).mpr fun entry => ?_
  obtain ⟨name, definition⟩ := entry
  rw [mem_entries_iff distinct, mem_entries_iff distinct', same]

end TypeEnv

/-- Where no name is declared twice, the order of the declarations does not matter
for which of them count. -/
theorem TypeDecl.first?_perm {decls others : List TypeDecl} (perm : decls.Perm others)
    (distinct : (decls.map TypeDecl.name).Nodup) (name : String) :
    TypeDecl.first? decls name = TypeDecl.first? others name := by
  unfold TypeDecl.first?
  split
  · rfl
  · refine Option.ext fun decl => ?_
    rw [TypeDecl.find?_eq_some_iff distinct,
      TypeDecl.find?_eq_some_iff ((perm.map _).nodup distinct), perm.mem_iff]

/-- Building the environment of declarations always succeeds, without ever
reaching the bound on the steps of asking for a type. Its types are the built-in
ones and those that the declarations declare, and each is what the first
declaration of its name says. So where no name is declared twice, the order of
the declarations makes no difference. -/
theorem TypeEnv.ofDecls_least (decls : List TypeDecl) (named : ∀ decl ∈ decls, decl.name ≠ "") :
    (∀ (draft : Draft) (name : String) (bound : Nat), draft.waiting.length ≤ bound →
      Draft.demandIn bound draft name = draft.demand name) ∧
    ∃ env, TypeEnv.ofDecls decls = .ok env ∧ env.Realises decls ∧
      ∀ others, decls.Perm others → (decls.map TypeDecl.name).Nodup →
        ∃ env', TypeEnv.ofDecls others = .ok env' ∧ env.entries.Perm env'.entries := by
  refine ⟨fun draft name bound enough => Draft.demandIn_stable enough le_rfl, ?_⟩
  obtain ⟨env, henv, realises⟩ := ofDecls_realises named
  refine ⟨env, henv, realises, fun others perm distinct => ?_⟩
  have named' : ∀ decl ∈ others, decl.name ≠ "" := fun decl h => named decl (perm.mem_iff.mpr h)
  obtain ⟨env', henv', realises'⟩ := ofDecls_realises named'
  refine ⟨env', henv', perm_entries realises.distinct realises'.distinct ?_⟩
  exact realises.find?_congr realises' (TypeDecl.first?_perm perm distinct)

/-- A chain, a cycle, names that no type has, recursion, and a built-in name
declared again. -/
def tangledDecls : List TypeDecl := [
  .synonym "Id" "Key", .subset "Key" "number", .union "Either" ["Id", "Ghost", "Loop", "symbol"],
  .synonym "Loop" "Back", .subset "Back" "Loop", .record "Pair" ["Id", "Pair"],
  .record "Torn" ["Id", "Ghost"], .adt "Tree" [("Leaf", []), ("Fork", ["Tree", "Tree"])],
  .record "number" ["Id"]]

theorem TypeEnv.ofDecls_least_tangledDecls :
    ∃ env env', TypeEnv.ofDecls tangledDecls = .ok env ∧ env.Realises tangledDecls ∧
      TypeEnv.ofDecls tangledDecls.reverse = .ok env' ∧ env.entries.Perm env'.entries := by
  obtain ⟨-, env, henv, realises, anyOrder⟩ := TypeEnv.ofDecls_least tangledDecls (by decide)
  obtain ⟨env', henv', perm⟩ := anyOrder tangledDecls.reverse
    (List.reverse_perm tangledDecls).symm (by decide)
  exact ⟨env, env', henv, realises, henv', perm⟩

example : (TypeEnv.ofDecls tangledDecls).toOption.bind (·.find? "Either") =
    some (.union ["Id", "symbol"]) := by decide +kernel

end DatalogTyping

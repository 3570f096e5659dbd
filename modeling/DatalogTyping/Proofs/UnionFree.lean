import DatalogTyping.Proofs.CommonSubtypes
import DatalogTyping.Proofs.Walks

/-!
# Environments without unions

Without unions there is one way up from each type: from an alias to its target,
from a subset type to its base. A type is below another if the way up from it
leads there, aliases resolved (`isSubtype_iff_above`). So two types above a
common one are comparable (`isSubtype_total`), and whatever the way up ends in
is the same for a type and the types above it: the root, the kind and, if it is
reached through aliases alone, the fields.

None of this needs the environment to be free of cycles: the way up is a walk
with one way on, and such walks are short if they arrive at all.
-/

namespace DatalogTyping

namespace TypeEnv

variable {env : TypeEnv} {a b c root : String}

/-! ### The way up -/

/-- No type is a union. -/
def UnionFree (env : TypeEnv) : Prop := ∀ name, env.elements? name = none

theorem unionFree_of_names (h : ∀ name ∈ env.names, env.elements? name = none) : env.UnionFree := by
  intro name
  cases helements : env.elements? name with
  | none => rfl
  | some elements =>
      have hname : name ∈ env.names :=
        mem_names_iff.mpr (by simp [isType, elements?_eq_some.mp helements])
      rw [h name hname] at helements
      cases helements

/-- The type one step up: the target of an alias, the base of a subset type. -/
def next? (env : TypeEnv) (name : String) : Option String :=
  (env.target? name).or (env.parent? name)

/-- The way up from one type leads to another. -/
def Reaches (env : TypeEnv) : String → String → Prop :=
  Relation.ReflTransGen (Leads env.next?)

theorem next?_of_target? {target : String} (h : env.target? a = some target) :
    env.next? a = some target := by
  simp [next?, h]

theorem next?_of_not_alias (h : env.target? a = none) : env.next? a = env.parent? a := by
  simp [next?, h]

theorem target?_of_next?_none (h : env.next? a = none) : env.target? a = none := by
  cases ht : env.target? a with
  | none => rfl
  | some target => simp [next?_of_target? ht] at h

/-- A step up follows a link. -/
theorem linksTo_of_next? (h : env.next? a = some b) : env.LinksTo a b := by
  cases ht : env.target? a with
  | some target =>
      rw [next?_of_target? ht] at h
      exact .inl (ht.trans h)
  | none => exact .inr (.inr ((next?_of_not_alias ht).symm.trans h))

theorem isType_of_next? (h : env.next? a = some b) : a ∈ env.names :=
  mem_names_iff.mpr (linksTo_of_next? h).find?_isSome

theorem Reaches.linked (h : env.Reaches a b) : Relation.ReflTransGen env.LinksTo a b :=
  Relation.ReflTransGen.mono (fun _ _ link => linksTo_of_next? link) _ _ h

theorem StandsFor.reaches (h : env.StandsFor a b) : env.Reaches a b :=
  Relation.ReflTransGen.mono (fun _ _ link => next?_of_target? link) _ _ h

/-- On its way to a type that is no alias, an alias passes through everything it
stands for. -/
theorem StandsFor.reaches_of_reaches (h : env.StandsFor a b) (hc : env.Reaches a c)
    (plain : env.target? c = none) : env.Reaches b c := by
  induction h with
  | refl => exact hc
  | @tail middle next _ link ih =>
      rcases Relation.ReflTransGen.cases_head ih with rfl | ⟨other, hother, up⟩
      · rw [plain] at link
        cases link
      · obtain rfl := leads_rightUnique env.next? hother (next?_of_target? link)
        exact up

/-- The way up to a type that is no alias begins by resolving aliases. -/
theorem Reaches.exists_root (h : env.Reaches a c) (plain : env.target? c = none) :
    ∃ root, env.StandsFor a root ∧ env.target? root = none := by
  induction h using Relation.ReflTransGen.head_induction_on with
  | refl => exact ⟨c, .refl, plain⟩
  | @head a next link _ ih =>
      cases ht : env.target? a with
      | none => exact ⟨a, .refl, ht⟩
      | some target =>
          obtain rfl : next = target :=
            leads_rightUnique env.next? link (next?_of_target? ht)
          obtain ⟨root, hroot, hplain⟩ := ih
          exact ⟨root, hroot.head ht, hplain⟩

/-! ### Subtyping is going up -/

/-- One type is above another: an alias of the other leads to it, or the way up
leads to what it stands for. -/
def IsAbove (env : TypeEnv) (b a : String) : Prop :=
  env.StandsFor a b ∨ ∃ root, env.StandsFor b root ∧ env.target? root = none ∧ env.Reaches a root

theorem UnionFree.subtypeStep_eq (unionFree : env.UnionFree)
    (smaller : String → String → Bool) (a b : String) :
    env.subtypeStep smaller a b =
      if a = b then true
      else match env.target? a, env.target? b with
        | some target, _ => smaller target b
        | none, some target => smaller a target
        | none, none => (env.parent? a).any (smaller · b) := by
  unfold subtypeStep
  cases env.target? a <;> cases env.target? b <;> simp [unionFree a, unionFree b]

theorem UnionFree.isAbove_of_subtypeIn (unionFree : env.UnionFree) {bound : Nat} {a b : String}
    (h : env.subtypeIn bound a b) : env.IsAbove b a := by
  induction bound generalizing a b with
  | zero => simp [subtypeIn] at h
  | succ bound ih =>
      rw [subtypeIn_succ, unionFree.subtypeStep_eq] at h
      by_cases hab : a = b
      · subst hab
        exact .inl .refl
      rw [if_neg hab] at h
      cases ta : env.target? a with
      | some target =>
          simp only [ta] at h
          rcases ih h with path | ⟨root, hroot, plain, up⟩
          · exact .inl (path.head ta)
          · exact .inr ⟨root, hroot, plain, up.head (next?_of_target? ta)⟩
      | none =>
      cases tb : env.target? b with
      | some target =>
          simp only [ta, tb] at h
          rcases ih h with path | ⟨root, hroot, plain, up⟩
          · -- the left side is no alias, so it stands for nothing but itself
            rcases Relation.ReflTransGen.cases_head path with rfl | ⟨next, link, -⟩
            · exact .inr ⟨a, .single tb, ta, .refl⟩
            · rw [ta] at link
              cases link
          · exact .inr ⟨root, hroot.head tb, plain, up⟩
      | none =>
          simp only [ta, tb, Option.any_eq_true] at h
          obtain ⟨base, hbase, h⟩ := h
          have link : env.next? a = some base := by rw [next?_of_not_alias ta, hbase]
          rcases ih h with path | ⟨root, hroot, plain, up⟩
          · exact .inr ⟨b, .refl, tb, path.reaches.head link⟩
          · exact .inr ⟨root, hroot, plain, up.head link⟩

/-- Resolving aliases on the left finds whatever they stand for. -/
theorem subtypeIn_of_walk_alias {count bound : Nat} (h : walk env.target? count a = some b)
    (room : count < bound) : env.subtypeIn bound a b := by
  induction count generalizing a bound with
  | zero =>
      obtain ⟨bound, rfl⟩ := Nat.exists_eq_add_one.mpr room
      obtain rfl : a = b := by simpa [walk] using h
      simp [subtypeIn]
  | succ count ih =>
      obtain ⟨bound, rfl⟩ := Nat.exists_eq_add_one.mpr (Nat.zero_lt_of_lt room)
      rw [walk] at h
      obtain ⟨target, htarget, h⟩ := Option.bind_eq_some_iff.mp h
      rw [subtypeIn_succ, subtypeStep]
      split
      · rfl
      · simp only [htarget]
        exact ih h (by omega)

/-- Going up on the left and resolving aliases on the right finds the type where
they meet, within as many steps as the two ways take together. -/
theorem UnionFree.subtypeIn_of_walks (unionFree : env.UnionFree) (plain : env.target? root = none)
    {up across bound : Nat} {a b : String} (hup : walk env.next? up a = some root)
    (hacross : walk env.target? across b = some root) (room : up + across < bound) :
    env.subtypeIn bound a b := by
  induction bound generalizing up across a b with
  | zero => omega
  | succ bound ih =>
      rw [subtypeIn_succ, unionFree.subtypeStep_eq]
      split
      · rfl
      rename_i hab
      -- a type with a way on is not where the walk ends, so it takes another step
      have further : ∀ {step : String → Option String} {count : Nat} {name next : String},
          walk step count name = some root → name ≠ root → step name = some next →
          ∃ fewer < count, walk step fewer next = some root := by
        intro step count name next hwalk hne hnext
        cases count with
        | zero => exact absurd (by simpa [walk] using hwalk) hne
        | succ fewer => exact ⟨fewer, Nat.lt_succ_self fewer, by simpa [walk, hnext] using hwalk⟩
      have alias_ne : ∀ {name target : String}, env.target? name = some target → name ≠ root := by
        rintro name target ht rfl
        simp [plain] at ht
      cases ta : env.target? a with
      | some target =>
          obtain ⟨fewer, hfewer, hup⟩ := further hup (alias_ne ta) (next?_of_target? ta)
          exact ih hup hacross (by omega)
      | none =>
      cases tb : env.target? b with
      | some target =>
          obtain ⟨fewer, hfewer, hacross⟩ := further hacross (alias_ne tb) tb
          exact ih hup hacross (by omega)
      | none =>
          obtain rfl : b = root := by
            cases across with
            | zero => simpa [walk] using hacross
            | succ across => simp [walk, tb] at hacross
          cases up with
          | zero => exact absurd (by simpa [walk] using hup) hab
          | succ up =>
              rw [walk] at hup
              obtain ⟨base, hbase, hup⟩ := Option.bind_eq_some_iff.mp hup
              rw [next?_of_not_alias ta] at hbase
              simp only [hbase, Option.any_some]
              exact ih hup hacross (by omega)

/-- Without unions, being below a type means that it is above. -/
theorem UnionFree.isSubtype_iff_above (unionFree : env.UnionFree) :
    env.isSubtype a b ↔ env.IsAbove b a := by
  have square : 2 * env.size + 1 < (env.size + 2) * (env.size + 2) := by
    have := Nat.mul_le_mul_left (env.size + 2) (Nat.le_add_left 2 env.size)
    omega
  have aliasKnown : ∀ {x y}, env.target? x = some y → x ∈ env.names :=
    fun h => isType_of_next? (next?_of_target? h)
  constructor
  · exact unionFree.isAbove_of_subtypeIn
  · rintro (path | ⟨root, hroot, plain, up⟩)
    · obtain ⟨count, short, hwalk⟩ := exists_short_walk aliasKnown path
      rw [length_names] at short
      exact subtypeIn_of_walk_alias hwalk (by omega)
    · obtain ⟨across, hacross, hwalk⟩ := exists_short_walk aliasKnown hroot
      obtain ⟨up, hup, hwalk'⟩ := exists_short_walk isType_of_next? up
      rw [length_names] at hacross hup
      exact unionFree.subtypeIn_of_walks plain hwalk' hwalk (by omega)

theorem IsAbove.reaches_end (h : env.IsAbove b a) (hroot : env.Reaches a root)
    (ends : env.next? root = none) : env.Reaches b root := by
  rcases h with path | ⟨middle, hmiddle, -, up⟩
  · exact leads_to_end path.reaches hroot ends
  · exact hmiddle.reaches.trans (leads_to_end up hroot ends)

/-- The types below one with no way on are those whose way up ends there. -/
theorem UnionFree.isSubtype_end_iff (unionFree : env.UnionFree) (ends : env.next? root = none) :
    env.isSubtype a root ↔ env.Reaches a root := by
  have plain := target?_of_next?_none ends
  rw [unionFree.isSubtype_iff_above]
  constructor
  · intro above
    rcases above with path | ⟨other, hother, -, up⟩
    · exact path.reaches
    · exact up.trans (leads_to_end hother.reaches .refl ends)
  · intro up
    exact .inr ⟨root, .refl, plain, up⟩

/-- What is above a type whose way up ends somewhere is below that end, too. -/
theorem UnionFree.isSubtype_end_up (unionFree : env.UnionFree) (ends : env.next? root = none)
    (h : env.isSubtype a b) (hroot : env.isSubtype a root) : env.isSubtype b root := by
  rw [unionFree.isSubtype_end_iff ends] at hroot ⊢
  exact (unionFree.isSubtype_iff_above.mp h).reaches_end hroot ends

theorem UnionFree.isSubtype_trans (unionFree : env.UnionFree) (hab : env.isSubtype a b)
    (hbc : env.isSubtype b c) : env.isSubtype a c := by
  rw [unionFree.isSubtype_iff_above] at hab hbc ⊢
  rcases hab with hab | ⟨root, hroot, plain, up⟩
  · rcases hbc with hbc | ⟨root, hroot, plain, up⟩
    · exact .inl (hab.trans hbc)
    · exact .inr ⟨root, hroot, plain, hab.reaches.trans up⟩
  · rcases hbc with hbc | ⟨root', hroot', plain', up'⟩
    · exact .inr ⟨root, leads_to_end hbc hroot plain, plain, up⟩
    · exact .inr ⟨root', hroot', plain', up.trans (hroot.reaches_of_reaches up' plain')⟩

/-- Two types above a common one are comparable. -/
theorem UnionFree.isSubtype_total (unionFree : env.UnionFree) (ha : env.isSubtype c a)
    (hb : env.isSubtype c b) : env.isSubtype a b ∨ env.isSubtype b a := by
  rw [unionFree.isSubtype_iff_above] at ha hb
  rw [unionFree.isSubtype_iff_above, unionFree.isSubtype_iff_above]
  rcases ha with ha | ⟨root, hroot, plain, up⟩
  · rcases hb with hb | ⟨root, hroot, plain, up⟩
    · exact (Relation.ReflTransGen.total_of_right_unique (leads_rightUnique env.target?) ha hb).imp
        .inl .inl
    · exact .inl (.inr ⟨root, hroot, plain, ha.reaches_of_reaches up plain⟩)
  · rcases hb with hb | ⟨root', hroot', plain', up'⟩
    · exact .inr (.inr ⟨root, hroot, plain, hb.reaches_of_reaches up plain⟩)
    · -- one of the two roots is on the way to the other
      rcases Relation.ReflTransGen.total_of_right_unique (leads_rightUnique env.next?) up up' with
        h | h
      · exact .inl (.inr ⟨root', hroot', plain', hroot.reaches.trans h⟩)
      · exact .inr (.inr ⟨root, hroot, plain, hroot'.reaches.trans h⟩)

/-- Of two types above a common one, the lower one is still above it. -/
theorem UnionFree.exists_mem_commonSubtypes (unionFree : env.UnionFree) (ha : env.isSubtype c a)
    (hb : env.isSubtype c b) : ∃ common ∈ env.commonSubtypes a b, env.isSubtype c common := by
  unfold commonSubtypes lower?
  by_cases hab : env.isSubtype a b
  · exact ⟨a, by simp [hab], ha⟩
  · have hba := (unionFree.isSubtype_total ha hb).resolve_left hab
    exact ⟨b, by simp [hab, hba], hb⟩

/-! ### Aliases and bases, found -/

theorem skipFrom_of_walk {count bound : Nat} {seen : List String}
    (h : walk env.target? count a = some root) (plain : env.target? root = none)
    (passed : ∀ name ∈ seen, Relation.TransGen (Leads env.target?) name a)
    (room : count < bound) : env.skipFrom seen bound a = .ok root := by
  induction count generalizing a seen bound with
  | zero =>
      obtain ⟨bound, rfl⟩ := Nat.exists_eq_add_one.mpr room
      obtain rfl : a = root := by simpa [walk] using h
      rw [skipFrom]
      split
      · rename_i target hfind
        simp [target?_eq_some.mpr hfind] at plain
      · rfl
  | succ count ih =>
      obtain ⟨bound, rfl⟩ := Nat.exists_eq_add_one.mpr (Nat.zero_lt_of_lt room)
      -- a name that was passed leads here, and from here there is no way back
      have cycleFree := no_cycle_before_end (leads_of_walk h) plain
      rw [walk] at h
      obtain ⟨target, htarget, h⟩ := Option.bind_eq_some_iff.mp h
      have fresh : seen.contains a = false := by
        simpa using fun hseen => cycleFree (passed a hseen)
      simp only [skipFrom, target?_eq_some.mp htarget, fresh, Bool.false_eq_true, if_false]
      refine ih h (fun name hname => ?_) (by omega)
      rcases List.mem_cons.mp hname with rfl | hname
      · exact .single htarget
      · exact (passed name hname).tail htarget

/-- Whatever the bound, aliases are resolved if it exceeds the number of types. -/
theorem skipFrom_of_standsFor (h : env.StandsFor a root) (plain : env.target? root = none)
    {bound : Nat} (room : env.size < bound) : env.skipFrom [] bound a = .ok root := by
  obtain ⟨count, short, hwalk⟩ :=
    exists_short_walk (fun h => isType_of_next? (next?_of_target? h)) h
  rw [length_names] at short
  exact skipFrom_of_walk hwalk plain (by simp) (by omega)

theorem skipAliases_of_standsFor (h : env.StandsFor a root) (plain : env.target? root = none) :
    env.skipAliases a = .ok root :=
  skipFrom_of_standsFor h plain (by omega)

theorem reaches_of_baseFrom {bound : Nat} (h : env.baseFrom bound a = .ok root) :
    env.Reaches a root := by
  induction bound generalizing a with
  | zero =>
      obtain rfl : a = root := Except.ok.inj h
      exact .refl
  | succ bound ih =>
      rw [baseFrom] at h
      obtain ⟨middle, hmiddle, h⟩ := bind_eq_ok.mp h
      obtain ⟨path, plain⟩ := skipAliases_standsFor hmiddle
      split at h
      · rename_i base hbase
        have link : env.next? middle = some base := by rw [next?_of_not_alias plain]; exact hbase
        exact path.reaches.trans ((ih h).head link)
      · obtain rfl : middle = root := Except.ok.inj h
        exact path.reaches

/-- After resolving aliases the way to the end is no longer than before. -/
theorem StandsFor.exists_walk_rest {middle : String} (path : env.StandsFor a middle) {count : Nat}
    (h : walk env.next? count a = some root) (ends : env.next? root = none) :
    ∃ rest ≤ count, walk env.next? rest middle = some root := by
  induction path using Relation.ReflTransGen.head_induction_on generalizing count with
  | refl => exact ⟨count, le_rfl, h⟩
  | @head a target link _ ih =>
      cases count with
      | zero =>
          obtain rfl : a = root := by simpa [walk] using h
          simp [next?_of_target? link] at ends
      | succ count =>
          simp only [walk, next?_of_target? link, Option.bind_some] at h
          obtain ⟨rest, hrest, hwalk⟩ := ih h
          exact ⟨rest, by omega, hwalk⟩

theorem baseFrom_of_walk {count bound : Nat} (h : walk env.next? count a = some root)
    (ends : env.next? root = none) (room : count < bound) : env.baseFrom bound a = .ok root := by
  induction bound generalizing count a with
  | zero => omega
  | succ bound ih =>
      obtain ⟨middle, path, plain⟩ :=
        Reaches.exists_root (leads_of_walk h) (target?_of_next?_none ends)
      obtain ⟨rest, hrest, hwalk⟩ := path.exists_walk_rest h ends
      have hparent : (env.find? middle).bind TypeDef.base? = env.next? middle :=
        (next?_of_not_alias plain).symm
      simp only [baseFrom, skipAliases_of_standsFor path plain, bind, Except.bind, hparent]
      cases rest with
      | zero =>
          obtain rfl : middle = root := by simpa [walk] using hwalk
          rw [ends]
      | succ rest =>
          rw [walk] at hwalk
          obtain ⟨base, hbase, hwalk⟩ := Option.bind_eq_some_iff.mp hwalk
          rw [hbase]
          exact ih hwalk (by omega)

/-- Whatever the bound, the end of the way up is found if it exceeds the number of
types. -/
theorem baseFrom_of_reaches (up : env.Reaches a root) (ends : env.next? root = none)
    {bound : Nat} (room : env.size < bound) : env.baseFrom bound a = .ok root := by
  obtain ⟨count, short, hwalk⟩ := exists_short_walk isType_of_next? up
  rw [length_names] at short
  exact baseFrom_of_walk hwalk ends (by omega)

/-- A type is ultimately carved from the end of its way up. -/
theorem baseType_eq_ok_iff (ends : env.next? root = none) :
    env.baseType a = .ok root ↔ env.Reaches a root :=
  ⟨reaches_of_baseFrom, fun up => baseFrom_of_reaches up ends (by omega)⟩

theorem UnionFree.baseType_up (unionFree : env.UnionFree) (h : env.isSubtype a b)
    (ends : env.next? root = none) (hbase : env.baseType a = .ok root) :
    env.baseType b = .ok root := by
  rw [baseType_eq_ok_iff ends] at hbase ⊢
  exact (unionFree.isSubtype_iff_above.mp h).reaches_end hbase ends

/-! ### Records and kinds -/

/-- A record has no way up. -/
theorem next?_of_record {fields : List String} (h : env.find? a = some (.record fields)) :
    env.next? a = none := by
  simp [next?, target?, parent?, h, TypeDef.base?]

theorem recordFields?_eq_some {fields : List String} :
    env.recordFields? a = some fields ↔
      ∃ root, env.StandsFor a root ∧ env.find? root = some (.record fields) := by
  constructor
  · intro h
    unfold recordFields? resolved? at h
    split at h
    · rename_i found hfound
      obtain rfl : found = fields := by simpa using h
      split at hfound
      · rename_i root hroot
        exact ⟨root, (skipAliases_standsFor hroot).1, hfound⟩
      · cases hfound
    · cases h
  · rintro ⟨root, path, hfind⟩
    have plain := target?_of_next?_none (next?_of_record hfind)
    simp [recordFields?, resolved?, skipAliases_of_standsFor path plain, hfind]

/-- What is above a record is an alias of it, so it has the same fields. -/
theorem UnionFree.recordFields?_up (unionFree : env.UnionFree) (h : env.isSubtype a b)
    {fields : List String} (hfields : env.recordFields? a = some fields) :
    env.recordFields? b = some fields := by
  obtain ⟨root, path, hfind⟩ := recordFields?_eq_some.mp hfields
  have ends := next?_of_record hfind
  refine recordFields?_eq_some.mpr ⟨root, ?_, hfind⟩
  rcases unionFree.isSubtype_iff_above.mp h with hab | ⟨other, hother, plain, up⟩
  · exact leads_to_end hab path (target?_of_next?_none ends)
  · obtain rfl := eq_of_leads_of_end (path.reaches_of_reaches up plain) ends
    exact hother

/-- The built-in types are there, as they are. -/
def HasBuiltIns (env : TypeEnv) : Prop :=
  ∀ entry ∈ builtIn.entries, env.find? entry.1 = some entry.2

theorem HasBuiltIns.find?_constant (builtIns : env.HasBuiltIns) {kind : Kind} {constant : String}
    (h : constantName? kind = some constant) : env.find? constant = some (.constant kind) := by
  have member : (constant, TypeDef.constant kind) ∈ builtIn.entries := by
    cases kind <;> simp_all [constantName?, builtIn]
  exact builtIns _ member

/-- A constant type has no way up. -/
theorem next?_of_constant {kind : Kind} (h : env.find? a = some (.constant kind)) :
    env.next? a = none := by
  simp [next?, target?, parent?, h, TypeDef.base?]

/-- A sum type has no way up. -/
theorem next?_of_adt {branches : List Branch} (h : env.find? a = some (.adt branches)) :
    env.next? a = none := by
  simp [next?, target?, parent?, h, TypeDef.base?]

/-- The types that those of a kind are carved from. -/
def IsRootOf (env : TypeEnv) (kind : Kind) (root : String) : Prop :=
  match kind with
  | .record => ∃ fields, env.find? root = some (.record fields)
  | .adt => ∃ branches, env.find? root = some (.adt branches)
  | kind => constantName? kind = some root

theorem HasBuiltIns.next?_root (builtIns : env.HasBuiltIns) {kind : Kind}
    (h : env.IsRootOf kind root) : env.next? root = none := by
  cases kind with
  | record =>
      obtain ⟨fields, h⟩ := h
      exact next?_of_record h
  | adt =>
      obtain ⟨branches, h⟩ := h
      exact next?_of_adt h
  | _ => exact next?_of_constant (builtIns.find?_constant h)

theorem baseDef?_eq_some {definition : TypeDef}
    (ends : ∀ {root}, env.find? root = some definition → env.next? root = none) :
    env.baseDef? a = some definition ↔
      ∃ root, env.find? root = some definition ∧ env.Reaches a root := by
  unfold baseDef?
  constructor
  · intro h
    split at h
    · rename_i root hroot
      exact ⟨root, h, reaches_of_baseFrom hroot⟩
    · cases h
  · rintro ⟨root, hroot, up⟩
    rwa [(baseType_eq_ok_iff (ends hroot)).mpr up]

theorem isOfKind_record_iff :
    env.isOfKind a .record ↔ ∃ fields, env.baseDef? a = some (.record fields) := by
  unfold isOfKind
  cases env.baseDef? a with
  | none => simp
  | some definition => cases definition <;> simp

theorem isOfKind_adt_iff :
    env.isOfKind a .adt ↔ ∃ branches, env.baseDef? a = some (.adt branches) := by
  unfold isOfKind
  cases env.baseDef? a with
  | none => simp
  | some definition => cases definition <;> simp

/-- A type is a record or a sum type if its way up ends in one. -/
theorem isOfKind_composite_iff {kind : Kind} (composite : kind ∉ Kind.primitives) :
    env.isOfKind a kind ↔ ∃ root, env.IsRootOf kind root ∧ env.Reaches a root := by
  cases kind with
  | record =>
      simp only [isOfKind_record_iff, baseDef?_eq_some next?_of_record, IsRootOf]
      constructor
      · rintro ⟨fields, root, hroot, up⟩
        exact ⟨root, ⟨fields, hroot⟩, up⟩
      · rintro ⟨root, ⟨fields, hroot⟩, up⟩
        exact ⟨fields, root, hroot, up⟩
  | adt =>
      simp only [isOfKind_adt_iff, baseDef?_eq_some next?_of_adt, IsRootOf]
      constructor
      · rintro ⟨branches, root, hroot, up⟩
        exact ⟨root, ⟨branches, hroot⟩, up⟩
      · rintro ⟨root, ⟨branches, hroot⟩, up⟩
        exact ⟨branches, root, hroot, up⟩
  | _ => simp [Kind.primitives] at composite

/-- A type is of a kind if its way up ends in a root of the kind. -/
theorem UnionFree.isOfKind_iff (unionFree : env.UnionFree) (builtIns : env.HasBuiltIns)
    {kind : Kind} : env.isOfKind a kind ↔ ∃ root, env.IsRootOf kind root ∧ env.Reaches a root := by
  have primitive : ∀ {kind : Kind} {constant : String}, constantName? kind = some constant →
      (env.isSubtype a constant ↔ ∃ root, constantName? kind = some root ∧ env.Reaches a root) := by
    intro kind constant hconstant
    rw [unionFree.isSubtype_end_iff (next?_of_constant (builtIns.find?_constant hconstant))]
    simp [hconstant]
  cases kind with
  | record => exact isOfKind_composite_iff (by decide)
  | adt => exact isOfKind_composite_iff (by decide)
  | _ => exact primitive rfl

/-- Whatever is above a type of a kind is of that kind. -/
def KindsRise (env : TypeEnv) : Prop :=
  ∀ ⦃low high : String⦄ ⦃kind : Kind⦄, env.isSubtype low high → env.isOfKind low kind →
    env.isOfKind high kind

theorem UnionFree.kindsRise (unionFree : env.UnionFree) (builtIns : env.HasBuiltIns) :
    env.KindsRise := by
  intro low high kind h hkind
  rw [unionFree.isOfKind_iff builtIns] at hkind ⊢
  obtain ⟨root, hroot, up⟩ := hkind
  exact ⟨root, hroot, (unionFree.isSubtype_iff_above.mp h).reaches_end up
    (builtIns.next?_root hroot)⟩

end TypeEnv

end DatalogTyping

import DatalogTyping.Types.Env

/-!
# The lattice of declared types

Which type is below which, what two types have in common, and of what kind a
type is. An alias stands for its target, a type carved from another is below it,
a union is above its elements.

Nothing keeps the structure of an environment from going round in circles, so
every walk along it carries a bound. Each bound is one that no walk can exceed
without passing the same place twice, which is to say without going on forever.
-/

namespace DatalogTyping.TypeEnv

/-! ## Aliases and bases -/

/-- Follow alias targets, with the aliases already passed at hand. -/
def skipFrom (env : TypeEnv) (seen : List String) : Nat → String → Except Fault String
  | 0, name => .error (.circularAlias name)
  | bound + 1, name =>
    match env.find? name with
    | some (.synonym target) =>
      if seen.contains name then .error (.circularAlias name)
      else env.skipFrom (name :: seen) bound target
    | _ => .ok name

/-- The type that a name stands for once all aliases are resolved; `noType` at
the end of a chain whose last alias has no target yet. -/
def skipAliases (env : TypeEnv) (name : String) : Except Fault String :=
  env.skipFrom [] (env.size + 2) name

/-- Follow types to what they are carved from. -/
def baseFrom (env : TypeEnv) : Nat → String → Except Fault String
  | 0, name => .ok name
  | bound + 1, name => do
    let root ← env.skipAliases name
    match (env.find? root).bind TypeDef.base? with
    | some base => env.baseFrom bound base
    | none => .ok root

/-- What a type is ultimately carved from. -/
def baseType (env : TypeEnv) (name : String) : Except Fault String :=
  env.baseFrom (env.size + 2) name

/-- What the type is that a name stands for once all aliases are resolved. -/
def resolved? (env : TypeEnv) (name : String) : Option TypeDef :=
  match env.skipAliases name with
  | .ok root => env.find? root
  | .error _ => none

/-- What the type is that a type is ultimately carved from. -/
def baseDef? (env : TypeEnv) (name : String) : Option TypeDef :=
  match env.baseType name with
  | .ok root => env.find? root
  | .error _ => none

/-- The field types of a record, seen through aliases. -/
def recordFields? (env : TypeEnv) (name : String) : Option (List String) :=
  match env.resolved? name with
  | some (.record fields) => some fields
  | _ => none

/-- Every type that is a record, seen through aliases. -/
def recordTypes (env : TypeEnv) : TypeSet :=
  .ofList ((env.entries.map Prod.fst).filter fun name => (env.recordFields? name).isSome)

/-! ## Subtyping -/

/-- Is the first type below the second? Aliases are replaced by their targets
first. A union is below what all of its elements are below, provided it has any.
A type is below a union if it is below one of its elements, and below whatever
its base is below. -/
def subtypeIn (env : TypeEnv) : Nat → String → String → Bool
  | 0, _, _ => false
  | bound + 1, a, b =>
    if a = b then true
    else
      match env.find? a, env.find? b with
      | some (.synonym target), _ => env.subtypeIn bound target b
      | _, some (.synonym target) => env.subtypeIn bound a target
      | some (.union elements), _ =>
        !elements.isEmpty && elements.all fun element => env.subtypeIn bound element b
      | below, some (.union elements) =>
        (elements.any fun element => env.subtypeIn bound a element) ||
          (match below.bind TypeDef.base? with
            | some base => env.subtypeIn bound base b
            | none => false)
      | below, _ =>
        match below.bind TypeDef.base? with
        | some base => env.subtypeIn bound base b
        | none => false

/-- Is the first type a subtype of the second? A walk that ends looks at no pair
of types twice. -/
def isSubtype (env : TypeEnv) (a b : String) : Bool :=
  env.subtypeIn ((env.size + 2) * (env.size + 2)) a b

/-! ## Greatest common subtypes -/

/-- The types that a type consists of, seen through aliases and unions. -/
def leavesIn (env : TypeEnv) : Nat → String → Except Fault (List String)
  | 0, _ => .ok []
  | bound + 1, name => do
    let root ← env.skipAliases name
    match env.find? root with
    | some (.union elements) => return (← elements.mapM (env.leavesIn bound)).flatten
    | _ => return [root]

/-- The types that a type consists of. -/
def leaves (env : TypeEnv) (name : String) : Except Fault (List String) :=
  env.leavesIn (env.size + 2) name

/-- The lower of two types, if one is below the other. -/
def lower? (env : TypeEnv) (a b : String) : Option String :=
  if env.isSubtype a b then some a
  else if env.isSubtype b a then some b
  else none

/-- The lower types of all pairs of types from two lists. -/
def lowerOf (env : TypeEnv) (as bs : List String) : Names :=
  .ofList (as.flatMap fun a => bs.filterMap fun b => env.lower? a b)

/-- The greatest types below both: the lower of the two, or else the lower ones
of the pairs of types they consist of. -/
def commonSubtypes (env : TypeEnv) (a b : String) : Names :=
  match env.lower? a b with
  | some name => .single name
  | none =>
    match env.leaves a, env.leaves b with
    | .ok as, .ok bs => env.lowerOf as bs
    | _, _ => .empty

/-- The greatest types below a member of each of two sets. -/
def meet (env : TypeEnv) : TypeSet → TypeSet → TypeSet
  | .all, others => others
  | types, .all => types
  | .only types, .only others =>
    .ofList (types.toList.flatMap fun a =>
      others.toList.flatMap fun b => (env.commonSubtypes a b).toList)

/-! ## Kinds -/

/-- Is the type of the given kind? -/
def isOfKind (env : TypeEnv) (name : String) (kind : Kind) : Bool :=
  match kind with
  | .record => match env.baseDef? name with
    | some (.record _) => true
    | _ => false
  | .adt => match env.baseDef? name with
    | some (.adt _) => true
    | _ => false
  | _ => match constantName? kind with
    | some constant => env.isSubtype name constant
    | none => false

/-- The one kind that a type is of. -/
def kindOf (env : TypeEnv) (name : String) : Except Fault Kind := do
  let root ← env.baseType name
  match env.find? root with
  | some (.record _) => return .record
  | some (.adt _) => return .adt
  | _ =>
    match Kind.primitives.find? (env.isOfKind name) with
    | some kind => return kind
    | none => throw (.noSingleKind name)

/-- Could something in the set be of the given kind? The set of all types could
hold anything. -/
def hasKind (env : TypeEnv) (types : TypeSet) (kind : Kind) : Bool :=
  match types with
  | .all => true
  | .only names => names.toList.any fun name => env.isOfKind name kind

/-! ## The same questions, asked of environments that may be broken

An environment built from declarations has no circular alias and no alias
without a target. One that is put together by hand may have both, and then a
question can fail. -/

/-- Is the type of the given kind, if that can be said? -/
def askIsOfKind (env : TypeEnv) (name : String) (kind : Kind) : Except Fault Bool :=
  match kind with
  | .record | .adt => (env.baseType name).map fun _ => env.isOfKind name kind
  | _ => .ok (env.isOfKind name kind)

/-- Could something in the set be of the given kind, if that can be said? -/
def askHasKind (env : TypeEnv) (types : TypeSet) (kind : Kind) : Except Fault Bool :=
  match types with
  | .all => .ok true
  | .only names => names.toList.anyM fun name => env.askIsOfKind name kind

/-- The greatest types below both, if they can be named. -/
def askCommonSubtypes (env : TypeEnv) (a b : String) : Except Fault Names := do
  if (env.lower? a b).isNone then
    unless (← env.leaves a).isEmpty do
      let _ ← env.leaves b
  let common := env.commonSubtypes a b
  if common.contains noType then throw .lacksProperty else return common

/-- The greatest types below a member of each of two sets, if they can be
named. -/
def askMeet (env : TypeEnv) (types others : TypeSet) : Except Fault TypeSet := do
  if let (.only as, .only bs) := (types, others) then
    for a in as.toList do
      for b in bs.toList do
        let _ ← env.askCommonSubtypes a b
  return env.meet types others

/-- Every type that is a record, if that can be said of all types. -/
def askRecordTypes (env : TypeEnv) : Except Fault TypeSet := do
  for entry in env.entries do
    let _ ← env.skipAliases entry.1
  return env.recordTypes

end DatalogTyping.TypeEnv

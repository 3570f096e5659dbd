import DatalogTyping.Types.TypeSet

/-!
# Type environments

Every type by its name, the built-in ones first. Types refer to each other by
name, which allows recursive records and sum types, and also lets an alias exist
before its target does: until then it points at `noType`, the one name that no
type can have.
-/

namespace DatalogTyping

/-- A branch of a sum type. -/
structure Branch where
  name : String
  /-- The types of the fields. -/
  types : List String
  deriving DecidableEq, Repr

/-- A branch as text, such as `Cons` with its field types between braces. -/
def Branch.text (branch : Branch) : String :=
  branch.name ++ "\x7b" ++ ", ".intercalate branch.types ++ "\x7d"

/-- What a type is. -/
inductive TypeDef where
  /-- The root of a primitive kind, such as the type of all numeric constants. -/
  | constant (kind : Kind)
  /-- A built-in type, carved from a constant type. -/
  | primitive (base : String)
  /-- A declared type, carved from another. -/
  | subset (base : String)
  /-- Another name for a type. -/
  | synonym (target : String)
  /-- A type that holds the values of its elements. -/
  | union (elements : List String)
  /-- A record with the given field types. -/
  | record (fields : List String)
  /-- A sum type. -/
  | adt (branches : List Branch)
  deriving DecidableEq, Repr

namespace TypeDef

/-- The name of the class of such types. -/
def className : TypeDef → String
  | constant _ => "ConstantType"
  | primitive _ => "PrimitiveType"
  | subset _ => "SubsetType"
  | synonym _ => "AliasType"
  | union _ => "UnionType"
  | record _ => "RecordType"
  | adt _ => "AlgebraicDataType"

/-- The type that a type is carved from, if it is carved from one. -/
def base? : TypeDef → Option String
  | primitive base | subset base => some base
  | _ => none

end TypeDef

/-- The name that no type has. -/
def noType : String := ""

/-- Every type by its name, in the order they came into being. -/
structure TypeEnv where
  entries : List (String × TypeDef)
  deriving DecidableEq

namespace TypeEnv

/-- What the type of a name is. -/
def find? (env : TypeEnv) (name : String) : Option TypeDef :=
  env.entries.lookup name

/-- Is there a type of that name? -/
def isType (env : TypeEnv) (name : String) : Bool :=
  (env.find? name).isSome

/-- The number of types. -/
def size (env : TypeEnv) : Nat := env.entries.length

/-- What the type of a name is, which has to exist. -/
def get (env : TypeEnv) (name : String) : Except Fault TypeDef :=
  match env.find? name with
  | some definition => .ok definition
  | none => .error (.unknownType name)

/-- Require that there is a type of that name. -/
def require (env : TypeEnv) (name : String) : Except Fault String :=
  (env.get name).map fun _ => name

/-- The set of the named types, which have to exist. -/
def setOf (env : TypeEnv) (names : List String) : Except Fault TypeSet :=
  (names.mapM env.require).map TypeSet.ofList

/-- A type shown with its class. -/
def shown (env : TypeEnv) (name : String) : String :=
  match env.find? name with
  | some definition => s!"<{definition.className} {name}>"
  | none => name

/-- Bring a type into being. -/
def install (env : TypeEnv) (name : String) (definition : TypeDef) : Except Fault TypeEnv :=
  if name.isEmpty then .error .emptyText
  else if env.isType name then .error (.definedTwice name)
  else .ok ⟨env.entries ++ [(name, definition)]⟩

/-- Change what the types of a name are. -/
def redefine (env : TypeEnv) (name : String) (change : TypeDef → TypeDef) : TypeEnv :=
  ⟨env.entries.map fun (other, definition) =>
    (other, if other = name then change definition else definition)⟩

/-- Point an alias at a target. Other types have no target. -/
def setTarget (env : TypeEnv) (name target : String) : TypeEnv :=
  env.redefine name fun
    | .synonym _ => .synonym target
    | other => other

/-- Give a union its elements. Other types have none. -/
def setElements (env : TypeEnv) (name : String) (elements : List String) : TypeEnv :=
  env.redefine name fun
    | .union _ => .union elements
    | other => other

/-- Give a record its fields. Other types have none. -/
def setFields (env : TypeEnv) (name : String) (fields : List String) : TypeEnv :=
  env.redefine name fun
    | .record _ => .record fields
    | other => other

/-- Give a sum type its branches. Other types have none. -/
def setBranches (env : TypeEnv) (name : String) (branches : List Branch) : TypeEnv :=
  env.redefine name fun
    | .adt _ => .adt branches
    | other => other

/-- A branch of a sum type, if it has one of that name. Other types cannot be
asked. -/
def branch? (env : TypeEnv) (name branch : String) : Except Fault (Option Branch) :=
  match env.find? name with
  | some (.adt branches) => .ok (branches.find? fun entry => entry.name = branch)
  | _ => .error .lacksProperty

/-! ## Built-in types -/

/-- The name of the constant type of a primitive kind. -/
def constantName? : Kind → Option String
  | .symbol => some "__symbolConstant"
  | .signed => some "__numberConstant"
  | .unsigned => some "__unsignedConstant"
  | .float => some "__floatConstant"
  | .record | .adt => none

/-- The constant type of a kind. -/
def constantType (kind : Kind) : Except Fault String :=
  match constantName? kind with
  | some name => .ok name
  | none => .error (.noConstantType kind)

/-- The set of the constant types of the given kinds. -/
def constantTypes (kinds : List Kind) : TypeSet :=
  .ofList (kinds.filterMap constantName?)

/-- The environment of the built-in types alone. -/
def builtIn : TypeEnv := ⟨[
  ("__symbolConstant", .constant .symbol), ("symbol", .primitive "__symbolConstant"),
  ("__numberConstant", .constant .signed), ("number", .primitive "__numberConstant"),
  ("__unsignedConstant", .constant .unsigned), ("unsigned", .primitive "__unsignedConstant"),
  ("__floatConstant", .constant .float), ("float", .primitive "__floatConstant")]⟩

end TypeEnv

end DatalogTyping

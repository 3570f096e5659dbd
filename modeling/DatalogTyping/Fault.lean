import DatalogTyping.Kind
import DatalogTyping.Text.Lines
import DatalogTyping.Text.Quoted

/-!
# Faults

Everything that can go wrong, as causes. What a fault says is the business of
`Fault.message` alone; `Fault.category` sorts the causes into the few families
a caller tells apart.
-/

namespace DatalogTyping

/-- Why an operation failed. -/
inductive Fault where
  /-- A name or numeral that has to have some text has none. -/
  | emptyText
  /-- A functor is declared without a name. -/
  | emptyFunctorName
  /-- Something other than an atom stands where only an atom may. -/
  | notAnAtom
  /-- A functor is declared without a return type. -/
  | missingReturnType
  /-- A sum type is declared without branches. -/
  | noBranches
  /-- A text names no member of the named family of operators or kinds. -/
  | notAMember (text family : String)
  /-- No type goes by this name. -/
  | unknownType (name : String)
  /-- A type of this name exists already. -/
  | definedTwice (name : String)
  /-- Only primitive kinds have a constant type. -/
  | noConstantType (kind : Kind)
  /-- Following alias targets leads back to this alias. -/
  | circularAlias (name : String)
  /-- The type is not of exactly one kind. -/
  | noSingleKind (name : String)
  /-- The set of all types has no size. -/
  | countAll
  /-- The set of all types has no list of members. -/
  | enumerateAll
  /-- The operator, shown in full, has no variants. -/
  | notOverloaded (operator : String)
  /-- Comparisons have variants for primitive kinds only. -/
  | noComparisonVariant (kind : Kind)
  /-- The aggregate has no variant for the kind asked for. -/
  | noAggregateVariant
  /-- A clause has another number of arguments than its typing. -/
  | typingSize
  /-- A clause has another number of arguments than the clause it is to take
  its typing from. -/
  | twinSize
  /-- Two arguments at the same position are of different classes. -/
  | twinClass (mine theirs : String)
  /-- An aggregate that has variants has nothing to choose one by. -/
  | missingTarget (aggregate : String)
  /-- An operator that has no variants is recorded as another one. -/
  | fixedOperatorChanged (node : String)
  /-- The last round of solving did not see this argument. -/
  | neverAnalysed (argument : String)
  /-- No overload has been chosen for this functor. -/
  | functorUnresolved (functor : String)
  /-- No representation has been chosen for this numeral. -/
  | constantUnresolved (numeral : String)
  /-- No variant has been chosen for the operator of this node. -/
  | operatorUnresolved (node : String)
  /-- The functor called is not declared, or declared with unknown types. -/
  | noUsableDeclaration (call : String)
  /-- The resolutions still changed in the last round allowed. -/
  | unsettled (rounds : Nat)
  /-- A table has no entry for what was asked. -/
  | noEntry
  /-- A position lies outside the list it refers to. -/
  | outOfRange
  /-- The thing asked has no such property. -/
  | lacksProperty
  /-- The report has reached its limit. -/
  | tooManyIssues
  /-- There are issues where there must be none. -/
  | issuesRemain (complaint : String)
  /-- No file is at the path. -/
  | noSuchFile
  /-- A directory is at the path. -/
  | isDirectory
  /-- The path leads through a file as if it were a directory. -/
  | notDirectory
  /-- The path, or a name in it, is longer than any can be. -/
  | pathTooLong
  /-- The path contains the null character. -/
  | nullInPath
  /-- The command line cannot be understood, for the reason given. -/
  | usage (reason : String)
  /-- The command line asks for help only. -/
  | helpWanted
  /-- The limit on rounds is no number. -/
  | limitWithoutValue
  /-- Narrowing goes on forever. -/
  | endless
  deriving DecidableEq, Repr, Inhabited

namespace Fault

/-- The families of faults that callers tell apart. -/
inductive Category where
  | violation
  | badValue
  | unsettled
  | missingKey
  | badIndex
  | missingProperty
  | badOperand
  | tooManyIssues
  | noSuchFile
  | isDirectory
  | notDirectory
  | badPath
  | exit (code : Nat)
  | endless
  deriving DecidableEq, Repr

/-- The family a fault belongs to. -/
def category : Fault → Category
  | notAMember _ _ | nullInPath => .badValue
  | unsettled _ => .unsettled
  | noAggregateVariant | noEntry => .missingKey
  | outOfRange => .badIndex
  | lacksProperty => .missingProperty
  | limitWithoutValue => .badOperand
  | tooManyIssues => .tooManyIssues
  | noSuchFile => .noSuchFile
  | isDirectory => .isDirectory
  | notDirectory => .notDirectory
  | pathTooLong => .badPath
  | usage _ => .exit 2
  | helpWanted => .exit 0
  | endless => .endless
  | _ => .violation

/-- What a fault says; empty where there is nothing to add to its family. -/
def message : Fault → String
  | emptyFunctorName => "functor name is empty"
  | notAMember text family => s!"{Text.quoted text} is not a valid {family}"
  | unknownType name => s!"Unknown type {Text.quoted name}"
  | definedTwice name => s!"Type {name} defined twice"
  | noConstantType kind => s!"No constant type for {kind.name}"
  | circularAlias name => s!"Circular alias {name}"
  | noSingleKind name => s!"Type {name} has no single kind"
  | countAll => "Cannot count all types"
  | enumerateAll => "Cannot enumerate all types"
  | notOverloaded operator => operator
  | noComparisonVariant kind => s!"invalid binary constraint overload: {kind.name}"
  | typingSize => "Size mismatch between clause and its types"
  | twinSize => "Size mismatch between clause and its clone"
  | twinClass mine theirs => s!"({mine}, {theirs})"
  | missingTarget aggregate => s!"Overloaded aggregate {aggregate} lacks a target"
  | fixedOperatorChanged node => s!"Fixed operator {node} changed"
  | neverAnalysed argument => s!"Argument {argument} was never analysed"
  | functorUnresolved functor => s!"Functor {functor} is not resolved"
  | constantUnresolved numeral => s!"Numeric constant {numeral} is not resolved"
  | operatorUnresolved node => s!"Operator of {node} is not resolved"
  | noUsableDeclaration call => s!"No usable declaration for {call}"
  | unsettled rounds => s!"Type analysis did not settle after {rounds} iterations"
  | issuesRemain complaint => complaint
  | nullInPath => "embedded null byte"
  | usage reason => Text.lastLine s!"hornet: error: {reason}"
  | emptyText | notAnAtom | missingReturnType | noBranches | noAggregateVariant | noEntry
  | outOfRange | lacksProperty | tooManyIssues | noSuchFile | isDirectory | notDirectory
  | pathTooLong | helpWanted | limitWithoutValue | endless => ""

end Fault

/-- The kind of the given name. -/
def Kind.ofName (text : String) : Except Fault Kind :=
  match ofName? text with
  | some kind => .ok kind
  | none => .error .noEntry

/-- The representation shown by the given name. -/
def NumericKind.ofName (text : String) : Except Fault NumericKind :=
  match all.find? fun representation => representation.name = text with
  | some representation => .ok representation
  | none => .error (.notAMember text "NumericKind")

end DatalogTyping

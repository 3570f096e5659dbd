import DatalogTyping.Fault

/-!
# Options

The settings of a run.
-/

namespace DatalogTyping

/-- The settings of a run. -/
structure Options where
  /-- The reports to show. One that was asked for without saying which is in the
  list, but is none in particular. -/
  shows : List (Option String) := []
  /-- Is every report wanted? -/
  debugReport : Bool := false
  /-- The number of rounds after which to give up. -/
  maxIterations : Nat := 100
  /-- How much chatter is wanted. -/
  verbose : Nat := 0
  deriving DecidableEq, Repr

/-- A value that a setting can be compared with. -/
inductive OptionValue where
  | text (value : String)
  | number (value : Int)
  | flag (value : Bool)
  deriving DecidableEq, Repr

namespace Options

/-- The number that a setting counts as. -/
def number? (options : Options) (key : String) : Option Int :=
  match key with
  | "debug_report" => some options.debugReport.toInt
  | "max_iterations" => some options.maxIterations
  | "verbose" => some options.verbose
  | _ => none

/-- The name of a setting, in which dashes and underscores are the same. -/
def settingName (key : String) : String :=
  String.ofList (key.toList.map fun c => if c = '-' then '_' else c)

/-- The text that a name stands for by itself, whatever the settings are. -/
def fixedText? (key : String) : Option String :=
  match key with
  | "__module__" => some "argparse"
  | "__doc__" => some ("Simple object for storing attributes.\n\n" ++
      "    Implements equality by attribute names and values, and provides a simple\n" ++
      "    string representation.\n    ")
  | _ => none

/-- The other names that stand for something by themselves: what a collection of
settings is made of, and what it can be asked to do. -/
def fixedNames : List String :=
  ["__class__", "__contains__", "__delattr__", "__dict__", "__dir__", "__eq__", "__format__",
    "__ge__", "__getattribute__", "__getstate__", "__gt__", "__init__", "__init_subclass__",
    "__le__", "__lt__", "__ne__", "__new__", "__reduce__", "__reduce_ex__", "__repr__",
    "__setattr__", "__sizeof__", "__str__", "__subclasshook__", "_get_args", "_get_kwargs"]

/-- Was the option given at all? A name that stands for something by itself
counts as given. -/
def isGiven (options : Options) (key : String) : Bool :=
  let key := settingName key
  if key = "show" then !options.shows.isEmpty
  else match options.number? key with
    | some number => number ≠ 0
    | none => (fixedText? key).isSome || fixedNames.contains key

/-- Was the option given that value? One that can be repeated has each of the
values it was given; a flag counts as zero or one. -/
def has (options : Options) (key : String) (value : OptionValue) : Bool :=
  let key := settingName key
  if key = "show" then
    match value with
    | .text text => options.shows.contains (some text)
    | _ => false
  else match value with
    | .text text => fixedText? key = some text
    | .number other => options.number? key = some other
    | .flag other => options.number? key = some other.toInt

/-- Is a report on the type analysis to be shown? -/
def showsTypeAnalysis (options : Options) : Bool :=
  options.shows.contains (some "type-analysis")

/-- Is an account of the type analysis to be kept? -/
def wantsTypeAnalysis (options : Options) : Bool :=
  options.debugReport || options.showsTypeAnalysis

end Options

end DatalogTyping

import DatalogTyping.Numeral
import DatalogTyping.Options.Basic

/-!
# Reading a command line

The words of a command line are classified first: an option, with or without a
value attached, a plain word, or the double dash after which every word is
plain. Then the options take effect one after another, each taking the plain
word after it as its value if it needs one. Words that are left over are an
error.

A long option may be cut short as long as it is clear which one is meant. Short
options without values may be written together.
-/

namespace DatalogTyping

/-- The options there are. -/
inductive Switch where
  | help
  | shows
  | debugReport
  | maxIterations
  | verbose
  deriving DecidableEq, Repr

namespace Switch

/-- The spellings of the options. -/
def spellings : List (String × Switch) :=
  [("-h", help), ("--help", help), ("--show", shows), ("--debug-report", debugReport),
    ("--max-iterations", maxIterations), ("-v", verbose), ("--verbose", verbose)]

/-- The option of a spelling. -/
def ofSpelling? (spelling : String) : Option Switch := spellings.lookup spelling

/-- The option as messages call it. -/
def title : Switch → String
  | help => "-h/--help"
  | shows => "--show"
  | debugReport => "--debug-report"
  | maxIterations => "--max-iterations"
  | verbose => "-v/--verbose"

/-- Does the option need a value? -/
def takesValue : Switch → Bool
  | shows | maxIterations => true
  | _ => false

/-- The complaint about an option. -/
def complaint {α : Type} (switch : Switch) (reason : String) : Except Fault α :=
  .error (.usage s!"argument {switch.title}: {reason}")

/-- The complaint about a value that an option does not take. -/
def ignored {α : Type} (switch : Switch) (value : String) : Except Fault α :=
  switch.complaint s!"ignored explicit argument {Text.quoted value}"

end Switch

/-! ## Words -/

/-- A word of a command line. -/
inductive Word where
  | plain (text : String)
  /-- The double dash. -/
  | dashes
  /-- An option, spelled as given, with the value attached to it. -/
  | option (switch : Switch) (spelling : String) (attached : Option String)
  /-- Something that looks like an option but is none. -/
  | unknown (text : String)
  deriving DecidableEq, Repr

namespace Word

/-- A word at the first equals sign: what stands before it and what stands
after it. -/
def splitAtEquals (word : String) : String × Option String :=
  let before := word.toList.takeWhile (· != '=')
  match word.toList.drop before.length with
  | [] => (word, none)
  | _ :: rest => (String.ofList before, some (String.ofList rest))

/-- Does the word look like a negative number? A line feed at its end does not
count. -/
def looksNegative (word : String) : Bool :=
  let cs := if word.toList.getLast? = some '\n' then word.toList.dropLast else word.toList
  match cs with
  | '-' :: digits =>
    let fraction := (digits.dropWhile Text.isDigit)
    match fraction with
    | [] => !digits.isEmpty
    | '.' :: rest => !rest.isEmpty && rest.all Text.isDigit
    | _ => false
  | _ => false

/-- The options that a word can be a short form of. -/
def candidates (word : String) : List Word :=
  if word.startsWith "--" then
    let (name, attached) := splitAtEquals word
    (Switch.spellings.filter fun (spelling, _) => spelling.startsWith name).map
      fun (spelling, switch) => option switch spelling attached
  else
    let name := String.ofList (word.toList.take 2)
    (Switch.spellings.filter fun (spelling, _) => spelling = name).map
      fun (spelling, switch) => option switch spelling (some (String.ofList (word.toList.drop 2)))

/-- The spelling of an option. -/
def spelling : Word → String
  | option _ spelling _ => spelling
  | _ => ""

/-- What a word with a dash in front is. -/
def classifyDashed (word : String) : Except Fault Word :=
  match Switch.ofSpelling? word, splitAtEquals word with
  | some switch, _ => .ok (option switch word none)
  | none, (name, attached) =>
    if word.length = 1 then .ok (plain word)
    else match attached, Switch.ofSpelling? name with
      | some _, some switch => .ok (option switch name attached)
      | _, _ =>
        match candidates word with
        | [found] => .ok found
        | [] =>
          .ok (if looksNegative word || word.toList.contains ' ' then plain word
            else unknown word)
        | found =>
          let matching := ", ".intercalate (found.map spelling)
          .error (.usage s!"ambiguous option: {word} could match {matching}")

/-- What the words of a command line are. -/
def classify : List String → Except Fault (List Word)
  | [] => .ok []
  | "--" :: rest => .ok (dashes :: rest.map plain)
  | word :: rest => do
    let first ← if word.startsWith "-" then classifyDashed word else .ok (plain word)
    let others ← classify rest
    return first :: others

end Word

/-! ## Effects -/

/-- The settings while a command line is being read. -/
structure Reading where
  options : Options := {}
  /-- Was the limit on rounds left without a number? -/
  limitless : Bool := false
  /-- The words that nothing has made use of. -/
  extras : List String := []

namespace Reading

/-- The settings with one more word left over. -/
def leave (reading : Reading) (word : String) : Reading :=
  { reading with extras := reading.extras ++ [word] }

/-- The effect of an option without a value. -/
def turnOn (reading : Reading) (switch : Switch) : Except Fault Reading :=
  let options := reading.options
  match switch with
  | .help => .error .helpWanted
  | .debugReport => .ok { reading with options := { options with debugReport := true } }
  | .verbose => .ok { reading with options := { options with verbose := options.verbose + 1 } }
  | .shows | .maxIterations => switch.complaint "expected one argument"

/-- The effect of an option with a value. A double dash is no value. -/
def setTo (reading : Reading) (switch : Switch) (value : String) : Except Fault Reading :=
  let options := reading.options
  match switch with
  | .shows =>
    let entry := if value = "--" then none else some value
    .ok { reading with options := { options with shows := options.shows ++ [entry] } }
  | .maxIterations =>
    if value = "--" then .ok { reading with limitless := true }
    else match Numeral.decimal? value with
      | none => switch.complaint s!"invalid _positive value: {Text.quoted value}"
      | some number =>
        if number < 1 then switch.complaint s!"need at least one round, not {number}"
        else .ok { reading with
          options := { options with maxIterations := number.toNat }
          limitless := false }
  | .help | .debugReport | .verbose => switch.ignored value

/-- The short options written together after one of them. -/
def together (switch : Switch) : List Char → Except Fault (List Switch)
  | [] => .ok [switch]
  | c :: rest =>
    match Switch.ofSpelling? (String.ofList ['-', c]) with
    | some next => do return switch :: (← together next rest)
    | none => switch.ignored (String.ofList (c :: rest))

/-- Let the words of a command line take effect. -/
def take (reading : Reading) : List Word → Except Fault Reading
  | [] => .ok reading
  | .plain text :: rest => (reading.leave text).take rest
  | .dashes :: rest => (reading.leave "--").take rest
  | .unknown text :: rest => (reading.leave text).take rest
  | [.option switch _ none] =>
    if switch.takesValue then switch.complaint "expected one argument"
    else do (← reading.turnOn switch).take []
  | .option switch _ none :: word :: rest =>
    if switch.takesValue then
      match word with
      | .plain value => do (← reading.setTo switch value).take rest
      | _ => switch.complaint "expected one argument"
    else do (← reading.turnOn switch).take (word :: rest)
  | .option switch spelling (some value) :: rest =>
    if switch.takesValue then do (← reading.setTo switch value).take rest
    else if spelling.startsWith "--" || value.isEmpty then switch.ignored value
    else do
      let switches ← together switch value.toList
      (← switches.foldlM turnOn reading).take rest

end Reading

/-- The settings that a command line asks for. -/
def Options.parse (arguments : List String) : Except Fault Options := do
  let reading ← Reading.take {} (← Word.classify arguments)
  unless reading.extras.isEmpty do
    throw (.usage ("unrecognized arguments: " ++ " ".intercalate reading.extras))
  if reading.limitless then throw .limitWithoutValue
  return reading.options

end DatalogTyping

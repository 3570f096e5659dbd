import DatalogTyping.Fault
import DatalogTyping.Text.Blank
import DatalogTyping.Text.Path

/-!
# Source files

Where a position of a file lies, by row and column, and how a place in a line is
pointed at. A line ends with a line feed, with a carriage return, or with both;
positions count characters after line ends have become line feeds. Files are
found by walking along their paths, directory by directory.
-/

namespace DatalogTyping

/-- The characters of a file with every line end turned into a line feed. -/
def unifyNewlines : List Char → List Char
  | '\r' :: '\n' :: rest => '\n' :: unifyNewlines rest
  | '\r' :: rest => '\n' :: unifyNewlines rest
  | c :: rest => c :: unifyNewlines rest
  | [] => []

/-- The positions after each line feed, for characters that start at the given
position. -/
def startsAfter : Nat → List Char → List Nat
  | _, [] => []
  | position, c :: rest =>
    if c = '\n' then (position + 1) :: startsAfter (position + 1) rest
    else startsAfter (position + 1) rest

/-- The text of a file. -/
structure SourceText where
  chars : List Char

namespace SourceText

/-- The text of a file with the given content. -/
def ofContent (content : String) : SourceText := ⟨unifyNewlines content.toList⟩

/-- The positions at which lines start. -/
def starts (source : SourceText) : List Nat :=
  0 :: startsAfter 0 source.chars

/-- The row and the column of a position. Rows count from one. A position before
the first line is in row zero, its column counted from the end of the text. -/
def locate (source : SourceText) (position : Int) : Nat × Int :=
  let before := source.starts.filter fun (start : Nat) => decide ((start : Int) ≤ position)
  match before.getLast? with
  | some start => (before.length, position - start)
  | none => (0, position - source.chars.length)

/-- The characters of a row, the line feed included. Row zero is the first line
too. -/
def line (source : SourceText) (row : Nat) : List Char :=
  let index := row - 1
  let bounds := source.starts ++ [source.chars.length]
  let start := bounds[index]?.getD source.chars.length
  let stop := bounds[index + 1]?.getD source.chars.length
  (source.chars.drop start).take (stop - start)

end SourceText

/-- The characters before a column; a negative column counts from the end. -/
def beforeColumn (line : List Char) : Int → List Char
  | .ofNat column => line.take column
  | .negSucc column => line.take (line.length - (column + 1))

/-- A row number in its field, six characters wide with at least one blank. -/
def rowField (row : Nat) : String :=
  let digits := " " ++ toString row
  String.ofList (List.replicate (6 - digits.length) ' ') ++ digits ++ " |"

/-- A line with a caption under it that points at a stretch of characters. Tabs
before the stretch are kept, so that the marks stand under it. -/
def illustration (lead : String) (line : List Char) (column width : Int) (caption : String) :
    String :=
  let blanks := (lead.toList ++ beforeColumn line column).map fun c =>
    if c = '\t' then '\t' else ' '
  let carets := max 1 (min width (line.length - column))
  lead ++ String.ofList (Text.dropEndWhile Text.isBlank line) ++ "\n" ++ String.ofList blanks ++
    String.ofList (List.replicate carets.toNat '^') ++ " " ++ caption

/-! ## Files -/

/-- Where a path leads: to a place below the working directory, or to one of the
directories around it, about which no more is known than that they are there. -/
inductive Place where
  | inside (path : List String)
  | outside
  deriving DecidableEq, Repr

namespace Place

/-- The directory a place is in. -/
def parent : Place → Place
  | inside (part :: rest) => inside (part :: rest).dropLast
  | _ => outside

/-- The place at which a path starts. -/
def start (path : String) : Place :=
  if Text.pathRoot path.toList = "" then inside [] else outside

end Place

/-- The directories and files there are below the working directory. -/
structure Files where
  directories : List (List String) := []
  /-- The contents of the files, those last written first. -/
  contents : List (List String × String) := []

namespace Files

/-- Make directories along components, from a place on; the place reached. -/
def enter (files : Files) (place : Place) : List String → Files × Place
  | [] => (files, place)
  | part :: rest =>
    if part = ".." then files.enter place.parent rest
    else match place with
      | .outside => files.enter .outside rest
      | .inside path =>
        let path := path ++ [part]
        enter { files with directories := path :: files.directories } (.inside path) rest

/-- Write a file, in place of an older one at the same place. The directories on
the way to it are made. -/
def write (files : Files) (path content : String) : Files :=
  let parts := Text.pathParts path
  match parts.getLast?, files.enter (.start path) parts.dropLast with
  | some name, (files, .inside directory) =>
    { files with contents := (directory ++ [name], content) :: files.contents }
  | _, (files, _) => files

/-- The files with the given paths and contents, written in this order. -/
def ofList (entries : List (String × String)) : Files :=
  entries.foldl (fun files (path, content) => files.write path content) {}

/-- Is there a directory at the place? -/
def isDirectory (files : Files) : Place → Bool
  | .outside => true
  | .inside path => path.isEmpty || files.directories.contains path

/-- The content of the file at the place. -/
def content? (files : Files) : Place → Option String
  | .outside => none
  | .inside path => files.contents.lookup path

/-- The number of bytes that a name in a path has at most. -/
def maxNameBytes : Nat := 255

/-- The number of bytes that a path has at most. -/
def maxPathBytes : Nat := 4095

/-- The place that is reached from another by going on along components. -/
def walk (files : Files) (place : Place) : List String → Except Fault Place
  | [] => .ok place
  | part :: rest =>
    if !files.isDirectory place then
      .error (if (files.content? place).isSome then .notDirectory else .noSuchFile)
    else if part = ".." then files.walk place.parent rest
    else if part.utf8ByteSize > maxNameBytes then .error .pathTooLong
    else match place with
      | .outside => .error .noSuchFile
      | .inside path => files.walk (.inside (path ++ [part])) rest

/-- The text of the file at a path in shown form. -/
def read (files : Files) (path : String) : Except Fault SourceText := do
  if path.toList.contains '\x00' then throw .nullInPath
  if path.utf8ByteSize > maxPathBytes then throw .pathTooLong
  let place ← files.walk (.start path) (Text.pathParts path)
  match files.content? place with
  | some content => return .ofContent content
  | none => throw (if files.isDirectory place then .isDirectory else .noSuchFile)

end Files

end DatalogTyping

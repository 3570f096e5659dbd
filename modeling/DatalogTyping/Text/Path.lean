/-!
# Paths

File paths as they are shown and compared: empty components and components
naming the current directory do not count, and neither does a slash at the end.
A path starts at the root if it starts with a slash; exactly two slashes mean a
root of their own.
-/

namespace DatalogTyping.Text

/-- The root a path starts at; empty for a relative path. -/
def pathRoot (cs : List Char) : String :=
  match (cs.takeWhile (· == '/')).length with
  | 0 => ""
  | 2 => "//"
  | _ => "/"

/-- The components of a path that count. -/
def pathParts (path : String) : List String :=
  (path.splitOn "/").filter fun part => part ≠ "" && part ≠ "."

/-- The path in its shown form. The path with neither root nor components is the
current directory. -/
def normalPath (path : String) : String :=
  let shown := pathRoot path.toList ++ "/".intercalate (pathParts path)
  if shown.isEmpty then "." else shown

end DatalogTyping.Text

/-!
# Lines

How a text breaks into lines. Besides the line feed and the carriage return, the
vertical tab, the form feed, the file, group and record separators, the next-line
control and the line and paragraph separators end a line.
-/

namespace DatalogTyping.Text

/-- Does the character end a line? -/
def endsLine (c : Char) : Bool :=
  let n := c.toNat
  (0x0A ≤ n && n ≤ 0x0D) || (0x1C ≤ n && n ≤ 0x1E) || n == 0x85 || n == 0x2028 || n == 0x2029

/-- The lines of a text, without what ends them. A carriage return and the line
feed after it are one end; after the last end there is no further line unless
some character follows. -/
def lines : List Char → List (List Char)
  | [] => []
  | '\r' :: '\n' :: rest => [] :: lines rest
  | c :: rest =>
    if endsLine c then [] :: lines rest
    else match lines rest with
      | [] => [[c]]
      | line :: others => (c :: line) :: others

/-- The last line of a text that a line feed closes. -/
def lastLine (text : String) : String :=
  String.ofList ((lines (text.toList ++ ['\n'])).getLast?.getD [])

end DatalogTyping.Text

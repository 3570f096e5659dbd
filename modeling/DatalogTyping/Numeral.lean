import DatalogTyping.Kind
import DatalogTyping.Text.Blank
import DatalogTyping.Text.Digit

/-!
# Numerals

How the text of a numeric constant is read. An integer is written in decimal, or
with one of the letters `x`, `o`, `b` after a zero in the base that letter
stands for; a float is written in decimal, with a fraction, an exponent, both or
neither, or is one of the words for infinity and for no number. Single
underscores may stand between digits. Digits of every script are digits, and
blanks around the numeral are skipped. An integer in decimal has a limited
number of digits, zeros in front included.
-/

namespace DatalogTyping.Numeral

open DatalogTyping.Text

/-- One character in its plain form: a digit of any script becomes the ASCII
digit of the same value. -/
def plainChar (c : Char) : Char :=
  match digitValue? c with
  | some value => Nat.digitChar value
  | none => c

/-- The numeral without the blanks around it, in plain characters. -/
def plain (text : String) : List Char :=
  (trimWhile isNumeralBlank text.toList).map plainChar

/-- The value of a digit in some base up to sixteen; letters are digits from ten
on, in either case. -/
def digitOf? (c : Char) : Option Nat :=
  let n := c.toNat
  if 48 ≤ n && n ≤ 57 then some (n - 48)
  else if 97 ≤ n && n ≤ 102 then some (n - 87)
  else if 65 ≤ n && n ≤ 70 then some (n - 55)
  else none

/-- The value of a digit in the given base. -/
def digitIn? (base : Nat) (c : Char) : Option Nat :=
  (digitOf? c).filter (· < base)

/-- Read on after a digit, with `value` read so far: a digit follows, or an
underscore and a digit, or nothing. -/
def readMore? (base : Nat) (value : Nat) : List Char → Option Nat
  | [] => some value
  | ['_'] => none
  | '_' :: c :: rest =>
    match digitIn? base c with
    | some digit => readMore? base (value * base + digit) rest
    | none => none
  | c :: rest =>
    match digitIn? base c with
    | some digit => readMore? base (value * base + digit) rest
    | none => none

/-- The value of a run of digits with single underscores between them. -/
def readDigits? (base : Nat) : List Char → Option Nat
  | [] => none
  | c :: rest => (digitIn? base c).bind fun digit => readMore? base digit rest

/-- The most digits that an integer in decimal may have. -/
def maxDigits : Nat := 4300

/-- The value of a run of decimal digits, if there are not too many. Underscores
do not count. -/
def readDecimal? (cs : List Char) : Option Nat :=
  if cs.countP (· ≠ '_') ≤ maxDigits then readDigits? 10 cs else none

/-- The value of the digits after a base letter; one underscore may stand in
front of them. -/
def readBased? (base : Nat) : List Char → Option Nat
  | '_' :: rest => readDigits? base rest
  | digits => readDigits? base digits

/-- The value of an integer without its sign, as a literal has it: in one of the
bases, or in decimal with no zero in front of a number that is not zero. -/
def readLiteral? : List Char → Option Nat
  | '0' :: 'x' :: rest | '0' :: 'X' :: rest => readBased? 16 rest
  | '0' :: 'o' :: rest | '0' :: 'O' :: rest => readBased? 8 rest
  | '0' :: 'b' :: rest | '0' :: 'B' :: rest => readBased? 2 rest
  | '0' :: rest => (readDecimal? ('0' :: rest)).filter (· = 0)
  | digits => readDecimal? digits

/-- The value of an integer in plain characters, read by `magnitude` after an
optional sign. -/
def readSigned? (magnitude : List Char → Option Nat) : List Char → Option Int
  | '-' :: rest => (magnitude rest).map fun (n : Nat) => -(n : Int)
  | '+' :: rest => (magnitude rest).map Int.ofNat
  | rest => (magnitude rest).map Int.ofNat

/-- The value of the text as a literal. -/
def literal? (text : String) : Option Int :=
  readSigned? readLiteral? (plain text)

/-- The value of the text as an integer in decimal, which may start with
zeros. -/
def decimal? (text : String) : Option Int :=
  readSigned? readDecimal? (plain text)

/-- The value of the text as an integer: that of a literal, or else that of a
decimal. -/
def integer? (text : String) : Option Int :=
  (literal? text).or (decimal? text)

/-- Split off a run of digits with single underscores between them: what follows
the longest one at the front, if there is one. -/
def skipDigits? : List Char → Option (List Char)
  | [] => none
  | c :: rest =>
    if (digitIn? 10 c).isSome then some (skipMore rest) else none
where
  /-- What follows after a digit and the digits joined to it. -/
  skipMore : List Char → List Char
    | [] => []
    | ['_'] => ['_']
    | '_' :: c :: rest => if (digitIn? 10 c).isSome then skipMore rest else '_' :: c :: rest
    | c :: rest => if (digitIn? 10 c).isSome then skipMore rest else c :: rest

/-- Is this the end of a float: nothing, or an exponent? -/
def isExponent : List Char → Bool
  | [] => true
  | e :: rest =>
    (e == 'e' || e == 'E') &&
      skipDigits? (match rest with
        | '+' :: digits | '-' :: digits => digits
        | digits => digits) == some []

/-- Is this a float without its sign? Digits stand before the point, after it, or
on both sides. -/
def isMagnitude (cs : List Char) : Bool :=
  match skipDigits? cs with
  | some ('.' :: fraction) => isExponent ((skipDigits? fraction).getD fraction)
  | some rest => isExponent rest
  | none =>
    match cs with
    | '.' :: fraction =>
      match skipDigits? fraction with
      | some rest => isExponent rest
      | none => false
    | _ => false

/-- Is this a word for infinity or for no number, in any case? -/
def isWord (cs : List Char) : Bool :=
  let word := String.ofList (cs.map Char.toLower)
  word == "inf" || word == "infinity" || word == "nan"

/-- Can the text be read as a float? -/
def isFloat (text : String) : Bool :=
  let unsigned := match plain text with
    | '-' :: rest | '+' :: rest => rest
    | rest => rest
  isMagnitude unsigned || isWord unsigned

/-- Can the text be read as a number of the given representation? Integers have
to fit into 32 bits. -/
def parsesAs (text : String) : NumericKind → Bool
  | .float => isFloat text
  | .int =>
    match integer? text with
    | some n => -2147483648 ≤ n && n ≤ 2147483647
    | none => false
  | .uint =>
    match integer? text with
    | some n => 0 ≤ n && n ≤ 4294967295
    | none => false

/-- Every representation the text can be read as. -/
def kinds (text : String) : List NumericKind :=
  NumericKind.all.filter (parsesAs text)

end DatalogTyping.Numeral

import Mathlib.Data.Nat.Digits.Defs
import DatalogTyping.Numeral
import DatalogTyping.Proofs.Sequences

/-!
# Numerals are classified by value

An integer can be written in many ways: with or without a sign, in four bases, with zeros
in front, with underscores between the digits, in the figures of any script, and with
white space around it (`Spelling`). How it is read takes several grammars. A literal is
tried first, which cannot have zeros in front of a decimal that is not zero, then a
decimal, which can; floats have a grammar of their own. Still it only depends on the value
and on the base which of the representations a spelling can have, as long as a decimal has
no more than `maxDigits` digits (`Spelling.parsesAs_text`).

* What is left of a spelling once white space is stripped is a sign, a sign of the base and
  a row of digits, all in plain characters (`Spelling.plain_text`).
* A row of digits is read as its value (`DigitRow.Reads.readDigits?`). In decimal it must
  not be too long, as a literal it may be refused, and then it is read as a decimal
  (`Spelling.readDecimal?_magnitude`).
* Whatever is read consists of characters of numerals (`isNumeralChar_of_integer?`,
  `isNumeralChar_of_isFloat`). The four separator controls are white space, but they are
  not stripped and are no such characters. So nothing is read of a spelling with one of
  them beside it.
-/

namespace DatalogTyping.Numeral

open DatalogTyping.Text

/-! ### Spellings -/

/-- The bases that an integer can be written in. -/
inductive Base where
  | decimal
  | hexadecimal
  | octal
  | binary
  deriving DecidableEq, Repr

namespace Base

/-- The number of digits there are. -/
def radix : Base → Nat
  | decimal => 10
  | hexadecimal => 16
  | octal => 8
  | binary => 2

/-- What may stand in front of the digits to tell the base, in either case and with or
without an underscore after it. -/
def leads : Base → List (List Char)
  | decimal => [[]]
  | hexadecimal => [['0', 'x'], ['0', 'X'], ['0', 'x', '_'], ['0', 'X', '_']]
  | octal => [['0', 'o'], ['0', 'O'], ['0', 'o', '_'], ['0', 'O', '_']]
  | binary => [['0', 'b'], ['0', 'B'], ['0', 'b', '_'], ['0', 'B', '_']]

theorem radix_bounds (base : Base) : 1 < base.radix ∧ base.radix ≤ 16 := by
  cases base <;> decide

end Base

/-- The character stands for a digit: it is the figure or small letter, the capital letter,
or a figure of some other script. -/
inductive Writes (value : Nat) (c : Char) : Prop
  | small (h : c = Nat.digitChar value)
  | capital (h : c = (Nat.digitChar value).toUpper)
  | figure (h : digitValue? c = some value)

/-- Digits in a row, each but the first possibly after an underscore. -/
structure DigitRow where
  first : Char
  rest : List (Bool × Char)

namespace DigitRow

/-- A digit after the first. -/
def later (digit : Bool × Char) : List Char :=
  if digit.1 then ['_', digit.2] else [digit.2]

/-- All characters of the row. -/
def chars (row : DigitRow) : List Char := row.first :: row.rest.flatMap later

/-- The digits alone. -/
def digits (row : DigitRow) : List Char := row.first :: row.rest.map Prod.snd

theorem mem_chars {row : DigitRow} {c : Char} (hc : c ∈ row.chars) : c = '_' ∨ c ∈ row.digits := by
  rw [chars, List.mem_cons, List.mem_flatMap] at hc
  obtain rfl | ⟨⟨underscored, digit⟩, hdigit, hc⟩ := hc
  · exact .inr List.mem_cons_self
  · have hmem : digit ∈ row.digits := List.mem_cons_of_mem _ (List.mem_map_of_mem hdigit)
    have hchar : c = '_' ∨ c = digit := by cases underscored <;> simp_all [later]
    rcases hchar with rfl | rfl
    · exact .inl rfl
    · exact .inr hmem

theorem countP_chars {row : DigitRow} (h : ∀ c ∈ row.digits, c ≠ '_') :
    row.chars.countP (· ≠ '_') = row.digits.length := by
  obtain ⟨hfirst, hrest⟩ := List.forall_mem_cons.mp h
  have each : ∀ digit ∈ row.rest, (List.countP (· ≠ '_') ∘ later) digit = 1 := by
    rintro ⟨underscored, digit⟩ hdigit
    have := hrest digit (List.mem_map_of_mem hdigit)
    cases underscored <;> simp_all [later]
  rw [chars, digits, List.countP_cons_of_pos (by simpa using hfirst), List.countP_flatMap,
    List.map_congr_left each]
  simp

end DigitRow

/-- A way to write an integer: a sign, which only negative numbers need, what tells the
base, and the digits with any number of zeros in front and single underscores between
them. White space may stand on either side. -/
structure Spelling (n : Int) where
  before : List Char
  sign : List Char
  base : Base
  lead : List Char
  zeros : Nat
  row : DigitRow
  after : List Char
  before_blank : ∀ c ∈ before, isBlank c
  after_blank : ∀ c ∈ after, isBlank c
  sign_eq : (sign = ['-'] ∧ n ≤ 0) ∨ ((sign = [] ∨ sign = ['+']) ∧ 0 ≤ n)
  lead_mem : lead ∈ base.leads
  writes : List.Forall₂ Writes
    (List.replicate zeros 0 ++ (Nat.digits base.radix n.natAbs).reverse) row.digits

namespace Spelling

variable {n : Int}

/-- The spelling without white space. -/
def core (spelling : Spelling n) : List Char :=
  spelling.sign ++ (spelling.lead ++ spelling.row.chars)

/-- The text of the spelling. -/
def text (spelling : Spelling n) : String :=
  String.ofList (spelling.before ++ spelling.core ++ spelling.after)

end Spelling

/-! ### Digits -/

theorem digitValue?_eq_some {c : Char} {value : Nat} (h : digitValue? c = some value) :
    value < 10 ∧ ∃ start ∈ digitZeros, c = Char.ofNat (start + value) := by
  obtain ⟨start, hstart, rfl⟩ := Option.map_eq_some_iff.mp h
  have hrange := List.find?_some hstart
  simp only [Bool.and_eq_true, decide_eq_true_eq] at hrange
  refine ⟨by omega, start, List.mem_of_find?_eq_some hstart, ?_⟩
  rw [Nat.add_sub_cancel' hrange.1, Char.ofNat_toNat]

/-- A figure of some script is not white space. -/
theorem isBlank_figure : ∀ start ∈ digitZeros, ∀ value < 10,
    isBlank (Char.ofNat (start + value)) = false := by
  decide +kernel

theorem digitOf?_digitChar : ∀ value < 16, digitOf? (Nat.digitChar value) = some value := by
  decide

namespace Writes

variable {value : Nat} {c : Char}

theorem reads (writes : Writes value c) (bound : value < 16) :
    digitOf? (plainChar c) = some value := by
  cases writes with
  | small h =>
      subst h
      revert value
      decide
  | capital h =>
      subst h
      revert value
      decide
  | figure h => simpa [plainChar, h] using digitOf?_digitChar value bound

theorem not_blank (writes : Writes value c) (bound : value < 16) : isBlank c = false := by
  cases writes with
  | small h =>
      subst h
      revert value
      decide
  | capital h =>
      subst h
      revert value
      decide
  | figure h =>
      obtain ⟨small, start, hstart, rfl⟩ := digitValue?_eq_some h
      exact isBlank_figure start hstart value small

end Writes

/-! ### Reading a row of digits -/

/-- The row has the digits of the given values in the base. -/
def DigitRow.Reads (base : Nat) (values : List Nat) (row : DigitRow) : Prop :=
  List.Forall₂ (fun value c => digitIn? base c = some value) values row.digits

/-- The row in plain characters. -/
def DigitRow.plain (row : DigitRow) : DigitRow where
  first := plainChar row.first
  rest := row.rest.map fun digit => (digit.1, plainChar digit.2)

section Rows

variable {base value digit : Nat} {c : Char} {rest : List Char} {values : List Nat}
  {row : DigitRow}

theorem ne_of_digitIn? (h : digitIn? base c = some digit) {other : Char}
    (hother : digitOf? other = none) : c ≠ other := by
  rintro rfl
  simp [digitIn?, hother] at h

theorem readMore?_cons (h : digitIn? base c = some digit) :
    readMore? base value (c :: rest) = readMore? base (value * base + digit) rest := by
  have := ne_of_digitIn? h (show digitOf? '_' = none from rfl)
  rw [readMore?]
  · simp [h]
  · simp_all
  · simp_all

theorem readMore?_underscore (h : digitIn? base c = some digit) :
    readMore? base value ('_' :: c :: rest) = readMore? base (value * base + digit) rest := by
  rw [readMore?, h]

theorem readMore?_later {next : Bool × Char} (h : digitIn? base next.2 = some digit) :
    readMore? base value (DigitRow.later next ++ rest) =
      readMore? base (value * base + digit) rest := by
  obtain ⟨_ | _, c⟩ := next
  · exact readMore?_cons h
  · exact readMore?_underscore h

theorem readMore?_digits {digits : List (Bool × Char)}
    (h : List.Forall₂ (fun value c => digitIn? base c = some value) values
      (digits.map Prod.snd)) :
    readMore? base value (digits.flatMap DigitRow.later) =
      some (values.foldl (fun value digit => value * base + digit) value) := by
  induction digits generalizing value values with
  | nil =>
      cases h
      rfl
  | cons first others ih =>
      cases h with
      | cons hfirst hothers =>
          rw [List.flatMap_cons, readMore?_later hfirst]
          exact ih hothers

/-- Reading from the left multiplies by the base at each digit. -/
theorem ofDigits_reverse (base : Nat) (values : List Nat) :
    Nat.ofDigits base values.reverse =
      values.foldl (fun value digit => value * base + digit) 0 := by
  rw [Nat.ofDigits_eq_foldr, List.foldr_reverse]
  simp [Nat.mul_comm, Nat.add_comm]

theorem DigitRow.Reads.readDigits? (reads : row.Reads base values) :
    readDigits? base row.chars = some (Nat.ofDigits base values.reverse) := by
  rw [ofDigits_reverse]
  cases reads with
  | @cons value _ values _ hfirst hrest =>
      rw [chars, Numeral.readDigits?, hfirst, Option.bind_some, readMore?_digits hrest,
        List.foldl_cons, Nat.zero_mul, Nat.zero_add]

theorem DigitRow.Reads.of_mem_chars (reads : row.Reads base values) (hc : c ∈ row.chars) :
    c = '_' ∨ ∃ value, digitIn? base c = some value := by
  refine (mem_chars hc).imp id fun hc => ?_
  obtain ⟨value, -, hvalue⟩ := exists_mem_of_forall₂ reads.flip hc
  exact ⟨value, hvalue⟩

theorem DigitRow.Reads.readDecimal? (reads : row.Reads 10 values) :
    readDecimal? row.chars =
      if row.digits.length ≤ maxDigits then some (Nat.ofDigits 10 values.reverse) else none := by
  have digits : ∀ c ∈ row.digits, c ≠ '_' := by
    intro c hc
    obtain ⟨value, -, hvalue⟩ := exists_mem_of_forall₂ reads.flip hc
    exact ne_of_digitIn? hvalue rfl
  rw [Numeral.readDecimal?, countP_chars digits, reads.readDigits?]

/-- The letters that tell a base. -/
def baseLetters : List Char := ['x', 'X', 'o', 'O', 'b', 'B']

/-- Without a letter for the base, a literal is a decimal, and if it starts with a zero it
has to be zero. -/
theorem readLiteral?_cases (cs : List Char) :
    (∃ letter ∈ baseLetters, letter ∈ cs) ∨ readLiteral? cs = readDecimal? cs ∨
      readLiteral? cs = (readDecimal? cs).filter (· = 0) := by
  unfold readLiteral?
  split
  · exact .inl ⟨'x', by decide, by simp⟩
  · exact .inl ⟨'X', by decide, by simp⟩
  · exact .inl ⟨'o', by decide, by simp⟩
  · exact .inl ⟨'O', by decide, by simp⟩
  · exact .inl ⟨'b', by decide, by simp⟩
  · exact .inl ⟨'B', by decide, by simp⟩
  · exact .inr (.inr rfl)
  · exact .inr (.inl rfl)

/-- As a literal, a decimal is read alike or is refused because of a zero in front. -/
theorem DigitRow.Reads.readLiteral? (reads : row.Reads 10 values) :
    readLiteral? row.chars = Numeral.readDecimal? row.chars ∨ readLiteral? row.chars = none := by
  have refused : ∀ letter ∈ baseLetters, letter ≠ '_' ∧ digitIn? 10 letter = none :=
    forall_mem_of_all (by decide)
  rcases readLiteral?_cases row.chars with ⟨letter, hletter, hmem⟩ | plain | filtered
  · rcases reads.of_mem_chars hmem with heq | ⟨value, hvalue⟩
    · exact absurd heq (refused letter hletter).1
    · cases (refused letter hletter).2.symm.trans hvalue
  · exact .inl plain
  · rw [filtered]
    cases Numeral.readDecimal? row.chars with
    | none => exact .inr rfl
    | some value => exact (ite_eq_or_eq _ _ _)

theorem DigitRow.Reads.readBased? (reads : row.Reads base values) :
    readBased? base row.chars = some (Nat.ofDigits base values.reverse) ∧
      readBased? base ('_' :: row.chars) = some (Nat.ofDigits base values.reverse) := by
  refine ⟨?_, reads.readDigits?⟩
  unfold Numeral.readBased?
  split
  · rename_i heq
    cases reads with
    | cons hfirst _ => exact absurd (List.head_eq_of_cons_eq heq) (ne_of_digitIn? hfirst rfl)
  · exact reads.readDigits?

/-! ### Floats -/

theorem skipMore_cons (h : digitIn? 10 c = some digit) :
    skipDigits?.skipMore (c :: rest) = skipDigits?.skipMore rest := by
  have := ne_of_digitIn? h (show digitOf? '_' = none from rfl)
  rw [skipDigits?.skipMore]
  · simp [h]
  · simp_all
  · simp_all

theorem skipMore_underscore (h : digitIn? 10 c = some digit) :
    skipDigits?.skipMore ('_' :: c :: rest) = skipDigits?.skipMore rest := by
  rw [skipDigits?.skipMore, h]
  rfl

theorem skipMore_later {next : Bool × Char} (h : digitIn? 10 next.2 = some digit) :
    skipDigits?.skipMore (DigitRow.later next ++ rest) = skipDigits?.skipMore rest := by
  obtain ⟨_ | _, c⟩ := next
  · exact skipMore_cons h
  · exact skipMore_underscore h

theorem skipMore_digits {digits : List (Bool × Char)}
    (h : List.Forall₂ (fun value c => digitIn? 10 c = some value) values
      (digits.map Prod.snd)) :
    skipDigits?.skipMore (digits.flatMap DigitRow.later) = [] := by
  induction digits generalizing values with
  | nil => rfl
  | cons first others ih =>
      cases h with
      | cons hfirst hothers =>
          rw [List.flatMap_cons, skipMore_later hfirst]
          exact ih hothers

theorem DigitRow.Reads.isMagnitude (reads : row.Reads 10 values) : isMagnitude row.chars := by
  have skipped : skipDigits? row.chars = some [] := by
    cases reads with
    | cons hfirst hrest =>
        rw [chars, skipDigits?, hfirst, Option.isSome_some, if_pos rfl, skipMore_digits hrest]
  simp [Numeral.isMagnitude, skipped, isExponent]

end Rows

/-! ### White space -/

section Blanks

variable {p : Char → Bool} {c : Char} {cs before after : List Char}

theorem mem_dropWhile_of_not (hc : c ∈ cs) (hp : p c = false) : c ∈ cs.dropWhile p := by
  rw [← List.takeWhile_append_dropWhile (p := p) (l := cs), List.mem_append] at hc
  refine hc.resolve_left fun htaken => ?_
  simp [List.all_eq_true.mp List.all_takeWhile c htaken] at hp

theorem mem_trimWhile_of_not (hc : c ∈ cs) (hp : p c = false) : c ∈ trimWhile p cs := by
  rw [trimWhile, dropEndWhile, List.mem_reverse]
  exact mem_dropWhile_of_not (List.mem_reverse.mpr (mem_dropWhile_of_not hc hp)) hp

theorem dropWhile_eq_self (h : ∀ c ∈ cs, p c = false) : cs.dropWhile p = cs := by
  cases cs with
  | nil => rfl
  | cons first rest => exact List.dropWhile_cons_of_neg (by simp [h first List.mem_cons_self])

theorem trimWhile_append_append (hbefore : ∀ c ∈ before, p c) (hafter : ∀ c ∈ after, p c)
    (hcs : ∀ c ∈ cs, p c = false) (hne : cs ≠ []) :
    trimWhile p (before ++ cs ++ after) = cs := by
  have hstart : (cs ++ after).dropWhile p = cs ++ after := by
    obtain ⟨first, rest, rfl⟩ := List.exists_cons_of_ne_nil hne
    exact List.dropWhile_cons_of_neg (by simp [hcs first List.mem_cons_self])
  rw [trimWhile, List.append_assoc, List.dropWhile_append_of_pos hbefore, hstart, dropEndWhile,
    List.reverse_append, List.dropWhile_append_of_pos (by simpa using hafter),
    dropWhile_eq_self (by simpa using hcs), List.reverse_reverse]

end Blanks

/-! ### What cannot be read -/

/-- Can the character occur in a numeral, once it is in plain form? -/
def isNumeralChar (c : Char) : Bool :=
  (digitOf? c).isSome || ['_', '+', '-', '.', 'x', 'X', 'o', 'O'].contains c ||
    ['i', 'n', 'f', 't', 'y', 'a'].contains c.toLower

section Chars

variable {base value : Nat} {c : Char} {cs : List Char} {n : Nat}

theorem isNumeralChar_digit (h : (digitIn? base c).isSome) : isNumeralChar c := by
  have : (digitOf? c).isSome := by
    obtain ⟨digit, hdigit⟩ := Option.isSome_iff_exists.mp h
    rw [Option.isSome_iff_exists]
    exact ⟨digit, (Option.filter_eq_some_iff.mp hdigit).1⟩
  simp [isNumeralChar, this]

theorem isNumeralChar_of_readMore? (h : readMore? base value cs = some n) :
    ∀ c ∈ cs, isNumeralChar c := by
  fun_induction readMore? base value cs with
  | case1 => simp
  | case3 value c rest digit hdigit ih =>
      have hc := isNumeralChar_digit (Option.isSome_of_eq_some hdigit)
      exact List.forall_mem_cons.mpr ⟨by decide, List.forall_mem_cons.mpr ⟨hc, ih h⟩⟩
  | case5 value c rest _ _ digit hdigit ih =>
      have hc := isNumeralChar_digit (Option.isSome_of_eq_some hdigit)
      exact List.forall_mem_cons.mpr ⟨hc, ih h⟩
  | case2 | case4 | case6 => cases h

theorem isNumeralChar_of_readDigits? (h : readDigits? base cs = some n) :
    ∀ c ∈ cs, isNumeralChar c := by
  cases cs with
  | nil => simp
  | cons c rest =>
      obtain ⟨digit, hdigit, hrest⟩ := Option.bind_eq_some_iff.mp h
      exact List.forall_mem_cons.mpr ⟨isNumeralChar_digit (Option.isSome_of_eq_some hdigit),
        isNumeralChar_of_readMore? hrest⟩

theorem isNumeralChar_of_readDecimal? (h : readDecimal? cs = some n) :
    ∀ c ∈ cs, isNumeralChar c :=
  isNumeralChar_of_readDigits? (Option.ite_none_right_eq_some.mp h).2

theorem isNumeralChar_of_readBased? (h : readBased? base cs = some n) :
    ∀ c ∈ cs, isNumeralChar c := by
  unfold readBased? at h
  split at h
  · exact List.forall_mem_cons.mpr ⟨by decide, isNumeralChar_of_readDigits? h⟩
  · exact isNumeralChar_of_readDigits? h

theorem isNumeralChar_of_readLiteral? (h : readLiteral? cs = some n) :
    ∀ c ∈ cs, isNumeralChar c := by
  have lettered : ∀ {letter rest base}, isNumeralChar letter → readBased? base rest = some n →
      ∀ c ∈ '0' :: letter :: rest, isNumeralChar c := by
    intro letter rest base hletter hrest
    exact List.forall_mem_cons.mpr ⟨by decide,
      List.forall_mem_cons.mpr ⟨hletter, isNumeralChar_of_readBased? hrest⟩⟩
  unfold readLiteral? at h
  split at h
  · exact lettered (by decide) h
  · exact lettered (by decide) h
  · exact lettered (by decide) h
  · exact lettered (by decide) h
  · exact lettered (by decide) h
  · exact lettered (by decide) h
  · exact isNumeralChar_of_readDecimal? (Option.filter_eq_some_iff.mp h).1
  · exact isNumeralChar_of_readDecimal? h

/-- An integer that is read consists of such characters if its magnitude does. -/
theorem isNumeralChar_of_readSigned? {magnitude : List Char → Option Nat}
    (hmagnitude : ∀ {cs n}, magnitude cs = some n → ∀ c ∈ cs, isNumeralChar c) {m : Int}
    (h : readSigned? magnitude cs = some m) : ∀ c ∈ cs, isNumeralChar c := by
  unfold readSigned? at h
  split at h
  · obtain ⟨n, hn, -⟩ := Option.map_eq_some_iff.mp h
    exact List.forall_mem_cons.mpr ⟨by decide, hmagnitude hn⟩
  · obtain ⟨n, hn, -⟩ := Option.map_eq_some_iff.mp h
    exact List.forall_mem_cons.mpr ⟨by decide, hmagnitude hn⟩
  · obtain ⟨n, hn, -⟩ := Option.map_eq_some_iff.mp h
    exact hmagnitude hn

theorem isNumeralChar_of_integer? {text : String} {m : Int} (h : integer? text = some m) :
    ∀ c ∈ plain text, isNumeralChar c := by
  rcases Option.or_eq_some_iff.mp h with hliteral | ⟨-, hdecimal⟩
  · exact isNumeralChar_of_readSigned? isNumeralChar_of_readLiteral? hliteral
  · exact isNumeralChar_of_readSigned? isNumeralChar_of_readDecimal? hdecimal

theorem isNumeralChar_or_mem_skipMore (hc : c ∈ cs) :
    isNumeralChar c ∨ c ∈ skipDigits?.skipMore cs := by
  fun_induction skipDigits?.skipMore cs with
  | case1 | case2 | case4 | case6 => exact .inr hc
  | case3 first rest hfirst ih =>
      rcases List.mem_cons.mp hc with rfl | hc
      · exact .inl (by decide)
      rcases List.mem_cons.mp hc with rfl | hc
      · exact .inl (isNumeralChar_digit hfirst)
      · exact ih hc
  | case5 first rest _ _ hfirst ih =>
      rcases List.mem_cons.mp hc with rfl | hc
      · exact .inl (isNumeralChar_digit hfirst)
      · exact ih hc

theorem isNumeralChar_or_mem_of_skipDigits? {rest : List Char} (h : skipDigits? cs = some rest)
    (hc : c ∈ cs) : isNumeralChar c ∨ c ∈ rest := by
  cases cs with
  | nil => cases hc
  | cons first others =>
      rw [skipDigits?] at h
      split at h
      · rename_i hfirst
        obtain rfl := Option.some.inj h
        rcases List.mem_cons.mp hc with rfl | hc
        · exact .inl (isNumeralChar_digit hfirst)
        · exact isNumeralChar_or_mem_skipMore hc
      · cases h

theorem isNumeralChar_of_skipDigits? (h : skipDigits? cs = some []) :
    ∀ c ∈ cs, isNumeralChar c :=
  fun _ hc => (isNumeralChar_or_mem_of_skipDigits? h hc).resolve_right (by simp)

theorem isNumeralChar_of_isExponent (h : isExponent cs) : ∀ c ∈ cs, isNumeralChar c := by
  cases cs with
  | nil => simp
  | cons e rest =>
      simp only [isExponent, Bool.and_eq_true, Bool.or_eq_true, beq_iff_eq] at h
      obtain ⟨he, hrest⟩ := h
      refine List.forall_mem_cons.mpr ⟨by rcases he with rfl | rfl <;> decide, ?_⟩
      split at hrest
      · exact List.forall_mem_cons.mpr ⟨by decide, isNumeralChar_of_skipDigits? hrest⟩
      · exact List.forall_mem_cons.mpr ⟨by decide, isNumeralChar_of_skipDigits? hrest⟩
      · exact isNumeralChar_of_skipDigits? hrest

theorem isNumeralChar_of_isMagnitude (h : isMagnitude cs) : ∀ c ∈ cs, isNumeralChar c := by
  intro c hc
  unfold isMagnitude at h
  split at h
  · rename_i fraction hskip
    have hfraction : ∀ c ∈ fraction, isNumeralChar c := by
      intro c hc
      cases hagain : skipDigits? fraction with
      | none =>
          rw [hagain] at h
          exact isNumeralChar_of_isExponent h c hc
      | some rest =>
          rw [hagain] at h
          exact (isNumeralChar_or_mem_of_skipDigits? hagain hc).elim id
            (isNumeralChar_of_isExponent h c)
    rcases isNumeralChar_or_mem_of_skipDigits? hskip hc with hc | hc
    · exact hc
    · exact List.forall_mem_cons.mpr ⟨by decide, hfraction⟩ c hc
  · rename_i hskip
    exact (isNumeralChar_or_mem_of_skipDigits? hskip hc).elim id (isNumeralChar_of_isExponent h c)
  · split at h
    · split at h
      · rename_i fraction _ rest hskip
        rcases List.mem_cons.mp hc with rfl | hc
        · decide
        · exact (isNumeralChar_or_mem_of_skipDigits? hskip hc).elim id
            (isNumeralChar_of_isExponent h c)
      · cases h
    · cases h

/-- The words that are read as floats. -/
def floatWords : List String := ["inf", "infinity", "nan"]

theorem exists_word_of_isWord (h : isWord cs) :
    ∃ word ∈ floatWords, cs.map Char.toLower = word.toList := by
  simp only [isWord, Bool.or_eq_true, beq_iff_eq, or_assoc] at h
  rcases h with h | h | h
  · exact ⟨"inf", by decide, by rw [← h, String.toList_ofList]⟩
  · exact ⟨"infinity", by decide, by rw [← h, String.toList_ofList]⟩
  · exact ⟨"nan", by decide, by rw [← h, String.toList_ofList]⟩

theorem isNumeralChar_of_isWord (h : isWord cs) : ∀ c ∈ cs, isNumeralChar c := by
  intro c hc
  obtain ⟨word, hword, heq⟩ := exists_word_of_isWord h
  have hlower : c.toLower ∈ word.toList := heq ▸ List.mem_map_of_mem hc
  have letters : ∀ word ∈ floatWords,
      word.toList.all ['i', 'n', 'f', 't', 'y', 'a'].contains := by decide
  rw [isNumeralChar, List.all_eq_true.mp (letters word hword) _ hlower, Bool.or_true]

theorem isNumeralChar_of_isFloat {text : String} (h : isFloat text) :
    ∀ c ∈ plain text, isNumeralChar c := by
  have unsigned : ∀ {cs}, (isMagnitude cs || isWord cs) → ∀ c ∈ cs, isNumeralChar c := by
    intro cs h
    rcases (Bool.or_eq_true _ _).mp h with h | h
    · exact isNumeralChar_of_isMagnitude h
    · exact isNumeralChar_of_isWord h
  simp only [isFloat] at h
  split at h
  · rename_i heq
    rw [heq]
    exact List.forall_mem_cons.mpr ⟨by decide, unsigned h⟩
  · rename_i heq
    rw [heq]
    exact List.forall_mem_cons.mpr ⟨by decide, unsigned h⟩
  · exact unsigned h

end Chars

/-- After a zero and a letter for the base no float can be read. -/
theorem not_float_letter {letter : Char} (hletter : letter ∈ baseLetters) (rest : List Char) :
    ¬ (isMagnitude ('0' :: letter :: rest) ∨ isWord ('0' :: letter :: rest)) := by
  have facts : ∀ letter ∈ baseLetters, digitIn? 10 letter = none ∧ letter ≠ '_' ∧ letter ≠ '.' ∧
      letter ≠ 'e' ∧ letter ≠ 'E' := forall_mem_of_all (by decide)
  obtain ⟨hdigit, hunderscore, hpoint, he, hE⟩ := facts letter hletter
  have skipped : skipDigits? ('0' :: letter :: rest) = some (letter :: rest) := by
    have stays : skipDigits?.skipMore (letter :: rest) = letter :: rest := by
      rw [skipDigits?.skipMore]
      · simp [hdigit]
      · simp_all
      · simp_all
    rw [skipDigits?, stays]
    rfl
  rintro (h | h)
  · simp [isMagnitude, skipped, isExponent, he, hE, hpoint] at h
  · obtain ⟨word, hword, heq⟩ := exists_word_of_isWord h
    have starts : ∀ word ∈ floatWords, word.toList.head? ≠ some '0' := by decide
    exact starts word hword (heq ▸ rfl)

/-! ### Reading a spelling -/

namespace Spelling

variable {n : Int} (spelling : Spelling n)

theorem sign_mem : spelling.sign ∈ [['-'], [], ['+']] := by
  rcases spelling.sign_eq with ⟨hsign, -⟩ | ⟨hsign | hsign, -⟩ <;> simp [hsign]

/-- The values of the digits. -/
def values : List Nat :=
  List.replicate spelling.zeros 0 ++ (Nat.digits spelling.base.radix n.natAbs).reverse

/-- The spelling without sign and white space, in plain characters. -/
def magnitude : List Char := spelling.lead ++ spelling.row.plain.chars

theorem ofDigits_values : Nat.ofDigits spelling.base.radix spelling.values.reverse = n.natAbs := by
  rw [values, List.reverse_append, List.reverse_reverse, List.reverse_replicate,
    Nat.ofDigits_append_replicate_zero, Nat.ofDigits_digits]

theorem lt_radix : ∀ value ∈ spelling.values, value < spelling.base.radix := by
  have bounds := spelling.base.radix_bounds
  intro value hvalue
  rcases List.mem_append.mp hvalue with hzero | hdigit
  · rw [List.eq_of_mem_replicate hzero]
    omega
  · exact Nat.digits_lt_base bounds.1 (List.mem_reverse.mp hdigit)

theorem reads : spelling.row.plain.Reads spelling.base.radix spelling.values := by
  have hdigits : spelling.row.plain.digits = spelling.row.digits.map plainChar := by
    simp [DigitRow.digits, DigitRow.plain, Function.comp_def]
  rw [DigitRow.Reads, hdigits, List.forall₂_map_right_iff]
  refine List.Forall₂.imp ?_ ((List.forall₂_and_left _ _).mpr ⟨spelling.lt_radix, spelling.writes⟩)
  rintro value c ⟨hlt, writes⟩
  have hvalue := writes.reads (Nat.lt_of_lt_of_le hlt spelling.base.radix_bounds.2)
  simp [digitIn?, hvalue, hlt]

theorem map_plainChar_core :
    spelling.core.map plainChar = spelling.sign ++ spelling.magnitude := by
  have hsign : spelling.sign.map plainChar = spelling.sign := by
    have plain : ∀ sign ∈ [['-'], [], ['+']], sign.map plainChar = sign := by decide
    exact plain _ spelling.sign_mem
  have hlead : spelling.lead.map plainChar = spelling.lead := by
    have plain : ∀ base : Base, ∀ lead ∈ base.leads, lead.map plainChar = lead := by
      intro base
      cases base <;> decide
    exact plain _ _ spelling.lead_mem
  have hrow : spelling.row.chars.map plainChar = spelling.row.plain.chars := by
    have hlater : ∀ digit : Bool × Char, (DigitRow.later digit).map plainChar =
        DigitRow.later (digit.1, plainChar digit.2) := by
      rintro ⟨_ | _, c⟩ <;> rfl
    simp [DigitRow.chars, DigitRow.plain, List.map_flatMap, List.flatMap_map, hlater]
  rw [core, List.map_append, List.map_append, hsign, hlead, hrow, magnitude]

theorem not_blank_core : ∀ c ∈ spelling.core, isBlank c = false := by
  intro c hc
  rcases List.mem_append.mp hc with hc | hc
  · have signs : ∀ sign ∈ [['-'], [], ['+']],
        sign.all fun c => decide (isBlank c = false) := by decide
    exact forall_mem_of_all (signs _ spelling.sign_mem) c hc
  rcases List.mem_append.mp hc with hc | hc
  · have leads : ∀ base : Base, ∀ lead ∈ base.leads,
        lead.all fun c => decide (isBlank c = false) := by
      intro base
      cases base <;> decide
    exact forall_mem_of_all (leads _ _ spelling.lead_mem) c hc
  rcases DigitRow.mem_chars hc with rfl | hc
  · decide
  · obtain ⟨value, hvalue, writes⟩ := exists_mem_of_forall₂ spelling.writes.flip hc
    exact writes.not_blank
      (Nat.lt_of_lt_of_le (spelling.lt_radix value hvalue) spelling.base.radix_bounds.2)

/-- No separator control stands beside the numeral. -/
def Unseparated : Prop :=
  ∀ c ∈ spelling.before ++ spelling.after, ¬ (0x1C ≤ c.toNat ∧ c.toNat ≤ 0x1F)

theorem plain_text (unseparated : spelling.Unseparated) :
    plain spelling.text = spelling.sign ++ spelling.magnitude := by
  have strips : ∀ c ∈ spelling.before ++ spelling.after, isBlank c → isNumeralBlank c := by
    intro c hc hblank
    have := unseparated c hc
    simp only [isNumeralBlank, hblank, Bool.true_and, Bool.not_eq_true', Bool.and_eq_false_iff,
      decide_eq_false_iff_not]
    omega
  rw [plain, text, String.toList_ofList, trimWhile_append_append, map_plainChar_core]
  · exact fun c hc => strips c (List.mem_append_left _ hc) (spelling.before_blank c hc)
  · exact fun c hc => strips c (List.mem_append_right _ hc) (spelling.after_blank c hc)
  · intro c hc
    simp [isNumeralBlank, spelling.not_blank_core c hc]
  · simp [core, DigitRow.chars]

/-- A numeral without its sign starts with a digit. -/
theorem magnitude_eq_cons :
    ∃ first rest, spelling.magnitude = first :: rest ∧ first ≠ '-' ∧ first ≠ '+' := by
  have leads : ∀ base : Base, ∀ lead ∈ base.leads, lead = [] ∨ lead.head? = some '0' := by
    intro base
    cases base <;> decide
  rcases leads _ _ spelling.lead_mem with hlead | hlead
  · obtain ⟨value, -, hfirst⟩ := exists_mem_of_forall₂ spelling.reads.flip List.mem_cons_self
    exact ⟨_, _, by rw [magnitude, hlead, List.nil_append, DigitRow.chars],
      ne_of_digitIn? hfirst rfl, ne_of_digitIn? hfirst rfl⟩
  · obtain ⟨rest, hrest⟩ := List.head?_eq_some_iff.mp hlead
    exact ⟨'0', _, by rw [magnitude, hrest, List.cons_append], by decide, by decide⟩

theorem readSigned?_eq (read : List Char → Option Nat) :
    readSigned? read (spelling.sign ++ spelling.magnitude) =
      (read spelling.magnitude).map fun (m : Nat) =>
        if spelling.sign = ['-'] then -(m : Int) else m := by
  obtain ⟨first, rest, hmagnitude, hminus, hplus⟩ := spelling.magnitude_eq_cons
  rcases spelling.sign_eq with ⟨hsign, -⟩ | ⟨hsign | hsign, -⟩
  · simp [hsign, readSigned?]
  · rw [hsign, List.nil_append, hmagnitude, readSigned?]
    · rfl
    · simp_all
    · simp_all
  · rw [hsign]
    rfl

theorem readSigned?_eq_some {read : List Char → Option Nat}
    (h : read spelling.magnitude = some n.natAbs) :
    readSigned? read (spelling.sign ++ spelling.magnitude) = some n := by
  rw [readSigned?_eq, h, Option.map_some, Option.some.injEq]
  rcases spelling.sign_eq with ⟨hsign, hle⟩ | ⟨hsign | hsign, hle⟩
  · rw [if_pos hsign]
    omega
  · rw [hsign, if_neg (by simp)]
    omega
  · rw [hsign, if_neg (by simp)]
    omega

theorem readLiteral?_based (hbase : spelling.base ≠ .decimal) :
    readLiteral? spelling.magnitude = some n.natAbs := by
  have reads := spelling.reads
  have hlead := spelling.lead_mem
  rw [magnitude, ← spelling.ofDigits_values]
  cases based : spelling.base with
  | decimal => exact absurd based hbase
  | hexadecimal | octal | binary =>
      rw [based] at reads hlead
      simp only [Base.leads, List.mem_cons, List.not_mem_nil, or_false] at hlead
      rcases hlead with h | h | h | h <;> rw [h]
      · exact reads.readBased?.1
      · exact reads.readBased?.1
      · exact reads.readBased?.2
      · exact reads.readBased?.2

/-- A decimal is read as its value, unless it is too long. It may be refused as a literal. -/
theorem readDecimal?_magnitude (hbase : spelling.base = .decimal) :
    readDecimal? spelling.magnitude =
        (if spelling.row.digits.length ≤ maxDigits then some n.natAbs else none) ∧
      (readLiteral? spelling.magnitude = readDecimal? spelling.magnitude ∨
        readLiteral? spelling.magnitude = none) := by
  have reads := spelling.reads
  have hvalue := spelling.ofDigits_values
  have hlead := spelling.lead_mem
  have hlength : spelling.row.plain.digits.length = spelling.row.digits.length := by
    simp [DigitRow.digits, DigitRow.plain]
  rw [hbase] at reads hvalue hlead
  rw [magnitude, List.mem_singleton.mp hlead, List.nil_append]
  refine ⟨?_, reads.readLiteral?⟩
  rw [reads.readDecimal?, hlength, ← hvalue]
  rfl

/-- A decimal has no more digits than can be read. -/
def Limited : Prop := spelling.base = .decimal → spelling.row.digits.length ≤ maxDigits

theorem integer?_text (unseparated : spelling.Unseparated) (limited : spelling.Limited) :
    integer? spelling.text = some n := by
  rw [integer?, literal?, decimal?, spelling.plain_text unseparated]
  by_cases hbase : spelling.base = .decimal
  · obtain ⟨hdecimal, hliteral⟩ := spelling.readDecimal?_magnitude hbase
    rw [if_pos (limited hbase)] at hdecimal
    rcases hliteral with hliteral | hrefused
    · rw [spelling.readSigned?_eq_some (hliteral.trans hdecimal), Option.some_or]
    · rw [spelling.readSigned?_eq, hrefused, Option.map_none, Option.none_or,
        spelling.readSigned?_eq_some hdecimal]
  · rw [spelling.readSigned?_eq_some (spelling.readLiteral?_based hbase), Option.some_or]

/-- What is too long to be read as a decimal is not read as a literal either. -/
theorem limited_of_integer? (unseparated : spelling.Unseparated) {m : Int}
    (h : integer? spelling.text = some m) : spelling.Limited := by
  intro hbase
  by_contra long
  obtain ⟨hdecimal, hliteral⟩ := spelling.readDecimal?_magnitude hbase
  rw [if_neg long] at hdecimal
  have hrefused : readLiteral? spelling.magnitude = none :=
    hliteral.elim (fun same => same.trans hdecimal) id
  rw [integer?, literal?, decimal?, spelling.plain_text unseparated, spelling.readSigned?_eq,
    spelling.readSigned?_eq, hrefused, hdecimal] at h
  cases h

theorem isFloat_text_iff (unseparated : spelling.Unseparated) :
    isFloat spelling.text ↔ isMagnitude spelling.magnitude ∨ isWord spelling.magnitude := by
  obtain ⟨first, rest, hmagnitude, hminus, hplus⟩ := spelling.magnitude_eq_cons
  rw [isFloat, spelling.plain_text unseparated, ← Bool.or_eq_true]
  rcases spelling.sign_eq with ⟨hsign, -⟩ | ⟨hsign | hsign, -⟩
  · rw [hsign]
    rfl
  · rw [hsign, List.nil_append, hmagnitude]
    split <;> simp_all
  · rw [hsign]
    rfl

theorem isFloat_text (unseparated : spelling.Unseparated) :
    isFloat spelling.text ↔ spelling.base = .decimal := by
  rw [spelling.isFloat_text_iff unseparated]
  have reads := spelling.reads
  have hlead := spelling.lead_mem
  rw [magnitude]
  cases hbase : spelling.base with
  | decimal =>
      rw [hbase] at reads hlead
      rw [List.mem_singleton.mp hlead, List.nil_append]
      exact iff_of_true (.inl reads.isMagnitude) rfl
  | hexadecimal | octal | binary =>
      rw [hbase] at hlead
      refine iff_of_false ?_ (by simp)
      simp only [Base.leads, List.mem_cons, List.not_mem_nil, or_false] at hlead
      rcases hlead with h | h | h | h <;> rw [h] <;> exact not_float_letter (by decide) _

/-- A separator control is no part of a numeral, and is not stripped either. -/
theorem unseparated_of_isNumeralChar
    (h : ∀ c ∈ plain spelling.text, isNumeralChar c) : spelling.Unseparated := by
  intro c hc ⟨hle, hge⟩
  have strange : ∀ code < 4, isNumeralBlank (Char.ofNat (0x1C + code)) = false ∧
      plainChar (Char.ofNat (0x1C + code)) = Char.ofNat (0x1C + code) ∧
      isNumeralChar (Char.ofNat (0x1C + code)) = false := by decide
  have hstrange := strange (c.toNat - 0x1C) (by omega)
  rw [Nat.add_sub_cancel' hle, Char.ofNat_toNat] at hstrange
  obtain ⟨hblank, hplain, hnumeral⟩ := hstrange
  have htext : c ∈ spelling.before ++ spelling.core ++ spelling.after := by
    simp only [List.mem_append] at hc ⊢
    exact hc.imp .inl id
  have hin : c ∈ plain spelling.text := by
    rw [plain, text, String.toList_ofList, ← hplain]
    exact List.mem_map_of_mem (mem_trimWhile_of_not htext hblank)
  simp [h c hin] at hnumeral

theorem integer?_text_iff {m : Int} :
    integer? spelling.text = some m ↔ spelling.Unseparated ∧ spelling.Limited ∧ n = m := by
  constructor
  · intro h
    have unseparated := spelling.unseparated_of_isNumeralChar (isNumeralChar_of_integer? h)
    have limited := spelling.limited_of_integer? unseparated h
    have same := (spelling.integer?_text unseparated limited).symm.trans h
    exact ⟨unseparated, limited, Option.some.inj same⟩
  · rintro ⟨unseparated, limited, rfl⟩
    exact spelling.integer?_text unseparated limited

/-- Every spelling of an integer is read by its value: as a signed number if that fits into
32 bits, as an unsigned number if it fits there, and as a float if it is in decimal. Only a
separator control beside it keeps it from being read at all, and only a decimal can have
more digits than are read as an integer. -/
theorem parsesAs_text :
    (parsesAs spelling.text .int ↔
      spelling.Unseparated ∧ spelling.Limited ∧ -2147483648 ≤ n ∧ n < 2147483648) ∧
    (parsesAs spelling.text .uint ↔
      spelling.Unseparated ∧ spelling.Limited ∧ 0 ≤ n ∧ n < 4294967296) ∧
    (parsesAs spelling.text .float ↔ spelling.Unseparated ∧ spelling.base = .decimal) := by
  have floats : isFloat spelling.text ↔ spelling.Unseparated ∧ spelling.base = .decimal := by
    constructor
    · intro h
      have unseparated := spelling.unseparated_of_isNumeralChar (isNumeralChar_of_isFloat h)
      exact ⟨unseparated, (spelling.isFloat_text unseparated).mp h⟩
    · rintro ⟨unseparated, hbase⟩
      exact (spelling.isFloat_text unseparated).mpr hbase
  cases hread : integer? spelling.text with
  | none =>
      have unread : ¬ (spelling.Unseparated ∧ spelling.Limited) := by
        rintro ⟨unseparated, limited⟩
        cases hread.symm.trans (spelling.integer?_text unseparated limited)
      refine ⟨iff_of_false ?_ fun h => unread ⟨h.1, h.2.1⟩,
        iff_of_false ?_ fun h => unread ⟨h.1, h.2.1⟩, floats⟩
      · simp [parsesAs, hread]
      · simp [parsesAs, hread]
  | some m =>
      obtain ⟨unseparated, limited, rfl⟩ := spelling.integer?_text_iff.mp hread
      refine ⟨?_, ?_, floats⟩
      · simp only [parsesAs, hread, unseparated, limited, true_and, Bool.and_eq_true,
          decide_eq_true_eq]
        omega
      · simp only [parsesAs, hread, unseparated, limited, true_and, Bool.and_eq_true,
          decide_eq_true_eq]
        omega

example : kinds "\t-0x_8000_0000 " = [.int] := by decide +kernel

example : kinds "+00_4294967295" = [.uint, .float] := by decide +kernel

/-- The number seven after a separator control. -/
def separatedSeven : Spelling 7 where
  before := ['\x1c']
  sign := []
  base := .decimal
  lead := []
  zeros := 0
  row := ⟨'7', []⟩
  after := []
  before_blank := forall_mem_of_all (by decide)
  after_blank := List.forall_mem_nil _
  sign_eq := .inr ⟨.inl rfl, by decide⟩
  lead_mem := List.mem_singleton_self []
  writes := by
    rw [show Nat.digits Base.decimal.radix (Int.natAbs 7) = [7] from
      Nat.digits_of_lt 10 7 (by decide) (by decide)]
    exact .cons (.small rfl) .nil

/-- It has no representation at all, so not every spelling of a number that fits into 32 bits
is read as a signed number, not even if it has few digits. -/
theorem separatedSeven_unread :
    separatedSeven.text = "\x1c7" ∧ kinds separatedSeven.text = [] ∧
      ¬ ∀ (n : Int) (spelling : Spelling n), spelling.row.digits.length ≤ maxDigits →
        (parsesAs spelling.text .int ↔ -2147483648 ≤ n ∧ n < 2147483648) := by
  have htext : separatedSeven.text = "\x1c7" := by decide +kernel
  refine ⟨htext, by rw [htext]; decide +kernel, fun h => ?_⟩
  have read := (h 7 separatedSeven (by decide)).mpr (by decide)
  rw [htext] at read
  revert read
  decide +kernel

end Spelling

end DatalogTyping.Numeral

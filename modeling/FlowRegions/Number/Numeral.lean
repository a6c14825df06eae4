import FlowRegions.Number.Binary64
import FlowRegions.Text.Digit

/-!
# Numerals

Reading an atom as an integer or as a floating-point number.  Digits of every script count, blanks
around a numeral are ignored, and single underscores may separate digits.
-/

namespace FlowRegions.Numeral

/-- Blanks outside ASCII that may surround a numeral. -/
def isWideBlank (c : Char) : Bool :=
  c = '\u0085' || c = '\u00a0' || c = '\u1680' || ('\u2000' ≤ c && c ≤ '\u200a') ||
    c = '\u2028' || c = '\u2029' || c = '\u202f' || c = '\u205f' || c = '\u3000'

/-- Blanks that are dropped at both ends of a numeral. -/
def isBlank (c : Char) : Bool :=
  c = ' ' || ('\t' ≤ c && c ≤ '\r')

/-- A character with digits of other scripts and wide blanks brought to ASCII. -/
def toAscii (c : Char) : Char :=
  if isWideBlank c then ' '
  else match Text.digitValue? c with
    | some value => Nat.digitChar value
    | none => c

/-- The characters of a numeral, brought to ASCII and without the blanks around them. -/
def normalize (s : List Char) : List Char :=
  (((s.map toAscii).dropWhile isBlank).reverse.dropWhile isBlank).reverse

/-- The number that a run of ASCII digits stands for. -/
def value (digits : List Char) : Nat :=
  digits.foldl (fun n c => 10 * n + (c.toNat - '0'.toNat)) 0

/-- Splits off a sign; `true` is a minus. -/
def takeSign : List Char → Bool × List Char
  | '-' :: rest => (true, rest)
  | '+' :: rest => (false, rest)
  | rest => (false, rest)

/-- Is every underscore between two digits?  `afterDigit` tells what stands to the left. -/
def underscoresBetweenDigits (afterDigit : Bool) : List Char → Bool
  | [] => true
  | '_' :: rest =>
    afterDigit && (match rest with | [] => false | c :: _ => c.isDigit) &&
      underscoresBetweenDigits false rest
  | c :: rest => underscoresBetweenDigits c.isDigit rest

/-- Drops the underscores, provided that each stands between two digits. -/
def dropUnderscores? (s : List Char) : Option (List Char) :=
  if underscoresBetweenDigits false s then some (s.filter (· ≠ '_')) else none

/-- The most digits that an integer may have. -/
def maxIntegerDigits : Nat := 4300

/-- Reads a decimal integer; a numeral with too many digits is none. -/
def integer? (s : List Char) : Option Int := do
  let (negative, digits) := takeSign (normalize s)
  let digits ← dropUnderscores? digits
  if digits.isEmpty || !digits.all (·.isDigit) || maxIntegerDigits < digits.length then none
  else some (if negative then -(value digits : Int) else value digits)

/-- Reads an exponent, the part of a numeral from its `e` on; the empty part is exponent zero. -/
def exponent? : List Char → Option Int
  | [] => some 0
  | c :: rest =>
    let (negative, digits) := takeSign rest
    if c.toLower ≠ 'e' || digits.isEmpty || !digits.all (·.isDigit) then none
    else some (if negative then -(value digits : Int) else value digits)

/-- The value of `whole.fraction · 10 ^ exponent`. -/
def decimal (negative : Bool) (whole fraction : List Char) (exponent : Int) : Binary64 :=
  Binary64.ofDecimal negative (value (whole ++ fraction)) (exponent - fraction.length)

/-- Reads an unsigned decimal: digits with at most one point among them, then an exponent. -/
def unsignedDecimal? (negative : Bool) (s : List Char) : Option Binary64 := do
  let whole := s.takeWhile Char.isDigit
  let afterWhole := s.dropWhile Char.isDigit
  let (fraction, rest) : List Char × List Char := match afterWhole with
    | '.' :: rest => (rest.takeWhile Char.isDigit, rest.dropWhile Char.isDigit)
    | rest => ([], rest)
  let exponent ← exponent? rest
  if whole.isEmpty && fraction.isEmpty then none
  else some (decimal negative whole fraction exponent)

/-- Reads a floating-point number: a decimal, an infinity or a nan. -/
def floating? (s : List Char) : Option Binary64 := do
  let (negative, rest) := takeSign (← dropUnderscores? (normalize s))
  let word := rest.map Char.toLower
  if word = "inf".toList || word = "infinity".toList then some (.infinity negative)
  else if word = "nan".toList then some .nan
  else unsignedDecimal? negative rest

end FlowRegions.Numeral

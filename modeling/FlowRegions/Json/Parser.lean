import FlowRegions.Json.Basic
import FlowRegions.Number.Numeral

/-!
# Reading JSON

A strict reader, except that it also takes `NaN`, `Infinity` and `-Infinity`.  A syntax error names
the problem and the place where it was found, as a line, a column and an offset in characters.
-/

namespace FlowRegions.Json

/-- What keeps a text from being a JSON document. -/
inductive Problem where
  | byteOrderMark
  | expectedValue
  | expectedKey
  | expectedColon
  | expectedComma
  | unterminatedString
  | controlCharacter
  | unknownEscape
  | badCodePoint
  | extraData
deriving DecidableEq, Repr

namespace Problem

def message : Problem → String
  | byteOrderMark => "Unexpected UTF-8 BOM (decode using utf-8-sig)"
  | expectedValue => "Expecting value"
  | expectedKey => "Expecting property name enclosed in double quotes"
  | expectedColon => "Expecting ':' delimiter"
  | expectedComma => "Expecting ',' delimiter"
  | unterminatedString => "Unterminated string starting at"
  | controlCharacter => "Invalid control character at"
  | unknownEscape => "Invalid \\escape"
  | badCodePoint => "Invalid \\uXXXX escape"
  | extraData => "Extra data"

end Problem

/-- A failure inside the reader. -/
inductive Failure where
  /-- A problem at the place where so many characters were left. -/
  | malformed (problem : Problem) (left : Nat)
  /-- An integer has so many digits that it is not read. -/
  | oversized (digits : Nat)

/-- A problem with its place in the text; lines and columns count from one. -/
structure SyntaxError where
  problem : Problem
  line : Nat
  column : Nat
  offset : Nat
deriving DecidableEq, Repr

namespace SyntaxError

/-- The error at the place before the last `left` characters of `text`. -/
def locate (problem : Problem) (text : List Char) (left : Nat) : SyntaxError :=
  let before := text.take (text.length - left)
  { problem
    line := before.count '\n' + 1
    column := (before.reverse.takeWhile (· ≠ '\n')).length + 1
    offset := before.length }

def message (e : SyntaxError) : String :=
  s!"{e.problem.message}: line {e.line} column {e.column} (char {e.offset})"

end SyntaxError

/-- Why a text is not read. -/
inductive ReadError where
  | malformed (e : SyntaxError)
  /-- An integer has so many digits that it is not read. -/
  | oversized (digits : Nat)
deriving DecidableEq, Repr

/-- The four blanks of the grammar. -/
def isBlank (c : Char) : Bool :=
  c = ' ' || c = '\t' || c = '\n' || c = '\r'

def skipBlanks (cs : List Char) : List Char :=
  cs.dropWhile isBlank

/-- What follows `word`, if `cs` starts with it. -/
def after? : List Char → List Char → Option (List Char)
  | [], cs => some cs
  | _ :: _, [] => none
  | w :: word, c :: cs => if w = c then after? word cs else none

/-! ### Strings -/

def hexValue? (c : Char) : Option Nat :=
  if c.isDigit then some (c.toNat - '0'.toNat)
  else if 'a' ≤ c && c ≤ 'f' then some (c.toNat - 'a'.toNat + 10)
  else if 'A' ≤ c && c ≤ 'F' then some (c.toNat - 'A'.toNat + 10)
  else none

/-- The number written by the first four characters. -/
def hexQuad? : List Char → Option Nat
  | a :: b :: c :: d :: _ => do
    return (← hexValue? a) * 4096 + (← hexValue? b) * 256 + (← hexValue? c) * 16 + (← hexValue? d)
  | _ => none

def isHighSurrogate (n : Nat) : Bool := 0xd800 ≤ n && n ≤ 0xdbff

def isLowSurrogate (n : Nat) : Bool := 0xdc00 ≤ n && n ≤ 0xdfff

/-- The character of a code unit.  A surrogate without its partner is none.  Where strings are made
of code points it would be kept; here it is replaced, and strings that differ in such surrogates
only become equal. -/
def charOfUnit (n : Nat) : Char :=
  if isHighSurrogate n || isLowSurrogate n then '\ufffd' else Char.ofNat n

/-- Reads a code point escape after its `u`.  A character must follow the four digits, and two
escapes that form a surrogate pair are one character. -/
def codePoint (cs : List Char) : Except Failure (Char × List Char) :=
  let bad (left : Nat) : Except Failure (Char × List Char) :=
    .error (.malformed .badCodePoint left)
  if (cs.drop 4).isEmpty then bad (cs.length + 1)
  else match hexQuad? cs with
    | none => bad (cs.length + 1)
    | some unit =>
      let rest := cs.drop 4
      match rest with
      | '\\' :: 'u' :: second =>
        if isHighSurrogate unit && !(second.drop 4).isEmpty then
          match hexQuad? second with
          | none => bad (second.length + 1)
          | some low =>
            if isLowSurrogate low then
              .ok (Char.ofNat (0x10000 + (unit - 0xd800) * 0x400 + (low - 0xdc00)), second.drop 4)
            else .ok (charOfUnit unit, rest)
        else .ok (charOfUnit unit, rest)
      | _ => .ok (charOfUnit unit, rest)

/-- The character that a one-letter escape stands for. -/
def escapedChar? : Char → Option Char
  | '"' => some '"'
  | '\\' => some '\\'
  | '/' => some '/'
  | 'b' => some '\x08'
  | 'f' => some '\x0c'
  | 'n' => some '\n'
  | 'r' => some '\r'
  | 't' => some '\t'
  | _ => none

/-- Reads a string after its opening quotation mark, where `opening` characters were left.  The
fuel is the number of characters left. -/
def stringBody (opening : Nat) : Nat → List Char → Except Failure (List Char × List Char)
  | 0, _ => .error (.malformed .unterminatedString opening)
  | fuel + 1, cs =>
    match cs with
    | [] => .error (.malformed .unterminatedString opening)
    | '"' :: rest => .ok ([], rest)
    | ['\\'] => .error (.malformed .unterminatedString opening)
    | '\\' :: 'u' :: rest => do
      let (c, rest) ← codePoint rest
      let (body, rest) ← stringBody opening fuel rest
      return (c :: body, rest)
    | '\\' :: e :: rest =>
      match escapedChar? e with
      | none => .error (.malformed .unknownEscape (rest.length + 2))
      | some c => do
        let (body, rest) ← stringBody opening fuel rest
        return (c :: body, rest)
    | c :: rest =>
      if c.toNat ≤ 0x1f then .error (.malformed .controlCharacter (rest.length + 1))
      else do
        let (body, rest) ← stringBody opening fuel rest
        return (c :: body, rest)

def stringAfterQuote (cs : List Char) : Except Failure (String × List Char) := do
  let (body, rest) ← stringBody (cs.length + 1) (cs.length + 1) cs
  return (String.ofList body, rest)

/-! ### Numbers -/

/-- Splits off an optional fraction: a point with at least one digit behind it. -/
def takeFraction : List Char → List Char × List Char
  | '.' :: c :: rest =>
    if c.isDigit then ((c :: rest).takeWhile Char.isDigit, (c :: rest).dropWhile Char.isDigit)
    else ([], '.' :: c :: rest)
  | cs => ([], cs)

/-- Splits off an optional exponent, an `e` with a sign or none and at least one digit. -/
def takeExponent (cs : List Char) : Option Int × List Char :=
  match cs with
  | e :: rest =>
    let (negative, digits) := Numeral.takeSign rest
    if (e = 'e' || e = 'E') && digits.head?.any Char.isDigit then
      let n : Int := Numeral.value (digits.takeWhile Char.isDigit)
      (some (if negative then -n else n), digits.dropWhile Char.isDigit)
    else (none, cs)
  | [] => (none, [])

/-- Splits off the digits before the point: a zero alone, or digits that start with no zero. -/
def takeWhole : List Char → List Char × List Char
  | '0' :: rest => (['0'], rest)
  | cs => (cs.takeWhile Char.isDigit, cs.dropWhile Char.isDigit)

/-- Reads a number.  Without fraction and exponent it is an integer, whose digits are limited. -/
def number (cs : List Char) : Except Failure (Json × List Char) :=
  let (negative, unsigned) := match cs with
    | '-' :: rest => (true, rest)
    | rest => (false, rest)
  let (whole, afterWhole) := takeWhole unsigned
  let (fraction, afterFraction) := takeFraction afterWhole
  let (exponent?, rest) := takeExponent afterFraction
  if whole.isEmpty then .error (.malformed .expectedValue cs.length)
  else if fraction.isEmpty && exponent?.isNone then
    if Numeral.maxIntegerDigits < whole.length then .error (.oversized whole.length)
    else
      let n : Int := Numeral.value whole
      .ok (.int (if negative then -n else n), rest)
  else .ok (.float (Numeral.decimal negative whole fraction (exponent?.getD 0)), rest)

/-! ### Values -/

def words : List (List Char × Json) := [
  ("null".toList, .null), ("true".toList, .bool true), ("false".toList, .bool false),
  ("NaN".toList, .float .nan), ("Infinity".toList, .float (.infinity false)),
  ("-Infinity".toList, .float (.infinity true))]

def scalar (cs : List Char) : Except Failure (Json × List Char) :=
  match words.findSome? fun word => (after? word.1 cs).map (word.2, ·) with
  | some found => .ok found
  | none => number cs

mutual

/-- Reads the value that starts at the first character. -/
def value : Nat → List Char → Except Failure (Json × List Char)
  | 0, cs => .error (.malformed .expectedValue cs.length)
  | fuel + 1, cs =>
    match cs with
    | '"' :: rest => do
      let (s, rest) ← stringAfterQuote rest
      return (.string s, rest)
    | '{' :: rest =>
      match skipBlanks rest with
      | '}' :: rest => .ok (.object [], rest)
      | rest => do
        let (fields, rest) ← members fuel [] rest
        return (.object fields, rest)
    | '[' :: rest =>
      match skipBlanks rest with
      | ']' :: rest => .ok (.array [], rest)
      | rest => do
        let (found, rest) ← items fuel rest
        return (.array found, rest)
    | cs => scalar cs

/-- Reads the members of an object from the next key up to the closing brace. -/
def members : Nat → List (String × Json) → List Char →
    Except Failure (List (String × Json) × List Char)
  | 0, _, cs => .error (.malformed .expectedKey cs.length)
  | fuel + 1, fields, cs =>
    match cs with
    | '"' :: rest => do
      let (key, rest) ← stringAfterQuote rest
      match skipBlanks rest with
      | ':' :: rest =>
        let (found, rest) ← value fuel (skipBlanks rest)
        let fields := setField key found fields
        match skipBlanks rest with
        | '}' :: rest => return (fields, rest)
        | ',' :: rest => members fuel fields (skipBlanks rest)
        | rest => .error (.malformed .expectedComma rest.length)
      | rest => .error (.malformed .expectedColon rest.length)
    | cs => .error (.malformed .expectedKey cs.length)

/-- Reads the items of an array from the next one up to the closing bracket. -/
def items : Nat → List Char → Except Failure (List Json × List Char)
  | 0, cs => .error (.malformed .expectedValue cs.length)
  | fuel + 1, cs => do
    let (found, rest) ← value fuel cs
    match skipBlanks rest with
    | ']' :: rest => return ([found], rest)
    | ',' :: rest =>
      let (others, rest) ← items fuel (skipBlanks rest)
      return (found :: others, rest)
    | rest => .error (.malformed .expectedComma rest.length)

end

/-- Reads a document: one value with blanks around it.  Every step that spends fuel comes at most
once before and once after a character is read, so twice the length is enough. -/
def document (cs : List Char) : Except Failure Json := do
  if cs.head? = some '\ufeff' then throw (.malformed .byteOrderMark cs.length)
  let (found, rest) ← value (2 * cs.length + 2) (skipBlanks cs)
  let rest := skipBlanks rest
  if rest.isEmpty then return found else throw (.malformed .extraData rest.length)

def parse (text : String) : Except ReadError Json :=
  match document text.toList with
  | .ok found => .ok found
  | .error (.malformed problem left) => .error (.malformed (.locate problem text.toList left))
  | .error (.oversized digits) => .error (.oversized digits)

end FlowRegions.Json

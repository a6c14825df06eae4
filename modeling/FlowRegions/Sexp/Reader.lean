import FlowRegions.Sexp.Basic
import FlowRegions.Number.Numeral

/-!
# Reading S-expressions

Blanks and comments separate forms, an apostrophe quotes the form after it, and a backslash in an
atom takes the next character as a letter.  An atom that reads as a number is one; every other atom
is a symbol.
-/

namespace FlowRegions.Sexp

/-- What keeps a text from being read. -/
inductive ReadError where
  /-- A bracket is closed by `found`, or by the end of the text, instead of by `expected`. -/
  | unclosed (expected : Char) (found : Option Char)
  /-- Text is left behind the last form. -/
  | leftover (rest : String)
  /-- The apostrophe at `position` quotes nothing. -/
  | nothingQuoted (position : Nat)
  /-- A string runs to the end of the text. -/
  | unterminatedString
  /-- The text holds more or fewer forms than the one expected. -/
  | notOneForm
deriving DecidableEq, Repr

namespace ReadError

def message : ReadError → String
  | unclosed expected found =>
    "Not enough closing brackets. Expected " ++ Text.quoted expected.toString ++
      " to be the last letter in the sexp. Got: " ++
      (match found with
        | some c => Text.quoted c.toString
        | none => "None")
  | leftover rest =>
    "Too many closing brackets. Expected no character left in the sexp. Got: " ++
      Text.quoted rest
  | nothingQuoted position =>
    s!"No s-exp is found after an apostrophe at position {position}"
  | unterminatedString => "'NoneType' object has no attribute 'start'"
  | notOneForm => ""

end ReadError

/-- A failure inside the reader; a place is given by how many characters were left there. -/
inductive Failure where
  | unclosed (expected : Char) (found : Option Char)
  | nothingQuoted (left : Nat)
  | unterminatedString

namespace Failure

/-- The failure as an error of a text with `length` characters. -/
def toReadError (length : Nat) : Failure → ReadError
  | unclosed expected found => .unclosed expected found
  | nothingQuoted left => .nothingQuoted (length - left)
  | unterminatedString => .unterminatedString

end Failure

def isBlank (c : Char) : Bool :=
  c = ' ' || ('\t' ≤ c && c ≤ '\r')

/-- Skips blanks and comments; `inComment` tells whether a comment is open. -/
def skip (inComment : Bool) : List Char → List Char
  | [] => []
  | c :: rest =>
    if inComment then skip (c ≠ '\n') rest
    else if c = ';' then skip true rest
    else if isBlank c then skip false rest
    else c :: rest

/-! ### Strings and atoms -/

/-- The text that a backslash and `c` stand for in a string. -/
def stringEscape : Char → List Char
  | '\\' => ['\\']
  | '"' => ['"']
  | 'b' => ['\x08']
  | 'f' => ['\x0c']
  | 'n' => ['\n']
  | 'r' => ['\r']
  | 't' => ['\t']
  | c => ['\\', c]

/-- Reads a string after its opening quotation mark, if it is closed. -/
def stringAfterQuote? : List Char → Option (List Char × List Char)
  | [] => none
  | '"' :: rest => some ([], rest)
  | '\\' :: c :: rest => (stringAfterQuote? rest).map fun (body, rest) =>
      (stringEscape c ++ body, rest)
  | c :: rest => (stringAfterQuote? rest).map fun (body, rest) => (c :: body, rest)

/-- Does a backslash before `c` in an atom stand for `c` alone? -/
def isAtomEscape (c : Char) : Bool :=
  "\\'`\"()[] ,?;#".toList.contains c

def endsAtom (c : Char) : Bool :=
  c = '(' || c = ')' || c = '[' || c = ']' || c = '"' || c = ';' || isBlank c

def atomText : List Char → List Char × List Char
  | [] => ([], [])
  | '\\' :: c :: rest =>
    let (body, rest) := atomText rest
    (if isAtomEscape c then c :: body else '\\' :: c :: body, rest)
  | c :: rest =>
    if endsAtom c then ([], c :: rest)
    else
      let (body, rest) := atomText rest
      (c :: body, rest)

/-- The form that an atom stands for. -/
def ofAtom (body : List Char) : Sexp :=
  match Numeral.integer? body with
  | some value => int value
  | none =>
    match Numeral.floating? body with
    | some value => float value
    | none => symbol (String.ofList body)

/-! ### Forms -/

def closeBracket (expected : Char) : List Char → Except Failure (List Char)
  | [] => .error (.unclosed expected none)
  | c :: rest => if c = expected then .ok rest else .error (.unclosed expected (some c))

mutual

/-- Reads the next form, or nothing before a closing bracket or the end of the text. -/
def next : Nat → List Char → Except Failure (Option Sexp × List Char)
  | 0, cs => .ok (none, cs)
  | fuel + 1, cs =>
    match skip false cs with
    | [] => .ok (none, [])
    | '"' :: rest =>
      match stringAfterQuote? rest with
      | none => .error .unterminatedString
      | some (body, rest) => .ok (some (string (String.ofList body)), rest)
    | '(' :: rest => do
      let (items, rest) ← forms fuel rest
      let rest ← closeBracket ')' rest
      return (some (list items), rest)
    | '[' :: rest => do
      let (items, rest) ← forms fuel rest
      let rest ← closeBracket ']' rest
      return (some (brackets items), rest)
    | '\'' :: rest => do
      match ← next fuel rest with
      | (some form, rest) => return (some (quoted form), rest)
      | (none, _) => throw (.nothingQuoted (rest.length + 1))
    | c :: rest =>
      if c = ')' || c = ']' then .ok (none, c :: rest)
      else
        let (body, rest) := atomText (c :: rest)
        .ok (some (ofAtom body), rest)

/-- Reads forms up to a closing bracket or the end of the text. -/
def forms : Nat → List Char → Except Failure (List Sexp × List Char)
  | 0, cs => .ok ([], cs)
  | fuel + 1, cs => do
    match ← next fuel cs with
    | (none, rest) => return ([], rest)
    | (some form, rest) =>
      let (others, rest) ← forms fuel rest
      return (form :: others, rest)

end

/-- Reads a text that holds exactly one form.  At most two steps spend fuel between two characters
that are read, so twice the length is enough. -/
def parse (text : String) : Except ReadError Sexp :=
  let cs := text.toList
  match forms (2 * cs.length + 2) cs with
  | .error failure => .error (failure.toReadError cs.length)
  | .ok (found, rest) =>
    if rest.isEmpty then
      match found with
      | [form] => .ok form
      | _ => .error .notOneForm
    else .error (.leftover (String.ofList rest))

/-- Reads the forms of a text, as the items of one list around it. -/
def parseForms (text : String) : Except ReadError (List Sexp) := do
  match ← parse ("(\n" ++ text ++ "\n)") with
  | list items => return items
  | _ => throw .notOneForm

end FlowRegions.Sexp

import FlowRegions.Text.Printable

/-!
# Quoted literals

A text is shown between quotes so that it reads as one token of a message.  Apostrophes are used
unless the text holds an apostrophe and no quotation mark; whatever does not print is written as an
escape.
-/

namespace FlowRegions.Text

/-- The hexadecimal digits of `n`, padded with zeros to at least `width` of them. -/
def hexDigits (width n : Nat) : List Char :=
  let digits := Nat.toDigits 16 n
  List.replicate (width - digits.length) '0' ++ digits

/-- The escape of a character that does not print: the shortest of the three widths that holds
it. -/
def codePointEscape (c : Char) : List Char :=
  let n := c.toNat
  if n ≤ 0xff then '\\' :: 'x' :: hexDigits 2 n
  else if n ≤ 0xffff then '\\' :: 'u' :: hexDigits 4 n
  else '\\' :: 'U' :: hexDigits 8 n

def quoteFor (s : List Char) : Char :=
  if s.contains '\'' && !s.contains '"' then '"' else '\''

/-- One character of a literal surrounded by `quote`. -/
def quotedChar (quote c : Char) : List Char :=
  if c = quote || c = '\\' then ['\\', c]
  else if c = '\n' then ['\\', 'n']
  else if c = '\r' then ['\\', 'r']
  else if c = '\t' then ['\\', 't']
  else if isPrintable c then [c]
  else codePointEscape c

/-- The literal that stands for `s`. -/
def quoted (s : String) : String :=
  let quote := quoteFor s.toList
  String.ofList (quote :: s.toList.flatMap (quotedChar quote) ++ [quote])

end FlowRegions.Text

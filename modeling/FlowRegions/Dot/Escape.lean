/-!
# Escaping of labels

A label stands inside the quotation marks of a record node.  Record delimiters, quotation marks and
backslashes are escaped, a line break becomes `\n`, and a tab becomes two spaces.  Two sequences
pass through: `\l`, which ends a left-justified line, and a backslash that already escapes a bar or
a brace, which is not escaped a second time.
-/

namespace FlowRegions.Dot

/-- The characters that a record label cannot hold bare, the backslash aside. -/
def isRecordSpecial (c : Char) : Bool :=
  c = '{' || c = '}' || c = '<' || c = '>' || c = '|' || c = '"'

/-- The characters in front of which a backslash counts as an escape already written. -/
def isEscapable (c : Char) : Bool :=
  c = '|' || c = '{' || c = '}'

/-- The escaped form of a character that no look-ahead concerns. -/
def escapeChar (c : Char) : List Char :=
  if c = '\n' then ['\\', 'n']
  else if c = '\t' then [' ', ' ']
  else if c = '\\' || isRecordSpecial c then ['\\', c]
  else [c]

/-- The escaped form of a label, read from the left with one character of look-ahead. -/
def escapeChars : List Char → List Char
  | [] => []
  | '\\' :: 'l' :: rest => '\\' :: 'l' :: escapeChars rest
  | '\\' :: c :: rest =>
    if isEscapable c then '\\' :: c :: escapeChars rest
    else '\\' :: '\\' :: escapeChars (c :: rest)
  | c :: rest => escapeChar c ++ escapeChars rest

/-- The escaped form of a label. -/
def escape (label : String) : String :=
  String.ofList (escapeChars label.toList)

@[simp] theorem escapeChars_nil : escapeChars [] = [] := rfl

theorem toList_escape (label : String) : (escape label).toList = escapeChars label.toList :=
  String.toList_ofList

end FlowRegions.Dot

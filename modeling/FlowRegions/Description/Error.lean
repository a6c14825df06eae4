import FlowRegions.Json.Parser
import FlowRegions.Sexp.Reader
import FlowRegions.Region.Verify

/-!
# Errors in descriptions

What can be wrong with the description of a function, and how errors are reported: the source in
front of the message, and the function in front of both.
-/

namespace FlowRegions

/-- An error as it is reported. -/
structure Diagnostic where
  message : String
  source? : Option String := none
  function : String := ""
deriving DecidableEq, Repr

/-- The text of a report.  An empty source or function is left out. -/
def Diagnostic.text (d : Diagnostic) : String :=
  let located := match d.source? with
    | none => d.message
    | some source => if source.isEmpty then d.message else source ++ ": " ++ d.message
  if d.function.isEmpty then located else "in function '" ++ d.function ++ "': " ++ located

/-- Where a description mentions a block. -/
inductive BlockRole where
  | edgeSource
  | edgeTarget
  | regionEntry
  | regionExit
  | regionBlock
deriving DecidableEq, Repr

def BlockRole.text : BlockRole → String
  | edgeSource => "edge source"
  | edgeTarget => "edge destination"
  | regionEntry => "region entry"
  | regionExit => "region exit"
  | regionBlock => "region block"

/-- Why a text is no description of functions, or not of those asked for. -/
inductive LoadFault where
  | json (e : Json.SyntaxError)
  | sexp (e : Sexp.ReadError)
  | unknownBlock (role : BlockRole) (block function : String)
  | duplicateBlock (e : DuplicateBlock)
  | noBlocks (function : String)
  | notObject (value : Json)
  | notList (key function : String) (value : Json)
  | badBlock (function : String) (value : Json)
  | badEdge (value : Json)
  | regionWithoutEntry (function : String) (value : Json)
  | simpleNotBoolean (value : Json)
  | notFunctionForm (form : Sexp)
  | notName (form : Sexp)
  | notBoolean (form : Sexp)
  | notSymbol (form : Sexp)
  | blockFormWithoutName (function : String)
  | badEdgeForm (form : Sexp)
  | secondRegionForm (function : String)
  | unexpectedForm (function : String) (form : Sexp)
  | keywordWithoutValue (keyword : String)
  | unexpectedRegionForm (form : Sexp)
  | regionFormWithoutEntry (function : String)
  | unknownSuffix (suffix : String)
  | unreadable (reason : String)
  | unknownFormat (format : String)
  | noSuchFunction (names : List String)

namespace LoadFault

def message : LoadFault → String
  | json e => "JSON syntax error: " ++ e.message
  | sexp e => "S-expression syntax error: " ++ e.message
  | unknownBlock role block function =>
    s!"{role.text} refers to unknown block '{block}' in function '{function}'"
  | duplicateBlock e => e.message
  | noBlocks function => s!"function '{function}' has no blocks"
  | notObject value => s!"expected a function object, got {value.kindName}"
  | notList key function value =>
    s!"'{key}' in function '{function}' must be a list, got {value.shown}"
  | badBlock function value =>
    s!"bad block description in function '{function}': {value.shown}"
  | badEdge value => s!"edge must be a [src, dst] pair, got {value.shown}"
  | regionWithoutEntry function value =>
    s!"region in function '{function}' needs an 'entry': {value.shown}"
  | simpleNotBoolean value => s!"region 'simple' must be a boolean, got {value.shown}"
  | notFunctionForm form => s!"expected (function NAME ...), got {form.shown}"
  | notName form => s!"Expected name, got {form.kindName}: {form.shown}"
  | notBoolean form => s!"Expected boolean, got {form.kindName}: {form.shown}"
  | notSymbol form => s!"Expected symbol, got {form.kindName}: {form.shown}"
  | blockFormWithoutName function => s!"block needs a name in function '{function}'"
  | badEdgeForm form => s!"edge must be (edge SRC DST), got {form.shown}"
  | secondRegionForm function =>
    s!"function '{function}' has more than one top-level region"
  | unexpectedForm function form => s!"unexpected form in function '{function}': {form.shown}"
  | keywordWithoutValue keyword => s!"missing value for {keyword} in region"
  | unexpectedRegionForm form => s!"unexpected form in region: {form.shown}"
  | regionFormWithoutEntry function => s!"region in function '{function}' needs an :entry"
  | unknownSuffix suffix =>
    s!"cannot tell the input format from '{suffix}'; use --format"
  | unreadable reason => s!"cannot read input: {reason}"
  | unknownFormat format => s!"unknown input format '{format}'"
  | noSuchFunction names => "no such function: " ++ ", ".intercalate names

end LoadFault

/-- A fault with the source that it was found in, where that is known. -/
structure LoadError where
  fault : LoadFault
  source? : Option String := none

def LoadError.diagnostic (e : LoadError) : Diagnostic where
  message := e.fault.message
  source? := e.source?

def TreeError.diagnostic (e : TreeError) : Diagnostic where
  message := e.fault.message
  function := e.graph

/-- Why a document was refused: its text is no description, a region tree in it is broken, or an
integer in it is too long to be read. -/
inductive DocumentError where
  | load (e : LoadError)
  | tree (e : TreeError)
  | oversized (digits : Nat)

/-- What is said about an integer with too many digits. -/
def oversizedMessage (digits : Nat) : String :=
  s!"Exceeds the limit ({Numeral.maxIntegerDigits} digits) for integer string conversion: " ++
    s!"value has {digits} digits; use sys.set_int_max_str_digits() to increase the limit"

def DocumentError.diagnostic : DocumentError → Diagnostic
  | load e => e.diagnostic
  | tree e => e.diagnostic
  | oversized digits => { message := oversizedMessage digits }

end FlowRegions

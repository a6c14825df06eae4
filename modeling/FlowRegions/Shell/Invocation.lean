import FlowRegions.Description.Document
import FlowRegions.Rendering
import FlowRegions.Shell.Arguments

/-!
# Invocations

What the arguments of the program ask for: a verbosity and a command with its input, its rendering
and where the results go.
-/

namespace FlowRegions.Shell

/-- Where functions come from, and which of them are wanted. -/
structure Source where
  input : Value
  /-- The form of the document; empty if the name of the file tells it. -/
  formatName : String := ""
  /-- The names of the functions that are wanted; none for all. -/
  functions : List Value := []
deriving DecidableEq, Repr

/-- What is to be done. -/
inductive Command where
  /-- Write every drawing to a file of its own and, if a format is given, lay it out as an image. -/
  | dot (source : Source) (rendering : Rendering) (directory : String)
      (imageFormat? : Option String)
  /-- Write all drawings to one file or, without one, to the output. -/
  | print (source : Source) (rendering : Rendering) (target? : Option Value)
  /-- Show every drawing. -/
  | view (source : Source) (rendering : Rendering)
  /-- Run the pass with the given name. -/
  | run (pass : Value) (source : Source) (onlySimple : Bool) (stem? : Option String)
      (directory : String)
  /-- List the passes. -/
  | passes
deriving DecidableEq, Repr

def programName : String := "regionviz"

namespace OptionRule

def help : OptionRule := ⟨["-h", "--help"], .help, []⟩
def version : OptionRule := ⟨["--version"], .version, []⟩
def verbose : OptionRule := ⟨["-v", "--verbose"], .flag, []⟩
def format : OptionRule := ⟨["--format"], .value, [Format.json.name, Format.sexp.name]⟩
def function : OptionRule := ⟨["--function"], .value, []⟩
def onlySimple : OptionRule := ⟨["--only-simple-regions"], .flag, []⟩
def namesOnly : OptionRule := ⟨["--regions-only"], .flag, []⟩
def stem : OptionRule := ⟨["--prefix"], .value, []⟩
def output : OptionRule := ⟨["-o", "--output"], .value, []⟩
def imageFormat : OptionRule := ⟨["--render"], .value, []⟩

end OptionRule

/-- The commands by name. -/
inductive CommandName where
  | dot
  | print
  | view
  | run
  | passes
deriving DecidableEq, Repr

namespace CommandName

def text : CommandName → String
  | dot => "dot"
  | print => "print"
  | view => "view"
  | run => "run"
  | passes => "passes"

def all : List CommandName := [dot, print, view, run, passes]

def ofText? (text : String) : Option CommandName :=
  all.find? (·.text == text)

def options : CommandName → List OptionRule
  | dot => [.help, .format, .function, .onlySimple, .namesOnly, .stem, .output, .imageFormat]
  | print => [.help, .format, .function, .onlySimple, .namesOnly, .stem, .output]
  | view => [.help, .format, .function, .onlySimple, .namesOnly, .stem]
  | run => [.help, .format, .function, .onlySimple, .stem, .output]
  | passes => [.help]

def operands : CommandName → List String
  | run => ["PASS", "INPUT"]
  | passes => []
  | _ => ["INPUT"]

def grammar (name : CommandName) : Grammar where
  program := programName ++ " " ++ name.text
  options := name.options
  operands := name.operands

end CommandName

def programGrammar : Grammar where
  program := programName
  options := [.help, .version, .verbose]
  commands := CommandName.all.map CommandName.text

namespace Finding

/-- The values that an option was given, in order; one for every time that it was given. -/
def valuesOf (rule : OptionRule) (findings : List Finding) : List Value :=
  findings.filterMap fun
    | option found value => if found = rule then some value else none
    | _ => none

/-- The value that an option was given last. -/
def valueOf? (rule : OptionRule) (findings : List Finding) : Option Value :=
  (valuesOf rule findings).getLast?

/-- The text that an option was given last, if it has any characters. -/
def textOf? (rule : OptionRule) (findings : List Finding) : Option String :=
  (valueOf? rule findings).bind Value.nonempty?

def has (rule : OptionRule) (findings : List Finding) : Bool :=
  !(valuesOf rule findings).isEmpty

def operandOf (name : String) (findings : List Finding) : Value :=
  (findings.findSome? fun
    | operand found value => if found = name then some value else none
    | _ => none).getD .empty

def command? (findings : List Finding) : Option (CommandName × List String) :=
  findings.findSome? fun
    | command name arguments => (CommandName.ofText? name).map (·, arguments)
    | _ => none

end Finding

namespace Command

def sourceOf (findings : List Finding) : Source where
  input := Finding.operandOf "INPUT" findings
  formatName := (Finding.textOf? .format findings).getD ""
  functions := Finding.valuesOf .function findings

def renderingOf (findings : List Finding) : Rendering where
  look := {
    namesOnly := Finding.has .namesOnly findings
    onlySimple := Finding.has .onlySimple findings }
  stem := ((Finding.valueOf? .stem findings).map Value.shown).getD "reg"

/-- The directory for results; the working directory if none is given, or an empty one. -/
def directoryOf (findings : List Finding) : String :=
  (Finding.textOf? .output findings).getD "."

/-- The command that is asked for by what was found among its arguments. -/
def ofFindings (name : CommandName) (findings : List Finding) : Command :=
  match name with
  | .dot =>
    dot (sourceOf findings) (renderingOf findings) (directoryOf findings)
      (Finding.textOf? .imageFormat findings)
  | .print => print (sourceOf findings) (renderingOf findings) (Finding.valueOf? .output findings)
  | .view => view (sourceOf findings) (renderingOf findings)
  | .run =>
    run (Finding.operandOf "PASS" findings) (sourceOf findings)
      (Finding.has .onlySimple findings) (Finding.textOf? .stem findings) (directoryOf findings)
  | .passes => passes

end Command

/-- A verbosity and, if one is named, a command. -/
structure Invocation where
  verbosity : Nat := 0
  command? : Option Command := none
deriving DecidableEq, Repr

namespace Invocation

/-- Refuses arguments that nothing takes. -/
def refuse (extras : List String) : Except Stop Unit :=
  if extras.isEmpty then .ok ()
  else .error (.misuse programName ("unrecognized arguments: " ++ " ".intercalate extras))

def ofArguments (arguments : List String) : Except Stop Invocation := do
  let (findings, extras) ← programGrammar.read arguments
  let verbosity := (Finding.valuesOf .verbose findings).length
  match Finding.command? findings with
  | none =>
    refuse extras
    return { verbosity }
  | some (name, arguments) =>
    let (found, more) ← name.grammar.read arguments
    refuse (extras ++ more)
    return { verbosity, command? := some (.ofFindings name found) }

end Invocation

end FlowRegions.Shell

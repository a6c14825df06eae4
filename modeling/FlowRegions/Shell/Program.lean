import FlowRegions.Shell.Drawings
import FlowRegions.Shell.Invocation
import FlowRegions.Shell.Loading

/-!
# The program

What each command does on a host, and how the program ends.
-/

namespace FlowRegions.Shell

variable {m : Type → Type} [Monad m] [Host m]

/-- The path in which a home directory stands for a first part that begins with a tilde. -/
def expandHome (p : Path) : Action m Path := do
  match p.parts with
  | first :: rest =>
    match p.root.isEmpty, first.toList with
    | true, '~' :: user =>
      if user.contains '\x00' then throw (.file .nul)
      else match ← (Host.home? (String.ofList user) : m _) with
        | some home => return { home with parts := home.parts ++ rest }
        | none => throw .homeUnknown
    | _, _ => return p
  | [] => return p

def resolve (value : Value) : Action m Path := do
  match value with
  | .empty => throw .noPath
  | .text text =>
    let p ← expandHome (.ofString text)
    if p.hasNul then throw (.file .nul)
    else
      let here ← (Host.workingDirectory : m _)
      return here.resolve p

/-- The path of the input, at which there must be something. -/
def findInput (value : Value) : Action m Path := do
  let p ← resolve value
  match ← (Host.probe p : m _) with
  | .ok () => return p
  | .error e =>
    if e = .failed .noEntry p.text ∨ e = .failed .notDirectory p.text then throw (.inputMissing p)
    else throw (.file e)

def nameOf : Value → Action m String
  | .empty => throw .noName
  | .text name => return name

def loadSource (verbosity : Nat) (source : Source) : Action m (List RegionGraph) := do
  let p ← findInput source.input
  let functions ← loadFile verbosity p source.formatName
  let names ← source.functions.mapM nameOf
  match Document.select functions names with
  | .ok functions => return functions
  | .error e => throw (.document (.load e))

/-- Opens the file that a value names; none is named by a dash. -/
def openTarget (target? : Option Value) : Action m (Option Path) := do
  match target? with
  | none => return none
  | some value =>
    if value = .text "-" then return none
    else
      let p ← resolve value
      openFile p
      return some p

def announce (p : Path) : Action m Unit :=
  (Host.emit .err s!"Writing '{p.text}'...\n" : m Unit)

/-- The line about a pass, with room for names of twenty characters. -/
def passLine (pass : Pass) : String :=
  let padding := String.ofList (List.replicate (20 - pass.name.length) ' ')
  "  " ++ pass.name ++ padding ++ " " ++ pass.description ++ "\n"

def Command.execute (verbosity : Nat) : Command → Action m Unit
  | dot source rendering directory imageFormat? => do
    let functions ← loadSource verbosity source
    functions.forM fun rg => do
      announce (← writeDrawing verbosity rendering (.ofString directory) rg)
      match imageFormat? with
      | none => return ()
      | some format => discard (layOutDrawing verbosity rendering format directory rg)
  | print source rendering target? => do
    let target? ← openTarget target?
    let functions ← loadSource verbosity source
    let drawings ← functions.mapM (draw verbosity rendering)
    let text := String.join (drawings.map Dot.Drawing.text)
    match target? with
    | none => (Host.emit .out text : m Unit)
    | some p => Action.ofFile (Host.write p text.toUTF8 : m _)
  | view source rendering => do
    let functions ← loadSource verbosity source
    functions.forM (viewDrawing verbosity rendering)
  | run value source onlySimple stem? directory => do
    let name ← nameOf value
    match Pass.find? name with
    | none => throw (.unknownPass name)
    | some pass =>
      let functions ← loadSource verbosity source
      functions.forM fun rg => do
        let written? ← runPass verbosity pass (pass.rendering onlySimple stem?)
          (.ofString directory) rg
        match written? with
        | none => return ()
        | some p => announce p
  | passes => (Host.emit .out (String.join (Pass.all.map passLine)) : m Unit)

def version : String := "0.1.0"

/-- A short help with a text of its own, which stands for a full one: the descriptions of the
commands, the lists of their options and the examples are left out. -/
def helpText : String :=
  "usage: regionviz [-h] [--version] [-v] <command> ...\n\n" ++
  "commands:\n" ++
  "  dot INPUT       write every drawing to a file of its own\n" ++
  "  print INPUT     print the drawings\n" ++
  "  view INPUT      open the drawings in a viewer\n" ++
  "  run PASS INPUT  run a named pass\n" ++
  "  passes          list the named passes\n"

/-- Carries out an invocation; the result is the exit status. -/
def Invocation.run (i : Invocation) : m Nat := do
  match i.command? with
  | none =>
    Host.emit .err helpText
    return 2
  | some command =>
    match ← (command.execute i.verbosity : Action m Unit).run with
    | .ok () => return 0
    | .error fault =>
      log i.verbosity fault.entry
      return fault.status

/-- Says why arguments are not taken further; the result is the exit status. -/
def Stop.report : Stop → m Nat
  | misuse program reason => do
    Host.emit .err s!"{program}: error: {reason}\n"
    return 2
  | version => do
    Host.emit .out s!"{programName} {Shell.version}\n"
    return 0
  | help => do
    Host.emit .out helpText
    return 0

/-- Runs the program with the given arguments; the result is the exit status. -/
def runProgram (arguments : List String) : m Nat :=
  match Invocation.ofArguments arguments with
  | .ok invocation => invocation.run
  | .error stop => stop.report

end FlowRegions.Shell

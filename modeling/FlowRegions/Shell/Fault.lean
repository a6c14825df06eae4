import FlowRegions.Rendering
import FlowRegions.Shell.Host
import FlowRegions.Text.Utf8

/-!
# Faults

Why a command ends early, what it says then, and its exit status: one for what is wrong with a
document or a viewer, two for what is wrong around them.
-/

namespace FlowRegions.Shell

/-- Why a command ends early. -/
inductive Fault where
  | document (e : DocumentError)
  /-- The input is no text. -/
  | undecodable (e : Text.Utf8Fault)
  | file (e : FileError)
  | inputMissing (p : Path)
  /-- Nobody knows where the home directory is that a path begins with. -/
  | homeUnknown
  | unknownPass (name : String)
  /-- A path is asked for, and the value is empty. -/
  | noPath
  /-- A name is asked for, and the value is empty. -/
  | noName
  | notAnalysed (e : NotAnalysed)
  /-- A drawing could not be shown or laid out. -/
  | display (reason : String)
  | tool (e : ToolFault)

namespace Fault

def detail : Fault → String
  | document e => e.diagnostic.text
  | undecodable e => e.message
  | file e => e.message
  | inputMissing p => s!"input file not found: {p.text}"
  | homeUnknown => "Could not determine home directory."
  | unknownPass name => Pass.unknownMessage name
  | noPath => "expected str, bytes or os.PathLike object, not list"
  | noName => "unhashable type: 'list'"
  | notAnalysed _ => "a region with blocks was not analysed"
  | display reason => reason
  | tool e => e.message

/-- The message that a command ends with.  A list of the calls that led to an unhandled exception,
which would stand behind it, is left out. -/
def entry (e : Fault) : LogEntry :=
  match e with
  | tool .interrupted => ⟨.info, .program, "Interrupted by user."⟩
  | document (.load _) | document (.tree _) | display _ | inputMissing _ | unknownPass _ =>
    ⟨.error, .program, e.detail⟩
  | _ => ⟨.error, .program, "Unhandled exception: " ++ e.detail⟩

/-- The exit status of a command that ends with a fault. -/
def status : Fault → Nat
  | document (.load _) | document (.tree _) | display _ => 1
  | tool .interrupted => 130
  | _ => 2

end Fault

/-- A computation that asks a host and may end early. -/
abbrev Action (m : Type → Type) := ExceptT Fault m

namespace Action

variable {m : Type → Type} [Monad m]

/-- Lets a failed file operation end the computation. -/
def ofFile {α : Type} (x : m (Except FileError α)) : Action m α := do
  match ← x with
  | .ok a => return a
  | .error e => throw (.file e)

def log [Host m] (verbosity : Nat) (e : LogEntry) : Action m Unit :=
  (Shell.log verbosity e : m Unit)

end Action

end FlowRegions.Shell

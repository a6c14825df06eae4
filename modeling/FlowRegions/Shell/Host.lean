import FlowRegions.Files.Tree
import FlowRegions.Shell.Log

/-!
# Hosts

What a command asks of the system that it runs on: files, two channels for text, a viewer for
drawings and a program that lays them out.
-/

namespace FlowRegions.Shell

/-- Where text goes. -/
inductive Channel where
  | out
  | err
deriving DecidableEq, Repr

/-- Why a tool did not do its work. -/
inductive ToolFault where
  /-- There is no such program. -/
  | missing (program : String)
  /-- The tool ran and gave up. -/
  | failed (reason : String)
  /-- The tool could not make sense of what it was given. -/
  | refused (reason : String)
  | file (e : FileError)
  | interrupted
deriving DecidableEq, Repr

namespace ToolFault

def message : ToolFault → String
  | missing program => s!"failed to execute {Text.quoted program}, " ++
      "make sure the Graphviz executables are on your systems' PATH"
  | failed reason => reason
  | refused reason => reason
  | file e => e.message
  | interrupted => ""

/-- Is it the environment that is at fault, and not what the tool was given? -/
def isEnvironmental : ToolFault → Bool
  | missing _ => true
  | failed _ => true
  | refused _ => false
  | file .nul => false
  | file (.failed ..) => true
  | interrupted => false

end ToolFault

/-- A document that is to be saved and laid out as an image. -/
structure LayoutJob where
  directory : String
  fileName : String
  document : String
  format : String
deriving DecidableEq, Repr

namespace LayoutJob

/-- Where the document is saved.  A rooted file name stands for itself. -/
def target (job : LayoutJob) : String :=
  if job.directory.isEmpty || job.fileName.toList.head? = some '/' then job.fileName
  else if job.directory.toList.getLast? = some '/' then job.directory ++ job.fileName
  else job.directory ++ "/" ++ job.fileName

def image (job : LayoutJob) : String := job.target ++ "." ++ job.format

end LayoutJob

/-- The system that a command runs on. -/
class Host (m : Type → Type) where
  workingDirectory : m Path
  /-- The home directory of a user, of the current one for an empty name. -/
  home? : String → m (Option Path)
  /-- Succeeds if there is something at the path. -/
  probe : Path → m (Except FileError Unit)
  read : Path → m (Except FileError ByteArray)
  write : Path → ByteArray → m (Except FileError Unit)
  /-- Makes a directory and those above it that are missing. -/
  makeDirectories : Path → m (Except FileError Unit)
  /-- Puts out a text.  A channel takes every character. -/
  emit : Channel → String → m Unit
  /-- Shows the document with the given file name. -/
  view : String → String → m (Except ToolFault Unit)
  layOut : LayoutJob → m (Except ToolFault Unit)

variable {m : Type → Type} [Monad m] [Host m]

def log (verbosity : Nat) (e : LogEntry) : m Unit :=
  if e.isShown verbosity then Host.emit .err e.line else pure ()

end FlowRegions.Shell

import FlowRegions.Shell.Host

/-!
# Machines

The state of a system as far as commands can tell: its files, what was emitted, and which tools were
started.  A machine is a host, so that what a command does to it can be computed and reasoned about.
-/

namespace FlowRegions.Shell

/-- A tool that was started. -/
inductive ToolCall where
  | view (fileName document : String)
  | layOut (fileName format : String)
deriving DecidableEq, Repr

/-- The state of a system. -/
structure Machine where
  tree : FileTree := .directory []
  here : Location := []
  /-- The home directories by user; that of the current one is under the empty name. -/
  homes : List (String × Path) := []
  out : String := ""
  err : String := ""
  /-- What every tool answers with instead of doing its work. -/
  toolFault? : Option ToolFault := none
  /-- The tools that were started, the latest last. -/
  calls : List ToolCall := []

namespace Machine

def emit (s : Machine) (channel : Channel) (text : String) : Machine :=
  match channel with
  | .out => { s with out := s.out ++ text }
  | .err => { s with err := s.err ++ text }

def write (s : Machine) (text : String) (content : ByteArray) : Except FileError Unit × Machine :=
  match s.tree.write s.here text content with
  | .ok tree => (.ok (), { s with tree })
  | .error e => (.error e, s)

/-- Makes a directory and those above it that are missing. -/
def makeDirectories (s : Machine) (p : Path) : Except FileError Unit × Machine :=
  match s.tree.makeDirectories s.here p p.parts.length with
  | (tree, result) => (result, { s with tree })

def view (s : Machine) (fileName document : String) : Except ToolFault Unit × Machine :=
  match s.toolFault? with
  | some fault => (.error fault, s)
  | none => (.ok (), { s with calls := s.calls ++ [.view fileName document] })

/-- Makes the directories that lead to the target of a job. -/
def openWay (s : Machine) (job : LayoutJob) : Except FileError Unit × Machine :=
  let directory := (Path.splitLast job.target).1
  if directory.isEmpty then (.ok (), s)
  else match s.tree.makeWay s.here directory.length directory with
    | (tree, result) => (result, { s with tree })

/-- Saves the document of a job, with the directories that lead to its target. -/
def save (s : Machine) (job : LayoutJob) : Except FileError Unit × Machine :=
  match s.openWay job with
  | (.error e, s) => (.error e, s)
  | (.ok (), s) => s.write job.target job.document.toUTF8

/-- Saves a document and starts the program that lays it out. -/
def layOut (s : Machine) (job : LayoutJob) : Except ToolFault Unit × Machine :=
  match s.toolFault? with
  | some fault => (.error fault, s)
  | none =>
    match s.save job with
    | (.error e, s) => (.error (.file e), s)
    | (.ok (), s) => (.ok (), { s with calls := s.calls ++ [.layOut job.fileName job.format] })

instance : Host (StateM Machine) where
  workingDirectory s := (⟨"/", s.here⟩, s)
  home? user s := (s.homes.lookup user, s)
  probe p s := ((s.tree.stat s.here p.text).map fun _ => (), s)
  read p s := (s.tree.read s.here p.text, s)
  write p content s := s.write p.text content
  makeDirectories p s := s.makeDirectories p
  emit channel text s := ((), s.emit channel text)
  view fileName document s := s.view fileName document
  layOut job s := s.layOut job

end Machine

end FlowRegions.Shell

import FlowRegions.Description.Document

/-!
# Log lines

Messages about the work.  The more severe a message, the lower the verbosity that shows it.
-/

namespace FlowRegions.Shell

/-- How severe a message is. -/
inductive Severity where
  | error
  | info
  | debug
deriving DecidableEq, Repr

namespace Severity

/-- The name of a severity, five characters wide. -/
def label : Severity → String
  | error => "ERROR"
  | info => "INFO "
  | debug => "DEBUG"

/-- The lowest verbosity that shows messages of a severity. -/
def verbosity : Severity → Nat
  | error => 0
  | info => 1
  | debug => 2

end Severity

/-- The part of the program that a message comes from. -/
inductive Topic where
  | program
  | loader
  | regions
  | drawing
  | render
deriving DecidableEq, Repr

def Topic.name : Topic → String
  | program => "regionviz"
  | loader => "regionviz.loader"
  | regions => "regionviz.region_info"
  | drawing => "regionviz.graph_writer"
  | render => "regionviz.render"

/-- A message. -/
structure LogEntry where
  severity : Severity
  topic : Topic
  text : String
deriving DecidableEq, Repr

namespace LogEntry

/-- The line of a message.  A time of day in front of it is left out, as a host has no clock. -/
def line (e : LogEntry) : String := s!"[{e.severity.label}] {e.topic.name}: {e.text}\n"

def isShown (verbosity : Nat) (e : LogEntry) : Bool := e.severity.verbosity ≤ verbosity

/-- The message about something learned from a document. -/
def ofNote : Document.Note → LogEntry
  | .indexed regions blocks function =>
    ⟨.debug, .regions, s!"indexed {regions} regions over {blocks} blocks of {function}"⟩
  | .accepted summary => ⟨.debug, .loader, s!"loaded {summary}"⟩

end LogEntry

end FlowRegions.Shell

import FlowRegions.Description.Draft
import FlowRegions.Dot.RegionDrawing

/-!
# Renderings

How the drawing of a function is named and what it looks like, and the four named passes, each a
rendering together with what is done with it.
-/

namespace FlowRegions

/-- The look of drawings and the stem of their titles and file names. -/
structure Rendering where
  look : Look := {}
  stem : String := "reg"
deriving DecidableEq, Repr

namespace Rendering

/-- The title of the drawing of the function called `function`. -/
def titleFor (rendering : Rendering) (function : String) : String :=
  s!"{rendering.stem} for '{function}' function"

/-- The file name of the drawing of the function called `function`. -/
def fileNameFor (rendering : Rendering) (function : String) : String :=
  s!"{rendering.stem}.{function}.dot"

def draw (rendering : Rendering) (rg : RegionGraph) : Except NotAnalysed Dot.Drawing :=
  rg.workspace.draw rg.analysis rendering.look (rendering.titleFor rg.name)

end Rendering

/-- A named way of showing the functions of a document: written to files or opened in a viewer, with
whole blocks or with their names only. -/
structure Pass where
  name : String
  description : String
  namesOnly : Bool
  opensViewer : Bool
  stem : String := "reg"
deriving DecidableEq, Repr

namespace Pass

def all : List Pass := [
  { name := "dot-regions"
    description := "Print regions of function to 'dot' file"
    namesOnly := false
    opensViewer := false },
  { name := "dot-regions-only"
    description := "Print regions of function to 'dot' file (with no function bodies)"
    namesOnly := true
    opensViewer := false },
  { name := "view-regions"
    description := "View regions of function"
    namesOnly := false
    opensViewer := true },
  { name := "view-regions-only"
    description := "View regions of function (with no function bodies)"
    namesOnly := true
    opensViewer := true
    stem := "regonly" }]

def find? (name : String) : Option Pass :=
  all.find? (·.name == name)

def unknownMessage (name : String) : String :=
  s!"unknown pass '{name}' (known: " ++ ", ".intercalate (all.map Pass.name) ++ ")"

/-- The rendering of a pass.  A stem that is absent or empty gives way to that of the pass. -/
def rendering (pass : Pass) (onlySimple : Bool) (stem? : Option String) : Rendering where
  look := { namesOnly := pass.namesOnly, onlySimple }
  stem := match stem? with
    | none => pass.stem
    | some stem => if stem.isEmpty then pass.stem else stem

end Pass

end FlowRegions

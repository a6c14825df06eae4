import FlowRegions.Shell.Fault

/-!
# What is done with drawings

A drawing is written to a file, laid out as an image, or opened in a viewer.
-/

namespace FlowRegions.Shell

variable {m : Type → Type} [Monad m] [Host m]

def draw (verbosity : Nat) (rendering : Rendering) (rg : RegionGraph) : Action m Dot.Drawing := do
  match rendering.draw rg with
  | .error e => throw (.notAnalysed e)
  | .ok drawing =>
    let counts := s!"{drawing.nodeCount} nodes, {drawing.edgeCount} edges"
    Action.log verbosity ⟨.debug, .drawing,
      s!"wrote {drawing.nodeCount} nodes and {drawing.edgeCount} edges"⟩
    Action.log verbosity ⟨.debug, .render, s!"{rg.name}: {counts}, {rg.regions.length} regions"⟩
    return drawing

def drawingPath (rendering : Rendering) (directory : Path) (rg : RegionGraph) : Path :=
  directory.join (.ofString (rendering.fileNameFor rg.name))

/-- Makes an empty file, and the directories that lead to it. -/
def openFile (p : Path) : Action m Unit := do
  Action.ofFile (Host.makeDirectories p.parent : m _)
  Action.ofFile (Host.write p .empty : m _)

/-- Writes the drawing of a region graph into a directory. -/
def writeDrawing (verbosity : Nat) (rendering : Rendering) (directory : Path) (rg : RegionGraph) :
    Action m Path := do
  let p := drawingPath rendering directory rg
  Action.log verbosity ⟨.debug, .render, s!"writing {p.text}"⟩
  openFile p
  let drawing ← draw verbosity rendering rg
  Action.ofFile (Host.write p drawing.text.toUTF8 : m _)
  return p

/-- Lays the drawing of a region graph out as an image. -/
def layOutDrawing (verbosity : Nat) (rendering : Rendering) (format directory : String)
    (rg : RegionGraph) : Action m Path := do
  let drawing ← draw verbosity rendering rg
  let job : LayoutJob :=
    { directory, fileName := rendering.fileNameFor rg.name, document := drawing.text, format }
  match ← (Host.layOut job : m _) with
  | .ok () =>
    Action.log verbosity ⟨.info, .render, s!"Rendered '{job.image}'"⟩
    return Path.ofString job.image
  | .error e@(.missing _) => throw (.display ("graphviz failed: " ++ e.message))
  | .error e => throw (.tool e)

def viewDrawing (verbosity : Nat) (rendering : Rendering) (rg : RegionGraph) : Action m Unit := do
  let drawing ← draw verbosity rendering rg
  let fileName := rendering.fileNameFor rg.name
  Action.log verbosity ⟨.info, .render, s!"Viewing '{fileName}'..."⟩
  match ← (Host.view fileName drawing.text : m _) with
  | .ok () => return ()
  | .error e =>
    if e.isEnvironmental then throw (.display ("cannot display region graph: " ++ e.message))
    else throw (.tool e)

/-- Does with a region graph what a pass asks for; the path of the file, if one is written. -/
def runPass (verbosity : Nat) (pass : Pass) (rendering : Rendering) (directory : Path)
    (rg : RegionGraph) : Action m (Option Path) := do
  if pass.opensViewer then
    viewDrawing verbosity rendering rg
    return none
  else return some (← writeDrawing verbosity rendering directory rg)

end FlowRegions.Shell

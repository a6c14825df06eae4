import FlowRegions.Description.Error
import FlowRegions.Region.Tree
import FlowRegions.Region.Summary

/-!
# Drafts

A draft is a function as its description gives it: a graph and a region tree whose names are
resolved, but whose ownership is not judged yet.
-/

namespace FlowRegions

/-- A graph, alone in its workspace, and a region tree over it. -/
structure Draft where
  workspace : Workspace
  tree : RegionTree

/-- A graph with a region tree that was judged sound. -/
structure RegionGraph where
  workspace : Workspace
  analysis : AnalysisRef

namespace Cfg

/-- The number of the block called `name`, which a description mentions in the given role. -/
def resolve (g : Cfg) (role : BlockRole) (name : String) : Except LoadFault Nat :=
  match g.find? name with
  | some index => .ok index
  | none => .error (.unknownBlock role name g.name)

end Cfg

/-- The graph of a workspace that has only one. -/
def Workspace.onlyGraph (ws : Workspace) : Cfg :=
  ws.graphs[0]?.getD { name := "" }

namespace Draft

def addBlock (ws : Workspace) (name : String) (instructions : List String) :
    Except LoadFault Workspace :=
  (ws.addBlock 0 (some name) instructions).mapError .duplicateBlock

def addEdge (ws : Workspace) (source target : Nat) : Workspace :=
  ws.addEdge 0 ⟨0, source⟩ ⟨0, target⟩

/-- The draft of a function that must have blocks.  Without a region tree, one region owns them
all. -/
def ofParts (ws : Workspace) (tree? : Option RegionTree) : Except LoadFault Draft :=
  let count := ws.onlyGraph.blocks.size
  if count = 0 then .error (.noBlocks ws.onlyGraph.name)
  else .ok ⟨ws, tree?.getD (.whole count)⟩

/-- The workspace with the regions of the draft; the outermost is the first. -/
def planted (d : Draft) : Workspace :=
  d.tree.plant 0 d.workspace

/-- The region graph of the draft, if its tree is sound. -/
def toRegionGraph (d : Draft) : Except TreeError RegionGraph :=
  let (ws, verdict) := d.planted.analyse 0 0
  verdict.map fun _ => ⟨ws, 0⟩

end Draft

namespace RegionGraph

def graph (rg : RegionGraph) : Cfg :=
  (rg.workspace.analyses[rg.analysis]?.bind fun analysis =>
    rg.workspace.graphs[analysis.graph]?).getD { name := "" }

def name (rg : RegionGraph) : String :=
  rg.graph.name

def regions (rg : RegionGraph) : List RegionRef :=
  match rg.workspace.analyses[rg.analysis]? with
  | none => []
  | some analysis => rg.workspace.walk analysis.root

end RegionGraph

end FlowRegions

import FlowRegions.Dot.Cluster

/-!
# Drawings of region graphs

Every block becomes a node and every edge of the graph an edge.  Edges that lead back into an open
region do not constrain the layout, so that the header of a loop stays above its body.  The regions
follow as clusters.
-/

namespace FlowRegions

/-- A node of the graph of an analysis: a block, or a region that stands for its blocks. -/
inductive RegionNode where
  | block (b : BlockRef)
  | region (r : RegionRef)
deriving DecidableEq, Repr

/-- How the blocks and regions of a drawing look. -/
structure Look where
  /-- Label blocks by their names alone. -/
  namesOnly : Bool := false
  /-- Fill simple regions only and outline the others. -/
  onlySimple : Bool := false
deriving DecidableEq, Repr

/-- A region has blocks, but no analysis has reached it. -/
inductive NotAnalysed where
  | mk
deriving DecidableEq, Repr

namespace Workspace

variable (ws : Workspace)

def nodeLabel (namesOnly : Bool) : RegionNode → String
  | .block b => if namesOnly then ws.displayName b else ws.fullLabel b
  | .region _ => "Not implemented"

def nodeId : RegionNode → String
  | .block b => Dot.blockNodeId b
  | .region r => s!"cluster_{ws.number r}"

/-- The nodes that edges lead to; a region has none. -/
def nodeSuccessors : RegionNode → List RegionNode
  | .block b => (ws.successors b).map .block
  | .region _ => []

/-- The attributes of an edge: an edge back into an open region does not constrain the layout. -/
def edgeAttributes (a : AnalysisRef) : RegionNode → RegionNode → String
  | .block source, .block target =>
    if ws.isBackEdge a source target then "constraint=false" else ""
  | _, _ => ""

/-- The colour scheme and the clusters of an analysis. -/
def features (a : AnalysisRef) (onlySimple : Bool) : Dot.Listing :=
  match ws.analyses[a]? with
  | none => ⟨"", true⟩
  | some analysis =>
    (⟨"\tcolorscheme = \"paired12\"\n", true⟩ : Dot.Listing) ++
      (ws.cluster onlySimple analysis.root).listing 4

def view (a : AnalysisRef) (look : Look) : Dot.View NotAnalysed RegionNode where
  name := "Region Graph"
  nodes := .ok <| match ws.analyses[a]? with
    | none => []
    | some analysis => (ws.blocksOf analysis.graph).map .block
  children node := .ok (ws.nodeSuccessors node)
  nodeId node := .ok (ws.nodeId node)
  label := ws.nodeLabel look.namesOnly
  edgeAttributes := ws.edgeAttributes a
  features :=
    let found := ws.features a look.onlySimple
    if found.complete then .ok found.text else .error .mk

def draw (a : AnalysisRef) (look : Look) (title : String) : Except NotAnalysed Dot.Drawing :=
  (ws.view a look).draw title

end Workspace

end FlowRegions

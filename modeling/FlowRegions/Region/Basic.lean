import FlowRegions.Cfg

/-!
# Regions

A region is a part of a graph that control enters at one block and leaves towards one block.
Regions nest, and each owns the blocks of which it is the innermost region.  A workspace holds
graphs, the regions over them and the analyses made of region trees; all three are referred to by
position, so the same region can be reached through its parent, through its children and through an
analysis.
-/

namespace FlowRegions

abbrev RegionRef := Nat

abbrev AnalysisRef := Nat

/-- A node of a region tree.  The outermost region has no parent, and a region without an exit is
left by returning. -/
structure Region where
  entry : BlockRef
  exit? : Option BlockRef := none
  owned : List BlockRef := []
  /-- The classification given by whoever found the region, if one was given. -/
  simple? : Option Bool := none
  parent? : Option RegionRef := none
  children : List RegionRef := []
  /-- The place in the order of the latest analysis that reached the region, `-1` before any. -/
  number : Int := -1
  /-- The latest analysis that reached the region. -/
  analysis? : Option AnalysisRef := none
deriving Repr

/-- Who owns which block, looked up by the block's number. -/
structure Ownership where
  owners : List (Nat × RegionRef) := []
  /-- Blocks that are owned once more after their number had an owner. -/
  repeated : List BlockRef := []
deriving Repr

/-- A region tree over a graph, with the ownership that was found when it was made. -/
structure Analysis where
  graph : GraphRef
  root : RegionRef
  ownership : Ownership
deriving Repr

/-- Graphs, regions and analyses that refer to each other by position. -/
structure Workspace where
  graphs : Array Cfg := #[]
  regions : Array Region := #[]
  analyses : Array Analysis := #[]
deriving Repr

namespace Workspace

/-! ### Access -/

def block? (ws : Workspace) (b : BlockRef) : Option Block :=
  ws.graphs[b.graph]?.bind (·.blocks[b.index]?)

def displayName (ws : Workspace) (b : BlockRef) : String :=
  let block := (ws.block? b).getD { id := b.index }
  block.displayName block.id

def fullLabel (ws : Workspace) (b : BlockRef) : String :=
  let block := (ws.block? b).getD { id := b.index }
  block.fullLabel block.id

def successors (ws : Workspace) (b : BlockRef) : List BlockRef :=
  ((ws.block? b).getD {}).successors

def predecessors (ws : Workspace) (b : BlockRef) : List BlockRef :=
  ((ws.block? b).getD {}).predecessors

def graphName (ws : Workspace) (g : GraphRef) : String :=
  (ws.graphs[g]?.map (·.name)).getD ""

def blocksOf (ws : Workspace) (g : GraphRef) : List BlockRef :=
  (List.range ((ws.graphs[g]?.map (·.blocks.size)).getD 0)).map (⟨g, ·⟩)

def owned (ws : Workspace) (r : RegionRef) : List BlockRef :=
  (ws.regions[r]?.map (·.owned)).getD []

def children (ws : Workspace) (r : RegionRef) : List RegionRef :=
  (ws.regions[r]?.map (·.children)).getD []

def parent? (ws : Workspace) (r : RegionRef) : Option RegionRef :=
  ws.regions[r]?.bind (·.parent?)

/-- The number of a region, `-1` before any analysis has reached it. -/
def number (ws : Workspace) (r : RegionRef) : Int :=
  (ws.regions[r]?.map (·.number)).getD (-1)

def isEntry (ws : Workspace) (r : RegionRef) (b : BlockRef) : Bool :=
  ws.regions[r]?.any (·.entry = b)

/-! ### Building -/

/-- Adds a graph without blocks; its reference is the count of graphs before it. -/
def addGraph (ws : Workspace) (name : String) : Workspace :=
  { ws with graphs := ws.graphs.push { name } }

def single (name : String) : Workspace :=
  addGraph {} name

/-- Adds a block to a graph.  The result is the block, or what is wrong with its name, with the
workspace that the call leaves. -/
def createBlock (ws : Workspace) (g : GraphRef) (name? : Option String)
    (instructions : List String) : Except DuplicateBlock BlockRef × Workspace :=
  let call := Cfg.createBlock g name? instructions
  let (outcome, graph) := call.run.run (ws.graphs[g]?.getD { name := "" })
  (outcome, { ws with graphs := ws.graphs.setIfInBounds g graph })

/-- The workspace with one more block, unless its name is refused. -/
def addBlock (ws : Workspace) (g : GraphRef) (name? : Option String)
    (instructions : List String) : Except DuplicateBlock Workspace :=
  match ws.createBlock g name? instructions with
  | (.ok _, ws) => .ok ws
  | (.error e, _) => .error e

def modifyBlock (ws : Workspace) (b : BlockRef) (f : Block → Block) : Workspace :=
  { ws with graphs := ws.graphs.modify b.graph (·.modifyBlock b.index f) }

/-- Adds an edge to a graph and enters it at both of its ends. -/
def addEdge (ws : Workspace) (g : GraphRef) (source target : BlockRef) : Workspace :=
  let ws := { ws with
    graphs := ws.graphs.modify g fun graph =>
      { graph with edges := graph.edges.push ⟨source, target⟩ } }
  let ws := ws.modifyBlock source fun block =>
    { block with successors := block.successors ++ [target] }
  ws.modifyBlock target fun block =>
    { block with predecessors := block.predecessors ++ [source] }

/-- Adds a region; its reference is the count of regions before it. -/
def addRegion (ws : Workspace) (region : Region) : Workspace :=
  { ws with regions := ws.regions.push region }

def modifyRegion (ws : Workspace) (r : RegionRef) (f : Region → Region) : Workspace :=
  { ws with regions := ws.regions.modify r f }

def attach (ws : Workspace) (parent child : RegionRef) : Workspace :=
  let ws := ws.modifyRegion child fun region => { region with parent? := some parent }
  ws.modifyRegion parent fun region => { region with children := region.children ++ [child] }

def own (ws : Workspace) (r : RegionRef) (b : BlockRef) : Workspace :=
  ws.modifyRegion r fun region => { region with owned := region.owned ++ [b] }

end Workspace

end FlowRegions

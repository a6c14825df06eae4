import FlowRegions.Region.Basic

/-!
# Questions about regions

Nesting is read off the parents, descendants off the children.  Before an analysis has reached a
region, its blocks are searched for among those that it and its descendants own; afterwards the
owner of a block is looked up by the block's number, and containment is read off the parents.
-/

namespace FlowRegions.Workspace

variable (ws : Workspace)

/-! ### Nesting -/

/-- At most `limit` regions from `r` outwards. -/
def lineageWithin : Nat → RegionRef → List RegionRef
  | 0, _ => []
  | limit + 1, r => r :: (match ws.parent? r with
    | none => []
    | some parent => lineageWithin limit parent)

/-- The region `r`, its parent, and so on outwards.  A climb that ends meets no region twice, so the
count of all regions is bound enough for it.  Where parents lead back to each other a climb has no
end, and only then it is cut off here. -/
def lineage (r : RegionRef) : List RegionRef :=
  ws.lineageWithin ws.regions.size r

/-- The regions below `r` to a depth of at most `limit`, each before its children. -/
def walkWithin : Nat → RegionRef → List RegionRef
  | 0, _ => []
  | limit + 1, r => r :: (ws.children r).flatMap (walkWithin limit)

/-- The region `r` and its descendants, each before its children and these in order.  Only where
children lead back to a region above them the walk has no end and is cut off. -/
def walk (r : RegionRef) : List RegionRef :=
  ws.walkWithin ws.regions.size r

/-- The distance from the outermost region. -/
def depth (r : RegionRef) : Nat :=
  (ws.lineage r).length - 1

def isTopLevel (r : RegionRef) : Bool :=
  (ws.parent? r).isNone

/-- Is `inner` the region `outer` or one of its descendants? -/
def containsRegion (outer inner : RegionRef) : Bool :=
  (ws.lineage inner).contains outer

/-! ### Blocks -/

/-- The owner that an analysis found for the number of `b`. -/
def regionFor (a : AnalysisRef) (b : BlockRef) : Option RegionRef :=
  ws.analyses[a]?.bind fun analysis => analysis.ownership.owners.lookup b.index

/-- Is `b` owned by `r` or one of its descendants? -/
def contains (r : RegionRef) (b : BlockRef) : Bool :=
  match ws.regions[r]?.bind (·.analysis?) with
  | none => (ws.walk r).any fun inner => (ws.owned inner).contains b
  | some a =>
    match ws.regionFor a b with
    | none => false
    | some owner => ws.containsRegion r owner

/-- The blocks that a region contains, in the order of the graph that its entry belongs to. -/
def regionBlocks (r : RegionRef) : List BlockRef :=
  match ws.regions[r]? with
  | none => []
  | some region => (ws.blocksOf region.entry.graph).filter (ws.contains r)

/-- How many edges lead to the entry from outside. -/
def enteringEdges (r : RegionRef) : Nat :=
  match ws.regions[r]? with
  | none => 0
  | some region => (ws.predecessors region.entry).countP fun b => !ws.contains r b

/-- How many edges lead to the exit from inside. -/
def exitingEdges (r : RegionRef) : Nat :=
  match ws.regions[r]?.bind (·.exit?) with
  | none => 0
  | some exit => (ws.predecessors exit).countP (ws.contains r)

/-- Has the region one entering and one exiting edge?  A classification that was given wins, and
neither the outermost region nor one without an exit is simple by itself. -/
def isSimple (r : RegionRef) : Bool :=
  match ws.regions[r]? with
  | none => false
  | some region => region.simple?.getD <|
      region.parent?.isSome && region.exit?.isSome &&
        ws.enteringEdges r == 1 && ws.exitingEdges r == 1

/-- The region by the names of its entry and its exit. -/
def regionName (r : RegionRef) : String :=
  match ws.regions[r]? with
  | none => ""
  | some region => ws.displayName region.entry ++ " => " ++
      (match region.exit? with
        | none => "<Function Return>"
        | some exit => ws.displayName exit)

/-- Does an edge from `source` to `target` lead back into a region that is still open?  The regions
around `target` are followed outwards as long as they are entered there; the edge leads back if the
last of them is entered at `target` and contains `source`. -/
def isBackEdge (a : AnalysisRef) (source target : BlockRef) : Bool :=
  match ws.regionFor a target with
  | none => false
  | some innermost =>
    let enclosing := ((ws.lineage innermost).drop 1).takeWhile (ws.isEntry · target)
    let outermost := enclosing.getLastD innermost
    ws.isEntry outermost target && ws.contains outermost source

end FlowRegions.Workspace

import FlowRegions.Region.Query

/-!
# Analyses

An analysis numbers the regions of a tree and records the first region that owns each block.  It
is sound when the regions of the tree own every block of the graph exactly once, own no other block,
and contain their own entries.
-/

namespace FlowRegions

/-- What is wrong with a region tree. -/
inductive TreeFault where
  | ownedTwice (blocks : List String)
  | foreignBlock (block : String)
  | notOwned (blocks : List String)
  | entryOutside (region : String)
deriving DecidableEq, Repr

def TreeFault.message : TreeFault → String
  | ownedTwice blocks => "blocks owned by more than one region: " ++ ", ".intercalate blocks
  | foreignBlock block => s!"block {block} does not belong to this function"
  | notOwned blocks => "blocks not owned by any region: " ++ ", ".intercalate blocks
  | entryOutside region => s!"region {region} does not contain its entry block"

/-- A fault in the region tree of the function called `graph`. -/
structure TreeError where
  graph : String
  fault : TreeFault
deriving DecidableEq, Repr

namespace Ownership

/-- Enters a region as the owner of a block; the first owner of a number stays. -/
def enter (o : Ownership) (b : BlockRef) (r : RegionRef) : Ownership :=
  match o.owners.lookup b.index with
  | none => { o with owners := o.owners ++ [(b.index, r)] }
  | some _ => { o with repeated := o.repeated ++ [b] }

/-- The ownership that results from blocks and regions that are entered in order. -/
def ofPairs (pairs : List (BlockRef × RegionRef)) : Ownership :=
  pairs.foldl (fun o pair => o.enter pair.1 pair.2) {}

end Ownership

namespace Workspace

/-- The blocks that the regions below `root` own, each with its region, in the order of the walk. -/
def ownedPairs (ws : Workspace) (root : RegionRef) : List (BlockRef × RegionRef) :=
  (ws.walk root).flatMap fun r => (ws.owned r).map (·, r)

/-- Adds an analysis of the tree below `root` without judging it; its reference is the count of
analyses before it.  Every region reached gets its place in the walk as its number. -/
def index (ws : Workspace) (g : GraphRef) (root : RegionRef) : Workspace :=
  let a := ws.analyses.size
  { ws with
    regions := (ws.walk root).zipIdx.foldl (fun regions place =>
      regions.modify place.1 fun region =>
        { region with number := place.2, analysis? := some a }) ws.regions
    analyses := ws.analyses.push ⟨g, root, .ofPairs (ws.ownedPairs root)⟩ }

/-- Judges an analysis by the ownership that it recorded and the tree as it is now. -/
def verify (ws : Workspace) (a : AnalysisRef) : Except TreeError Unit :=
  match ws.analyses[a]? with
  | none => .ok ()
  | some analysis =>
    let refuse (fault : TreeFault) : Except TreeError Unit :=
      .error ⟨ws.graphName analysis.graph, fault⟩
    let walk := ws.walk analysis.root
    let repeated := analysis.ownership.repeated
    let foreign? := (walk.flatMap ws.owned).find? (·.graph ≠ analysis.graph)
    let missing := (ws.blocksOf analysis.graph).filter fun b => (ws.regionFor a b).isNone
    let open? := walk.find? fun r => !ws.regions[r]?.all fun region => ws.contains r region.entry
    if !repeated.isEmpty then refuse (.ownedTwice (repeated.map ws.displayName))
    else if let some b := foreign? then refuse (.foreignBlock (ws.displayName b))
    else if !missing.isEmpty then refuse (.notOwned (missing.map ws.displayName))
    else if let some r := open? then refuse (.entryOutside (ws.regionName r))
    else .ok ()

/-- Adds an analysis and judges it.  The regions stay numbered when it is refused. -/
def analyse (ws : Workspace) (g : GraphRef) (root : RegionRef) :
    Workspace × Except TreeError Unit :=
  let ws := ws.index g root
  (ws, ws.verify (ws.analyses.size - 1))

end Workspace

end FlowRegions

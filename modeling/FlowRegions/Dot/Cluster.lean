import FlowRegions.Dot.Drawing
import FlowRegions.Region.Query

/-!
# Clusters

A region is drawn as a cluster around its blocks, and the regions inside it as clusters within.  The
colours come in six pairs, one pair per depth: the light colour fills a cluster, the dark one
outlines it.
-/

namespace FlowRegions.Dot

/-- How a cluster is painted. -/
inductive Paint where
  | filled
  | solid
deriving DecidableEq, Repr

def Paint.name : Paint → String
  | filled => "filled"
  | solid => "solid"

structure ClusterStyle where
  paint : Paint
  color : Int
deriving DecidableEq, Repr

def paletteSize : Int := 12

/-- The style of a cluster at a depth.  When only simple regions are to be emphasised, the others
are outlined. -/
def clusterStyle (depth : Int) (simple onlySimple : Bool) : ClusterStyle :=
  let base := (depth * 2) % paletteSize
  if !onlySimple || simple then ⟨.filled, base + 1⟩ else ⟨.solid, base + 2⟩

/-- A cluster, the clusters inside it, and the numbers of the blocks listed in it.  The list is
missing for a region with blocks that no analysis has reached. -/
inductive Cluster where
  | mk (number : Int) (style : ClusterStyle) (inner : List Cluster) (members? : Option (List Nat))

/-- Text that may break off where something is missing. -/
structure Listing where
  text : String
  complete : Bool := true
deriving DecidableEq, Repr

namespace Listing

/-- Two listings one after the other; nothing follows one that broke off. -/
protected def append (first second : Listing) : Listing :=
  if first.complete then ⟨first.text ++ second.text, second.complete⟩ else first

instance : Append Listing := ⟨Listing.append⟩

@[simp] theorem append_of_complete {first second : Listing} (h : first.complete = true) :
    first ++ second = ⟨first.text ++ second.text, second.complete⟩ := by
  simp [HAppend.hAppend, Append.append, Listing.append, h]

@[simp] theorem append_of_broken {first second : Listing} (h : first.complete = false) :
    first ++ second = first := by
  simp [HAppend.hAppend, Append.append, Listing.append, h]

end Listing

def blockNodeId (b : BlockRef) : String :=
  s!"Node{b.index}"

namespace Cluster

def line (width : Int) (content : String) : Listing :=
  ⟨blanks width ++ content ++ "\n", true⟩

def memberLines (width : Int) : Option (List Nat) → Listing
  | none => ⟨"", false⟩
  | some members => members.foldr (fun index rest => line width s!"Node{index};" ++ rest) ⟨"", true⟩

mutual

/-- The lines of a cluster: its style, the clusters inside it, its own blocks. -/
def listing (depth : Int) : Cluster → Listing
  | mk number style inner members? =>
    line (2 * depth) ("subgraph cluster_" ++ toString number ++ " \x7b") ++
    line (2 * (depth + 1)) "label = \"\";" ++
    line (2 * (depth + 1)) s!"style = {style.paint.name};" ++
    line (2 * (depth + 1)) s!"color = {style.color}" ++
    innerListing (depth + 1) inner ++
    memberLines (2 * (depth + 1)) members? ++
    line (2 * depth) "\x7d"

def innerListing (depth : Int) : List Cluster → Listing
  | [] => ⟨"", true⟩
  | cluster :: rest => listing depth cluster ++ innerListing depth rest

end

end Cluster

end FlowRegions.Dot

namespace FlowRegions.Workspace

open Dot

/-- The numbers of the blocks that `r` owns according to the analysis that reached it last, in the
order of its graph. -/
def members? (ws : Workspace) (r : RegionRef) : Option (List Nat) :=
  let blocks := ws.regionBlocks r
  match ws.regions[r]?.bind (·.analysis?) with
  | none => if blocks.isEmpty then some [] else none
  | some a => some ((blocks.filter fun b => ws.regionFor a b == some r).map (·.index))

/-- The cluster of a region around the clusters `inner`. -/
def clusterAround (ws : Workspace) (onlySimple : Bool) (r : RegionRef) (inner : List Cluster) :
    Cluster :=
  .mk (ws.number r) (clusterStyle (ws.depth r) (ws.isSimple r) onlySimple) inner (ws.members? r)

/-- The clusters of a region and its descendants to a depth of at most `limit` below it. -/
def clusterWithin (ws : Workspace) (onlySimple : Bool) : Nat → RegionRef → Cluster
  | 0, r => ws.clusterAround onlySimple r []
  | limit + 1, r =>
    ws.clusterAround onlySimple r ((ws.children r).map (clusterWithin ws onlySimple limit))

/-- The clusters of a region and its descendants. -/
def cluster (ws : Workspace) (onlySimple : Bool) (r : RegionRef) : Cluster :=
  ws.clusterWithin onlySimple ws.regions.size r

end FlowRegions.Workspace

import FlowRegions.Region.Verify

/-!
# Region trees as data

A region tree over one graph, with blocks given by their numbers.  Planting a tree in a workspace
creates its regions, each before its children, and links them.
-/

namespace FlowRegions

/-- A region apart from its children. -/
structure RegionHeader where
  entry : Nat
  exit? : Option Nat := none
  owned : List Nat := []
  simple? : Option Bool := none
deriving DecidableEq, Repr

/-- A region with its children in order. -/
inductive RegionTree where
  | node (header : RegionHeader) (children : List RegionTree)
deriving Repr

namespace RegionHeader

/-- The region of a header over the graph `g`, not yet linked to others. -/
def toRegion (header : RegionHeader) (g : GraphRef) : Region where
  entry := ⟨g, header.entry⟩
  exit? := header.exit?.map (⟨g, ·⟩)
  owned := header.owned.map (⟨g, ·⟩)
  simple? := header.simple?

end RegionHeader

namespace RegionTree

/-- A single region that owns all of `count` blocks and is entered at the first. -/
def whole (count : Nat) : RegionTree :=
  .node { entry := 0, owned := List.range count } []

mutual

/-- Creates the regions of a tree; the outermost gets the first free reference. -/
def plant (g : GraphRef) (ws : Workspace) : RegionTree → Workspace
  | .node header children =>
    plantChildren g ws.regions.size (ws.addRegion (header.toRegion g)) children

/-- Creates the regions of several trees and makes them the last children of `parent`. -/
def plantChildren (g : GraphRef) (parent : RegionRef) (ws : Workspace) :
    List RegionTree → Workspace
  | [] => ws
  | child :: rest =>
    plantChildren g parent ((plant g ws child).attach parent ws.regions.size) rest

end

mutual

/-- How many regions a tree has. -/
def size : RegionTree → Nat
  | .node _ children => sizeChildren children + 1

def sizeChildren : List RegionTree → Nat
  | [] => 0
  | child :: rest => size child + sizeChildren rest

end

end RegionTree

end FlowRegions

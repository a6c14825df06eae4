import FlowRegions.Dot.RegionDrawing
import FlowRegions.Proofs.Region.Walk

/-!
# Workspaces that agree

Two workspaces agree if they have the same blocks, edges, region trees and owners, and classify
regions alike. They may differ in every name and instruction and in the exits of regions. Whatever a
drawing asks, labels aside, gets the same answer from both.
-/

namespace FlowRegions.Workspace

/-- The workspaces have the same graphs and regions, apart from names, instructions and exits. -/
structure Agree (ws ws' : Workspace) : Prop where
  size_regions : ws'.regions.size = ws.regions.size
  blocksOf : ∀ g, ws'.blocksOf g = ws.blocksOf g
  successors : ∀ b, ws'.successors b = ws.successors b
  children : ∀ r, ws'.children r = ws.children r
  parent? : ∀ r, ws'.parent? r = ws.parent? r
  owned : ∀ r, ws'.owned r = ws.owned r
  entry : ∀ r : RegionRef, ws'.regions[r]?.map (·.entry) = ws.regions[r]?.map (·.entry)
  isSimple : ∀ r, ws'.isSimple r = ws.isSimple r
  number : ∀ r, ws'.number r = ws.number r
  analysis? : ∀ r : RegionRef,
    ws'.regions[r]?.bind (·.analysis?) = ws.regions[r]?.bind (·.analysis?)
  regionFor : ∀ a b, ws'.regionFor a b = ws.regionFor a b

namespace Agree

variable {ws ws' : Workspace}

theorem walk (h : ws.Agree ws') (r : RegionRef) : ws'.walk r = ws.walk r :=
  walk_congr h.size_regions h.children r

theorem lineage (h : ws.Agree ws') (r : RegionRef) : ws'.lineage r = ws.lineage r :=
  lineage_congr h.size_regions h.parent? r

theorem depth (h : ws.Agree ws') (r : RegionRef) : ws'.depth r = ws.depth r := by
  rw [Workspace.depth, Workspace.depth, h.lineage]

theorem containsRegion (h : ws.Agree ws') (outer inner : RegionRef) :
    ws'.containsRegion outer inner = ws.containsRegion outer inner := by
  rw [Workspace.containsRegion, Workspace.containsRegion, h.lineage]

theorem contains (h : ws.Agree ws') (r : RegionRef) (b : BlockRef) :
    ws'.contains r b = ws.contains r b := by
  simp only [Workspace.contains, h.analysis?, h.walk, h.owned, h.regionFor, h.containsRegion]

theorem isEntry (h : ws.Agree ws') (r : RegionRef) (b : BlockRef) :
    ws'.isEntry r b = ws.isEntry r b := by
  have hany : ∀ region? : Option Region, region?.any (·.entry = b) =
      (region?.map (·.entry)).any (· = b) := fun region? => by cases region? <;> rfl
  rw [Workspace.isEntry, Workspace.isEntry, hany, hany, h.entry]

theorem regionBlocks (h : ws.Agree ws') (r : RegionRef) :
    ws'.regionBlocks r = ws.regionBlocks r := by
  have hentry := h.entry r
  rw [Workspace.regionBlocks, Workspace.regionBlocks]
  cases hr : ws.regions[r]? with
  | none =>
      rw [hr, Option.map_none, Option.map_eq_none_iff] at hentry
      rw [hentry]
  | some region =>
      rw [hr, Option.map_some, Option.map_eq_some_iff] at hentry
      obtain ⟨region', hr', hsame⟩ := hentry
      rw [hr']
      dsimp only
      rw [hsame, h.blocksOf, funext (h.contains r)]

theorem isBackEdge (h : ws.Agree ws') (a : AnalysisRef) (source target : BlockRef) :
    ws'.isBackEdge a source target = ws.isBackEdge a source target := by
  simp only [Workspace.isBackEdge, h.regionFor, h.lineage, h.isEntry, h.contains]

theorem members? (h : ws.Agree ws') (r : RegionRef) : ws'.members? r = ws.members? r := by
  simp only [Workspace.members?, h.regionBlocks, h.analysis?, h.regionFor]

theorem clusterAround (h : ws.Agree ws') (onlySimple : Bool) (r : RegionRef)
    (inner : List Dot.Cluster) :
    ws'.clusterAround onlySimple r inner = ws.clusterAround onlySimple r inner := by
  rw [Workspace.clusterAround, Workspace.clusterAround, h.number, h.depth, h.isSimple, h.members?]

theorem clusterWithin (h : ws.Agree ws') (onlySimple : Bool) (limit : Nat) (r : RegionRef) :
    ws'.clusterWithin onlySimple limit r = ws.clusterWithin onlySimple limit r := by
  induction limit generalizing r with
  | zero => exact h.clusterAround onlySimple r []
  | succ limit ih =>
      rw [Workspace.clusterWithin, Workspace.clusterWithin, h.children, h.clusterAround, funext ih]

theorem cluster (h : ws.Agree ws') (onlySimple : Bool) (r : RegionRef) :
    ws'.cluster onlySimple r = ws.cluster onlySimple r := by
  rw [Workspace.cluster, Workspace.cluster, h.size_regions, h.clusterWithin]

theorem edgeAttributes (h : ws.Agree ws') (a : AnalysisRef) (source target : BlockRef) :
    ws'.edgeAttributes a (.block source) (.block target) =
      ws.edgeAttributes a (.block source) (.block target) := by
  rw [Workspace.edgeAttributes, Workspace.edgeAttributes, h.isBackEdge]

end Agree

end FlowRegions.Workspace

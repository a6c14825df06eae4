import FlowRegions.Proofs.Dot.HeaderEdges

/-!
# Edges into and out of a region

Which edges enter a region is found in the list of its entry, and which leave it in the list of its
exit, each by the owner of the block at the other end. For a loaded function this counts the edges of
the graph between what the region and its descendants own and the rest, so a region without a given
classification is simple exactly if it has a parent and an exit and one edge each way.
-/

namespace FlowRegions

namespace Workspace

/-- The edge leads to the block from outside of what the region and its descendants own. -/
def EntersAt (ws : Workspace) (r : RegionRef) (target : BlockRef) (edge : Edge) : Prop :=
  edge.target = target ∧ ∀ inner ∈ ws.walk r, edge.source ∉ ws.owned inner

/-- The edge leads to the block from inside of what the region and its descendants own. -/
def LeavesAt (ws : Workspace) (r : RegionRef) (target : BlockRef) (edge : Edge) : Prop :=
  edge.target = target ∧ ∃ inner ∈ ws.walk r, edge.source ∈ ws.owned inner

instance (ws : Workspace) (r : RegionRef) (target : BlockRef) :
    DecidablePred (ws.EntersAt r target) :=
  fun _ => inferInstanceAs (Decidable (_ ∧ _))

instance (ws : Workspace) (r : RegionRef) (target : BlockRef) :
    DecidablePred (ws.LeavesAt r target) :=
  fun _ => inferInstanceAs (Decidable (_ ∧ _))

end Workspace

namespace RegionGraph

variable {graph : Cfg} {t : RegionTree} {r : RegionRef} {region : Region} {target : BlockRef}

/-- The outermost region is the only one without a parent. -/
theorem parent?_ofTree_eq_none_iff (hr : r < t.size) :
    (ofTree graph t).workspace.parent? r = none ↔ r = 0 := by
  have htree := isTree_ofTree graph t
  have hroot : 0 < t.size := Nat.zero_lt_of_lt hr
  constructor
  · intro hnone
    have hnested := (htree.containsRegion_iff (mem_preorder_refs hroot) (mem_preorder_refs hr)).mpr
      (mem_walk_root_iff.mpr hr)
    rw [Workspace.containsRegion, List.contains_iff_mem,
      htree.lineage_of_parent?_eq_none (mem_preorder_refs hr) hnone] at hnested
    exact (List.mem_singleton.mp hnested).symm
  · rintro rfl
    have hlinked := htree.linked.parent_root
    rwa [RegionTree.root_refs] at hlinked

namespace IsSound

variable (h : IsSound graph t)

include h

/-- The entry and the exit of a region are blocks of the graph. -/
theorem mem_blocksOf_of_getElem?_regions
    (hregion : (ofTree graph t).workspace.regions[r]? = some region) :
    region.entry ∈ (ofTree graph t).workspace.blocksOf 0 ∧
      ∀ exit ∈ region.exit?, exit ∈ (ofTree graph t).workspace.blocksOf 0 := by
  have hr : r < t.size := by
    rw [← size_regions_ofTree graph t]
    exact (Array.getElem?_eq_some_iff.mp hregion).1
  obtain ⟨above, s, hplace⟩ := RegionTree.exists_place hr
  have hwithin := h.within s (RegionTree.mem_subtrees_of_mem_places hplace)
  rw [getElem?_regions_ofTree hplace, Option.some_inj] at hregion
  subst hregion
  cases s with
  | node header children =>
      simp only [blocksOf_ofTree, List.mem_map, List.mem_range]
      refine ⟨⟨header.entry, hwithin.entry_lt, rfl⟩, ?_⟩
      intro exit hexit
      obtain ⟨index, hindex, rfl⟩ := Option.map_eq_some_iff.mp hexit
      exact ⟨index, hwithin.exit_lt index hindex, rfl⟩

/-- Counting in the list of a block is counting among the edges to the block. -/
theorem countP_predecessors (htarget : target ∈ (ofTree graph t).workspace.blocksOf 0)
    (p : BlockRef → Bool) : ((ofTree graph t).workspace.predecessors target).countP p =
      graph.edges.toList.countP fun edge => p edge.source && edge.target = target := by
  rw [h.predecessors_ofTree htarget, List.countP_map, List.countP_filter]
  rfl

theorem contains_source_iff (hr : r < t.size) {edge : Edge} (hedge : edge ∈ graph.edges.toList) :
    (ofTree graph t).workspace.contains r edge.source = true ↔
      ∃ inner ∈ (ofTree graph t).workspace.walk r,
        edge.source ∈ (ofTree graph t).workspace.owned inner := by
  rw [h.contains_iff hr (h.consistent.source_mem edge hedge).1, Workspace.mem_ownedBelow]

theorem enteringEdges_eq (hr : r < t.size)
    (hregion : (ofTree graph t).workspace.regions[r]? = some region) :
    (ofTree graph t).workspace.enteringEdges r =
      graph.edges.toList.countP ((ofTree graph t).workspace.EntersAt r region.entry) := by
  rw [Workspace.enteringEdges, hregion]
  dsimp only
  rw [h.countP_predecessors (h.mem_blocksOf_of_getElem?_regions hregion).1]
  apply List.countP_congr
  intro edge hedge
  have houtside : (!(ofTree graph t).workspace.contains r edge.source) = true ↔
      ∀ inner ∈ (ofTree graph t).workspace.walk r,
        edge.source ∉ (ofTree graph t).workspace.owned inner := by
    rw [Bool.not_eq_true', ← Bool.not_eq_true, h.contains_source_iff hr hedge]
    simp
  rw [Bool.and_eq_true, decide_eq_true_iff, decide_eq_true_iff, houtside, and_comm]
  rfl

theorem exitingEdges_eq (hr : r < t.size) {exit : BlockRef}
    (hregion : (ofTree graph t).workspace.regions[r]? = some region)
    (hexit : region.exit? = some exit) :
    (ofTree graph t).workspace.exitingEdges r =
      graph.edges.toList.countP ((ofTree graph t).workspace.LeavesAt r exit) := by
  rw [Workspace.exitingEdges, hregion, Option.bind_some, hexit]
  dsimp only
  rw [h.countP_predecessors ((h.mem_blocksOf_of_getElem?_regions hregion).2 exit hexit)]
  apply List.countP_congr
  intro edge hedge
  rw [Bool.and_eq_true, h.contains_source_iff hr hedge, decide_eq_true_iff, decide_eq_true_iff,
    and_comm]
  rfl

theorem isSimple_iff (hr : r < t.size)
    (hregion : (ofTree graph t).workspace.regions[r]? = some region)
    (hderived : region.simple? = none) :
    (ofTree graph t).workspace.isSimple r = true ↔
      r ≠ 0 ∧ ∃ exit, region.exit? = some exit ∧
        graph.edges.toList.countP ((ofTree graph t).workspace.EntersAt r region.entry) = 1 ∧
        graph.edges.toList.countP ((ofTree graph t).workspace.LeavesAt r exit) = 1 := by
  have hlink : (ofTree graph t).workspace.parent? r = region.parent? := by
    rw [Workspace.parent?, hregion, Option.bind_some]
  have hparent : region.parent?.isSome = true ↔ r ≠ 0 := by
    rw [Option.isSome_iff_ne_none, ← hlink]
    exact not_congr (parent?_ofTree_eq_none_iff hr)
  rw [Workspace.isSimple, hregion]
  dsimp only
  rw [hderived, Option.getD_none, ← h.enteringEdges_eq hr hregion]
  cases hexit : region.exit? with
  | none => simp
  | some exit =>
      rw [h.exitingEdges_eq hr hregion hexit]
      simp [hparent, and_assoc]

end IsSound

/-- A region of a loaded function that was given no classification is simple exactly if it is not
the outermost one, has an exit, one edge of the function leads to its entry from outside and one to
its exit from inside. -/
theorem IsLoaded.isSimple_iff_edges {rg : RegionGraph} (h : rg.IsLoaded) :
    ∃ analysis, rg.workspace.analyses[rg.analysis]? = some analysis ∧
      rg.regions = rg.workspace.walk analysis.root ∧
      ∀ r ∈ rg.regions, ∃ region, rg.workspace.regions[r]? = some region ∧
        (region.simple? = none → (rg.workspace.isSimple r = true ↔
          r ≠ analysis.root ∧ ∃ exit, region.exit? = some exit ∧
            rg.graph.edges.toList.countP (rg.workspace.EntersAt r region.entry) = 1 ∧
            rg.graph.edges.toList.countP (rg.workspace.LeavesAt r exit) = 1)) := by
  obtain ⟨graph, t, hsound, rfl⟩ := h.exists_eq_ofTree
  obtain ⟨ownership, hanalysis⟩ := getElem?_analyses_ofTree graph t
  refine ⟨_, hanalysis, ?_, ?_⟩
  · rw [regions, analysis_ofTree, hanalysis]
  · intro r hmem
    rw [regions_ofTree, List.mem_range] at hmem
    obtain ⟨region, hregion, _⟩ := exists_region_ofTree graph hmem
    refine ⟨region, hregion, fun hderived => ?_⟩
    rw [graph_ofTree]
    exact hsound.isSimple_iff hmem hregion hderived

/-- One edge enters the inner region and one leaves it, besides the loops at its entry and at its
exit. -/
theorem isSimple_iff_edges_loops : ∃ rg region exit,
    Document.load .sexp "(function f (block a) (block b)
      (edge a b) (edge b b) (edge b a) (edge a a)
      (region :entry a (blocks a) (region :entry b :exit a (blocks b))))" none = .ok [rg] ∧
    rg.workspace.regions[1]? = some region ∧ region.simple? = none ∧
    rg.workspace.isSimple 1 = true ∧ region.exit? = some exit ∧
    rg.graph.edges.toList.countP (rg.workspace.EntersAt 1 region.entry) = 1 ∧
    rg.graph.edges.toList.countP (rg.workspace.LeavesAt 1 exit) = 1 := by
  obtain ⟨rg, hload, hview⟩ := exists_eq_ok_singleton (by decide +kernel :
    (Document.load .sexp "(function f (block a) (block b)
      (edge a b) (edge b b) (edge b a) (edge a a)
      (region :entry a (blocks a) (region :entry b :exit a (blocks b))))" none).toOption.map
        (List.map fun rg => (rg.regions, rg.workspace.isSimple 1,
          rg.regions.filterMap fun r => rg.workspace.regions[r]?.bind (·.simple?))) =
      some [([0, 1], true, [])])
  simp only [Prod.mk.injEq, List.filterMap_eq_nil_iff] at hview
  obtain ⟨hregions, hsimple, hderived⟩ := hview
  obtain ⟨_, _, _, hiff⟩ :=
    IsLoaded.isSimple_iff_edges ⟨_, _, _, _, hload, List.mem_singleton_self rg⟩
  rw [hregions] at hderived hiff
  obtain ⟨region, hregion, hedges⟩ := hiff 1 (by decide)
  have hnone : region.simple? = none := by simpa [hregion] using hderived 1 (by decide)
  obtain ⟨_, exit, hexit, henters, hleaves⟩ := (hedges hnone).mp hsimple
  exact ⟨rg, region, exit, hload, hregion, hnone, hsimple, hexit, henters, hleaves⟩

end RegionGraph

end FlowRegions

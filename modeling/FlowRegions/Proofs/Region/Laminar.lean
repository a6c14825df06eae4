import FlowRegions.Proofs.Description.Loaded

/-!
# Regions around a block

The regions of a loaded function share blocks only where one of them lies inside the other. So the
regions around a block form a chain, and the owner of the block is the innermost of them.
-/

namespace FlowRegions

namespace Workspace

variable {ws : Workspace}

/-- The regions of an analysis are a laminar family over the blocks of its graph, and the region
that is found for a block is the innermost one around it. -/
structure IsLaminar (ws : Workspace) (a : AnalysisRef) (analysis : Analysis) : Prop where
  innermost : ∀ b ∈ ws.blocksOf analysis.graph, ∃ r ∈ ws.walk analysis.root,
    ws.regionFor a b = some r ∧
    (∀ s ∈ ws.walk analysis.root, b ∈ ws.owned s ↔ s = r) ∧
    ws.contains r b = true ∧
    ∀ s ∈ ws.walk analysis.root, ws.contains s b = true → s ≠ r → ws.depth s < ws.depth r
  overlap_iff : ∀ r ∈ ws.walk analysis.root, ∀ s ∈ ws.walk analysis.root,
    (∃ b ∈ ws.blocksOf analysis.graph, ws.contains r b = true ∧ ws.contains s b = true) ↔
      ws.containsRegion r s = true ∨ ws.containsRegion s r = true
  blocks_ne_nil : ∀ r ∈ ws.walk analysis.root, ws.regionBlocks r ≠ []
  blocks_nodup : ∀ r ∈ ws.walk analysis.root, (ws.regionBlocks r).Nodup
  blocks_sublist : ∀ r ∈ ws.walk analysis.root,
    (ws.regionBlocks r).Sublist (ws.blocksOf analysis.graph)
  blocks_perm : ∀ r ∈ ws.walk analysis.root,
    (ws.regionBlocks r).Perm (ws.owned r ++ (ws.children r).flatMap ws.regionBlocks)
  blocks_root : ws.regionBlocks analysis.root = ws.blocksOf analysis.graph

theorem IsTree.ownedBelow_eq_append {t : RefTree} (h : ws.IsTree t) {r : RegionRef}
    (hr : r ∈ t.preorder) :
    ws.ownedBelow r = ws.owned r ++ (ws.children r).flatMap ws.ownedBelow := by
  rw [ownedBelow, h.walk_eq_cons hr, List.flatMap_cons, List.flatMap_assoc]
  rfl

end Workspace

namespace RegionGraph

variable {graph : Cfg} {t : RegionTree}

theorem nodup_walk_ofTree {r : RegionRef} (hr : r < t.size) :
    ((ofTree graph t).workspace.walk r).Nodup := by
  obtain ⟨above, s, hplace⟩ := RegionTree.exists_place hr
  rw [RegionTree.walk_of_mem_places (holds_ofTree graph t) hplace]
  exact List.nodup_range'

theorem lt_of_mem_walk {r inner : RegionRef} (hr : r < t.size)
    (hinner : inner ∈ (ofTree graph t).workspace.walk r) : inner < t.size :=
  lt_of_mem_preorder_refs ((isTree_ofTree graph t).walk_subset (mem_preorder_refs hr) hinner)

namespace IsSound

variable (h : IsSound graph t)

include h

theorem ownedBelow_root_perm : ((ofTree graph t).workspace.ownedBelow 0).Perm
    ((ofTree graph t).workspace.blocksOf 0) := by
  rw [ownedBelow_root_ofTree, blocksOf_ofTree]
  exact h.sound.perm.map _

theorem mem_blocksOf_of_mem_ownedBelow {r : RegionRef} {b : BlockRef} (hr : r < t.size)
    (hb : b ∈ (ofTree graph t).workspace.ownedBelow r) :
    b ∈ (ofTree graph t).workspace.blocksOf 0 := by
  obtain ⟨inner, hinner, howned⟩ := Workspace.mem_ownedBelow.mp hb
  have hwalk : inner ∈ (ofTree graph t).workspace.walk 0 :=
    mem_walk_root_iff.mpr (lt_of_mem_walk hr hinner)
  exact h.ownedBelow_root_perm.mem_iff.mp (Workspace.mem_ownedBelow.mpr ⟨inner, hwalk, howned⟩)

/-! ### Owners -/

theorem exists_owner {b : BlockRef} (hb : b ∈ (ofTree graph t).workspace.blocksOf 0) :
    ∃ r < t.size, (ofTree graph t).workspace.regionFor 0 b = some r := by
  have hbelow := h.ownedBelow_root_perm.mem_iff.mpr hb
  obtain ⟨r, hr, howned⟩ := Workspace.mem_ownedBelow.mp hbelow
  have hlt := mem_walk_root_iff.mp hr
  exact ⟨r, hlt, (h.regionFor_eq_some_iff (Workspace.graph_of_mem_blocksOf hb)).mpr ⟨hlt, howned⟩⟩

theorem eq_of_mem_owned {r s : RegionRef} {b : BlockRef} (hr : r < t.size) (hs : s < t.size)
    (hbr : b ∈ (ofTree graph t).workspace.owned r)
    (hbs : b ∈ (ofTree graph t).workspace.owned s) : r = s := by
  have hgraph := graph_of_mem_ownedBelow hr (mem_ownedBelow_self hr hbr)
  have hforR := (h.regionFor_eq_some_iff hgraph).mpr ⟨hr, hbr⟩
  have hforS := (h.regionFor_eq_some_iff hgraph).mpr ⟨hs, hbs⟩
  exact Option.some.inj (hforR.symm.trans hforS)

omit h in
/-- Around a block are the regions on the lineage of the region found for it. -/
theorem contains_iff_mem_lineage {r s : RegionRef} {b : BlockRef} (hs : s < t.size)
    (hfor : (ofTree graph t).workspace.regionFor 0 b = some r) :
    (ofTree graph t).workspace.contains s b = true ↔
      s ∈ (ofTree graph t).workspace.lineage r := by
  rw [Workspace.contains, analysis?_ofTree hs, ← List.contains_iff_mem]
  dsimp only
  rw [hfor]
  rfl

theorem contains_of_containsRegion {r s : RegionRef} {b : BlockRef} (hr : r < t.size)
    (hs : s < t.size) (hb : b ∈ (ofTree graph t).workspace.blocksOf 0)
    (hnested : (ofTree graph t).workspace.containsRegion r s = true)
    (hcontains : (ofTree graph t).workspace.contains s b = true) :
    (ofTree graph t).workspace.contains r b = true := by
  obtain ⟨owner, howner, hfor⟩ := h.exists_owner hb
  rw [Workspace.containsRegion, List.contains_iff_mem] at hnested
  rw [contains_iff_mem_lineage hs hfor] at hcontains
  rw [contains_iff_mem_lineage hr hfor]
  have hsuffix := (isTree_ofTree graph t).lineage_suffix (mem_preorder_refs howner) hcontains
  exact hsuffix.subset hnested

/-! ### The blocks of a region -/

theorem nodup_ownedBelow {r : RegionRef} (hr : r < t.size) :
    ((ofTree graph t).workspace.ownedBelow r).Nodup := by
  have hroot := h.ownedBelow_root_perm.nodup_iff.mpr Workspace.nodup_map_index_blocksOf.of_map
  rw [Workspace.ownedBelow, List.nodup_flatMap] at hroot
  rw [Workspace.ownedBelow, List.nodup_flatMap]
  constructor
  · intro inner hinner
    exact hroot.1 inner (mem_walk_root_iff.mpr (lt_of_mem_walk hr hinner))
  · apply (nodup_walk_ofTree hr).pairwise_of_forall_ne
    intro x hx y hy hne b hbx hby
    exact hne (h.eq_of_mem_owned (lt_of_mem_walk hr hx) (lt_of_mem_walk hr hy) hbx hby)

theorem regionBlocks_perm {r : RegionRef} (hr : r < t.size) :
    ((ofTree graph t).workspace.regionBlocks r).Perm
      ((ofTree graph t).workspace.ownedBelow r) := by
  have hblocks : (((ofTree graph t).workspace.blocksOf 0).map (·.index)).Nodup :=
    Workspace.nodup_map_index_blocksOf
  rw [h.regionBlocks_eq hr,
    List.perm_ext_iff_of_nodup (hblocks.of_map.filter _) (h.nodup_ownedBelow hr)]
  intro b
  rw [List.mem_filter, decide_eq_true_iff, and_iff_right_iff_imp]
  exact h.mem_blocksOf_of_mem_ownedBelow hr

theorem exists_contained {r : RegionRef} (hr : r < t.size) :
    ∃ b ∈ (ofTree graph t).workspace.blocksOf 0,
      (ofTree graph t).workspace.contains r b = true := by
  obtain ⟨above, s, hplace⟩ := RegionTree.exists_place hr
  have hs := RegionTree.mem_subtrees_of_mem_places hplace
  have hentry : (⟨0, s.header.entry⟩ : BlockRef) ∈ (ofTree graph t).workspace.ownedBelow r := by
    rw [RegionTree.ownedBelow_of_mem_places (holds_ofTree graph t) hplace]
    exact List.mem_map.mpr ⟨_, h.sound.entry_mem s hs, rfl⟩
  exact ⟨_, h.mem_blocksOf_of_mem_ownedBelow hr hentry, (h.contains_iff hr rfl).mpr hentry⟩

theorem overlap_iff {r s : RegionRef} (hr : r < t.size) (hs : s < t.size) :
    (∃ b ∈ (ofTree graph t).workspace.blocksOf 0,
      (ofTree graph t).workspace.contains r b = true ∧
        (ofTree graph t).workspace.contains s b = true) ↔
      (ofTree graph t).workspace.containsRegion r s = true ∨
        (ofTree graph t).workspace.containsRegion s r = true := by
  constructor
  · rintro ⟨b, hb, hbr, hbs⟩
    obtain ⟨owner, howner, hfor⟩ := h.exists_owner hb
    rw [contains_iff_mem_lineage hr hfor] at hbr
    rw [contains_iff_mem_lineage hs hfor] at hbs
    simp only [Workspace.containsRegion, List.contains_iff_mem]
    exact (isTree_ofTree graph t).nested_of_mem_lineage (mem_preorder_refs howner) hbr hbs
  -- The entry of the inner region lies in both.
  · rintro (hnested | hnested)
    · obtain ⟨b, hb, hbs⟩ := h.exists_contained hs
      exact ⟨b, hb, h.contains_of_containsRegion hr hs hb hnested hbs, hbs⟩
    · obtain ⟨b, hb, hbr⟩ := h.exists_contained hr
      exact ⟨b, hb, hbr, h.contains_of_containsRegion hs hr hb hnested hbr⟩

theorem regionBlocks_perm_append {r : RegionRef} (hr : r < t.size) :
    ((ofTree graph t).workspace.regionBlocks r).Perm
      ((ofTree graph t).workspace.owned r ++
        ((ofTree graph t).workspace.children r).flatMap
          (ofTree graph t).workspace.regionBlocks) := by
  have hsplit := (isTree_ofTree graph t).ownedBelow_eq_append (mem_preorder_refs hr)
  refine (h.regionBlocks_perm hr).trans ?_
  rw [hsplit]
  apply List.Perm.append_left
  apply List.Perm.flatMap_left
  intro child hchild
  exact (h.regionBlocks_perm (lt_of_mem_children hr hchild)).symm

theorem regionBlocks_root :
    (ofTree graph t).workspace.regionBlocks 0 = (ofTree graph t).workspace.blocksOf 0 := by
  have hroot : 0 < t.size := RegionTree.lt_of_mem_places t.self_mem_places
  rw [h.regionBlocks_eq hroot, List.filter_eq_self]
  intro b hb
  exact decide_eq_true (h.ownedBelow_root_perm.mem_iff.mpr hb)

theorem isLaminar (ownership : Ownership) :
    (ofTree graph t).workspace.IsLaminar 0 ⟨0, 0, ownership⟩ := by
  have htree := isTree_ofTree graph t
  have hblocks : (((ofTree graph t).workspace.blocksOf 0).map (·.index)).Nodup :=
    Workspace.nodup_map_index_blocksOf
  refine ⟨?_, ?_, ?_, ?_, ?_, ?_, h.regionBlocks_root⟩
  · intro b hb
    obtain ⟨r, hr, hfor⟩ := h.exists_owner hb
    have howned := ((h.regionFor_eq_some_iff (Workspace.graph_of_mem_blocksOf hb)).mp hfor).2
    refine ⟨r, mem_walk_root_iff.mpr hr, hfor, ?_, ?_, ?_⟩
    · intro s hs
      refine ⟨fun hbs => ?_, fun heq => heq ▸ howned⟩
      exact h.eq_of_mem_owned (mem_walk_root_iff.mp hs) hr hbs howned
    · rw [contains_iff_mem_lineage hr hfor]
      exact htree.mem_lineage_self (mem_preorder_refs hr)
    · intro s hs hcontains hne
      rw [contains_iff_mem_lineage (mem_walk_root_iff.mp hs) hfor] at hcontains
      exact htree.depth_lt_of_mem_lineage (mem_preorder_refs hr) hcontains hne
  · intro r hr s hs
    exact h.overlap_iff (mem_walk_root_iff.mp hr) (mem_walk_root_iff.mp hs)
  · intro r hr hnil
    have hlt := mem_walk_root_iff.mp hr
    obtain ⟨b, hb, hcontains⟩ := h.exists_contained hlt
    have hgraph := Workspace.graph_of_mem_blocksOf hb
    have hmem := (h.regionBlocks_perm hlt).mem_iff.mpr ((h.contains_iff hlt hgraph).mp hcontains)
    rw [hnil] at hmem
    exact List.not_mem_nil hmem
  · intro r hr
    rw [h.regionBlocks_eq (mem_walk_root_iff.mp hr)]
    exact hblocks.of_map.filter _
  · intro r hr
    rw [h.regionBlocks_eq (mem_walk_root_iff.mp hr)]
    exact List.filter_sublist
  · intro r hr
    exact h.regionBlocks_perm_append (mem_walk_root_iff.mp hr)

end IsSound

/-- The regions of a loaded function are a laminar family, and the region found for a block is the
innermost one around it. -/
theorem IsLoaded.isLaminar_regions {rg : RegionGraph} (h : rg.IsLoaded) :
    ∃ analysis, rg.workspace.analyses[rg.analysis]? = some analysis ∧
      rg.regions = rg.workspace.walk analysis.root ∧
      rg.workspace.blocksOf analysis.graph = (List.range rg.graph.blocks.size).map
        (⟨analysis.graph, ·⟩) ∧
      rg.workspace.IsLaminar rg.analysis analysis := by
  obtain ⟨graph, t, hsound, rfl⟩ := h.exists_eq_ofTree
  obtain ⟨ownership, hanalysis⟩ := getElem?_analyses_ofTree graph t
  refine ⟨_, hanalysis, ?_, ?_, hsound.isLaminar ownership⟩
  · rw [regions, analysis_ofTree, hanalysis]
  · rw [graph_ofTree]
    exact blocksOf_ofTree graph t

/-- A region with two regions inside it, one of which has another one inside. -/
theorem isLaminar_regions_nested : ∃ rg analysis,
    Document.load .sexp "(function f (block a) (block b) (block c) (block d)
      (region :entry b (blocks b) (region :entry d (blocks d) (region :entry a (blocks a)))
        (region :entry c (blocks c))))" none = .ok [rg] ∧
    rg.workspace.analyses[rg.analysis]? = some analysis ∧
    rg.regions = [0, 1, 2, 3] ∧ rg.regions = rg.workspace.walk analysis.root ∧
    rg.workspace.IsLaminar rg.analysis analysis := by
  obtain ⟨rg, hload, hview⟩ := exists_eq_ok_singleton (by decide +kernel :
    (Document.load .sexp "(function f (block a) (block b) (block c) (block d)
      (region :entry b (blocks b) (region :entry d (blocks d) (region :entry a (blocks a)))
        (region :entry c (blocks c))))" none).toOption.map
          (List.map regions) = some [[0, 1, 2, 3]])
  obtain ⟨analysis, hanalysis, hregions, _, hlaminar⟩ :=
    IsLoaded.isLaminar_regions ⟨_, _, _, _, hload, List.mem_singleton_self rg⟩
  exact ⟨rg, analysis, hload, hanalysis, hview, hregions, hlaminar⟩

end RegionGraph

end FlowRegions

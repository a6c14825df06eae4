import FlowRegions.Description.Document
import FlowRegions.Proofs.Description.JsonReading
import FlowRegions.Proofs.Description.SexpReading

/-!
# Region graphs from documents

Every region graph that a document gives, in either form, is one consistent graph with a sound
region tree planted over it and indexed. The queries of a drawing are answered here by that graph
and that tree.
-/

namespace FlowRegions

namespace RegionTree

/-- The region that a place of a tree gets in a loaded function. -/
def regionAt (r : RegionRef) (above : List RegionRef) : RegionTree → Region
  | .node header children => { header.toRegion 0 with
      parent? := above.head?
      children := roots (r + 1) children
      number := r
      analysis? := some 0 }

end RegionTree

namespace RegionGraph

/-- The region graph of a tree that is planted over a graph and indexed. -/
def ofTree (graph : Cfg) (t : RegionTree) : RegionGraph where
  workspace := (t.plant 0 (.ofGraph graph)).index 0 0
  analysis := 0

/-- Some document gives the region graph. -/
def IsLoaded (rg : RegionGraph) : Prop :=
  ∃ format text source? functions,
    Document.load format text source? = .ok functions ∧ rg ∈ functions

/-- A consistent graph with blocks, and a sound region tree over its blocks. -/
structure IsSound (graph : Cfg) (t : RegionTree) : Prop where
  consistent : graph.Consistent 0
  size_pos : 0 < graph.blocks.size
  within : t.Within graph.blocks.size
  sound : t.Sound graph.blocks.size

theorem holds_planted (graph : Cfg) (t : RegionTree) :
    (t.plant 0 (.ofGraph graph)).Holds 0 (t.table 0 none 0) := by
  apply Workspace.Holds.of_regions_eq
  rw [RegionTree.regions_plant]
  exact Array.empty_append

end RegionGraph

namespace Draft.WellFormed

variable {d : Draft} {graph : Cfg}

theorem planted_eq (h : d.WellFormed graph) : d.planted = d.tree.plant 0 (.ofGraph graph) := by
  rw [planted, h.workspace_eq]

theorem holds_planted (h : d.WellFormed graph) :
    d.planted.Holds 0 (d.tree.table 0 none 0) := by
  rw [h.planted_eq]
  exact RegionGraph.holds_planted graph d.tree

/-- A well-formed draft becomes a region graph exactly if its tree is sound. -/
theorem toRegionGraph_eq_ok_iff (h : d.WellFormed graph) {rg : RegionGraph} :
    d.toRegionGraph = .ok rg ↔
      d.tree.Sound graph.blocks.size ∧ rg = .ofTree graph d.tree := by
  have hcount : d.planted.graphs[0]?.map (·.blocks.size) = some graph.blocks.size := by
    rw [h.planted_eq, RegionTree.graphs_plant]
    rfl
  have hanalyse := RegionTree.analyse_eq_ok_iff h.holds_planted hcount h.within
  have hws : (d.planted.analyse 0 0).1 = (RegionGraph.ofTree graph d.tree).workspace := by
    rw [Workspace.fst_analyse, h.planted_eq]
    rfl
  have hmap : d.toRegionGraph =
      (d.planted.analyse 0 0).2.map fun _ => ⟨(d.planted.analyse 0 0).1, 0⟩ := rfl
  rw [hmap, ← hanalyse, hws]
  cases (d.planted.analyse 0 0).2 with
  | error e => simp [Except.map]
  | ok _ => simp [Except.map, RegionGraph.ofTree, eq_comm]

end Draft.WellFormed

namespace Document

theorem wellFormed_of_mem_drafts {format : Format} {text : String} {source? : Option String}
    {found : List (Except LoadFault Draft)} (h : drafts format text source? = .ok found)
    {d : Draft} (hd : .ok d ∈ found) : ∃ graph, d.WellFormed graph := by
  unfold drafts at h
  cases format with
  | json =>
      dsimp only at h
      split at h
      case h_1 document _ =>
        obtain rfl := Except.ok.inj h
        obtain ⟨value, _, hvalue⟩ := List.mem_map.mp hd
        exact Draft.wellFormed_of_ofJson hvalue
      all_goals cases h
  | sexp =>
      dsimp only at h
      split at h
      case h_1 forms _ =>
        obtain rfl := Except.ok.inj h
        obtain ⟨form, _, hform⟩ := List.mem_map.mp hd
        exact Draft.wellFormed_of_ofSexp hform
      case h_2 => cases h

theorem finish_eq_ok {source? : Option String} {draft : Except LoadFault Draft} {rg : RegionGraph}
    (h : finish source? draft = .ok rg) : ∃ d, draft = .ok d ∧ d.toRegionGraph = .ok rg := by
  cases draft with
  | error fault => cases h
  | ok d => exact ⟨d, rfl, mapError_eq_ok_iff.mp h⟩

end Document

namespace RegionGraph

theorem exists_eq_ok_singleton {β : Type} {view : RegionGraph → β} {b : β}
    {found : Except DocumentError (List RegionGraph)}
    (h : found.toOption.map (List.map view) = some [b]) : ∃ rg, found = .ok [rg] ∧ view rg = b := by
  cases found with
  | error e => cases h
  | ok functions =>
      obtain ⟨rg, rfl, hview⟩ := List.map_eq_singleton_iff.mp (Option.some.inj h)
      exact ⟨rg, rfl, hview⟩

/-- What a document gives is a consistent graph with a sound region tree. -/
theorem IsLoaded.exists_eq_ofTree {rg : RegionGraph} (h : rg.IsLoaded) :
    ∃ graph t, IsSound graph t ∧ rg = ofTree graph t := by
  obtain ⟨format, text, source?, functions, hload, hmem⟩ := h
  obtain ⟨found, hfound, hload⟩ := bind_eq_ok_iff.mp hload
  obtain ⟨draft, hdraft, hfinish⟩ := exists_of_mem_of_mapM_eq_ok hload hmem
  obtain ⟨d, rfl, hd⟩ := Document.finish_eq_ok hfinish
  obtain ⟨graph, hwell⟩ := Document.wellFormed_of_mem_drafts hfound hdraft
  obtain ⟨hsound, rfl⟩ := hwell.toRegionGraph_eq_ok_iff.mp hd
  exact ⟨graph, d.tree, ⟨hwell.consistent, hwell.size_pos, hwell.within, hsound⟩, rfl⟩

/-! ### Queries -/

section

variable (graph : Cfg) (t : RegionTree)

@[simp] theorem graphs_ofTree : (ofTree graph t).workspace.graphs = #[graph] := by
  rw [ofTree, Workspace.graphs_index, RegionTree.graphs_plant]
  rfl

@[simp] theorem analysis_ofTree : (ofTree graph t).analysis = 0 := rfl

theorem holds_ofTree : (ofTree graph t).workspace.Holds 0 (t.table 0 none 0) :=
  (holds_planted graph t).index 0 0

theorem isTree_planted :
    (t.plant 0 (.ofGraph graph)).IsTree (t.refs 0) :=
  RegionTree.isTree_refs (holds_planted graph t)

theorem isTree_ofTree : (ofTree graph t).workspace.IsTree (t.refs 0) :=
  RegionTree.isTree_refs (holds_ofTree graph t)

theorem analyses_planted : (t.plant 0 (.ofGraph graph)).analyses.size = 0 := by
  rw [RegionTree.analyses_plant]
  rfl

theorem analyses_ofTree :
    ∃ ownership, (ofTree graph t).workspace.analyses = #[⟨0, 0, ownership⟩] := by
  have hpush : (ofTree graph t).workspace.analyses =
      (t.plant 0 (.ofGraph graph)).analyses.push ⟨0, 0, _⟩ := rfl
  rw [RegionTree.analyses_plant] at hpush
  exact ⟨_, hpush⟩

theorem getElem?_analyses_ofTree :
    ∃ ownership, (ofTree graph t).workspace.analyses[0]? = some ⟨0, 0, ownership⟩ := by
  obtain ⟨ownership, hanalyses⟩ := analyses_ofTree graph t
  exact ⟨ownership, by rw [hanalyses]; rfl⟩

theorem size_regions_ofTree : (ofTree graph t).workspace.regions.size = t.size := by
  rw [ofTree, Workspace.size_regions_index, RegionTree.regions_plant]
  simp [Workspace.ofGraph]

theorem graph_ofTree : (ofTree graph t).graph = graph := by
  obtain ⟨ownership, hanalysis⟩ := getElem?_analyses_ofTree graph t
  rw [RegionGraph.graph, analysis_ofTree, hanalysis, graphs_ofTree]
  rfl

/-- The regions of a loaded function are numbered in the order of a walk. -/
theorem regions_ofTree : (ofTree graph t).regions = List.range t.size := by
  obtain ⟨ownership, hanalysis⟩ := getElem?_analyses_ofTree graph t
  have hwalk := (isTree_ofTree graph t).walk_root
  rw [RegionTree.root_refs, RegionTree.preorder_refs] at hwalk
  rw [RegionGraph.regions, analysis_ofTree, hanalysis]
  exact hwalk.trans List.range_eq_range'.symm

theorem blocksOf_ofTree : (ofTree graph t).workspace.blocksOf 0 =
    (List.range graph.blocks.size).map (⟨0, ·⟩) :=
  RegionTree.blocksOf_eq (by rw [graphs_ofTree]; rfl)

variable {graph t}

theorem getElem?_preorder_refs {r : RegionRef} (hr : r < t.size) :
    (t.refs 0).preorder[r]? = some r := by
  rw [RegionTree.preorder_refs, List.getElem?_range' hr]
  simp

theorem mem_preorder_refs {r : RegionRef} (hr : r < t.size) : r ∈ (t.refs 0).preorder :=
  List.mem_of_getElem? (getElem?_preorder_refs hr)

theorem lt_of_mem_preorder_refs {r : RegionRef} (hr : r ∈ (t.refs 0).preorder) : r < t.size := by
  rw [RegionTree.preorder_refs, List.mem_range'_1, Nat.zero_add] at hr
  exact hr.2

theorem getElem?_regions_ofTree {r : RegionRef} {above : List RegionRef} {s : RegionTree}
    (hplace : (r, above, s) ∈ t.places 0 []) :
    (ofTree graph t).workspace.regions[r]? = some (s.regionAt r above) := by
  have hr := RegionTree.lt_of_mem_places hplace
  have hindexed := (isTree_planted graph t).getElem?_regions_index (g := 0)
    (getElem?_preorder_refs hr)
  rw [RegionTree.root_refs, analyses_planted] at hindexed
  have hholds := RegionTree.holds_subtree (holds_planted graph t) hplace
  cases s with
  | node header children =>
      rw [RegionTree.table] at hholds
      obtain ⟨region, hregion, hcore⟩ := Option.map_eq_some_iff.mp hholds.head
      have hnumbered : { region with number := (r : Int), analysis? := some 0 } =
          { region.core with number := (r : Int), analysis? := some 0 } := rfl
      rw [ofTree, hindexed, hregion, Option.map_some, hnumbered, hcore]
      rfl

theorem number_ofTree {r : RegionRef} (hr : r < t.size) :
    (ofTree graph t).workspace.number r = r := by
  obtain ⟨above, s, hplace⟩ := RegionTree.exists_place hr
  rw [Workspace.number, getElem?_regions_ofTree hplace]
  cases s
  rfl

theorem analysis?_ofTree {r : RegionRef} (hr : r < t.size) :
    (ofTree graph t).workspace.regions[r]?.bind (·.analysis?) = some 0 := by
  obtain ⟨above, s, hplace⟩ := RegionTree.exists_place hr
  rw [getElem?_regions_ofTree hplace]
  cases s
  rfl

theorem exists_region_ofTree (graph : Cfg) {t : RegionTree} {r : RegionRef} (hr : r < t.size) :
    ∃ region, (ofTree graph t).workspace.regions[r]? = some region ∧ region.entry.graph = 0 := by
  obtain ⟨above, s, hplace⟩ := RegionTree.exists_place hr
  refine ⟨_, getElem?_regions_ofTree hplace, ?_⟩
  cases s
  rfl

theorem ownedBelow_root_ofTree :
    (ofTree graph t).workspace.ownedBelow 0 = t.allOwned.map (⟨0, ·⟩) :=
  RegionTree.ownedBelow_of_mem_places (holds_ofTree graph t) t.self_mem_places

theorem lt_of_mem_children {r child : RegionRef} (hr : r < t.size)
    (hchild : child ∈ (ofTree graph t).workspace.children r) : child < t.size :=
  lt_of_mem_preorder_refs
    ((isTree_ofTree graph t).mem_of_mem_children (mem_preorder_refs hr) hchild)

theorem mem_walk_root_iff {r : RegionRef} :
    r ∈ (ofTree graph t).workspace.walk 0 ↔ r < t.size := by
  rw [RegionTree.walk_of_mem_places (holds_ofTree graph t) t.self_mem_places, List.mem_range'_1,
    Nat.zero_add]
  exact and_iff_right (Nat.zero_le r)

theorem graph_of_mem_ownedBelow {r : RegionRef} {b : BlockRef} (hr : r < t.size)
    (hb : b ∈ (ofTree graph t).workspace.ownedBelow r) : b.graph = 0 := by
  obtain ⟨inner, hinner, howned⟩ := Workspace.mem_ownedBelow.mp hb
  have hsubset := (isTree_ofTree graph t).walk_subset (mem_preorder_refs hr)
  rw [← (isTree_ofTree graph t).walk_root, RegionTree.root_refs] at hsubset
  have hmem := Workspace.mem_ownedBelow.mpr ⟨inner, hsubset hinner, howned⟩
  rw [ownedBelow_root_ofTree] at hmem
  obtain ⟨index, _, rfl⟩ := List.mem_map.mp hmem
  rfl

theorem mem_ownedBelow_self {r : RegionRef} {b : BlockRef} (hr : r < t.size)
    (hb : b ∈ (ofTree graph t).workspace.owned r) :
    b ∈ (ofTree graph t).workspace.ownedBelow r := by
  have hself := (isTree_ofTree graph t).mem_walk_self (mem_preorder_refs hr)
  exact Workspace.mem_ownedBelow.mpr ⟨r, hself, hb⟩

namespace IsSound

theorem nodup_map_index (h : IsSound graph t) :
    (((t.plant 0 (.ofGraph graph)).ownedBelow (t.refs 0).root).map (·.index)).Nodup := by
  have howned : (ofTree graph t).workspace.ownedBelow 0 = _ := ownedBelow_root_ofTree
  have hindex : BlockRef.index ∘ BlockRef.mk 0 = id := rfl
  rw [ofTree, Workspace.ownedBelow_index] at howned
  rw [RegionTree.root_refs, howned, List.map_map, hindex, List.map_id]
  exact h.sound.perm.nodup_iff.mpr List.nodup_range

/-- The owner that is looked up is the one region that owns the block. -/
theorem regionFor_eq_some_iff (h : IsSound graph t) {b : BlockRef} (hb : b.graph = 0)
    {r : RegionRef} : (ofTree graph t).workspace.regionFor 0 b = some r ↔
      r < t.size ∧ b ∈ (ofTree graph t).workspace.owned r := by
  have hfor := Workspace.regionFor_index_eq_some_iff (g := 0) h.nodup_map_index (b := b) (r := r)
  rw [analyses_planted, RegionTree.root_refs] at hfor
  have hwalk : (ofTree graph t).workspace.walk 0 = (t.plant 0 (.ofGraph graph)).walk 0 :=
    Workspace.walk_index 0
  have howned : (ofTree graph t).workspace.owned r = (t.plant 0 (.ofGraph graph)).owned r :=
    Workspace.owned_index _ 0 0 r
  rw [← hwalk, ← howned, mem_walk_root_iff] at hfor
  refine hfor.trans (and_congr_right fun hr => ⟨?_, fun hmem => ⟨b, hmem, rfl⟩⟩)
  rintro ⟨owned, hmem, hindex⟩
  have hgraph := graph_of_mem_ownedBelow hr (mem_ownedBelow_self hr hmem)
  rwa [← Workspace.BlockRef.eq_of_graph_of_index (hgraph.trans hb.symm) hindex]

/-- A region contains what it or a region below it owns. -/
theorem contains_iff (h : IsSound graph t) {r : RegionRef} (hr : r < t.size) {b : BlockRef}
    (hb : b.graph = 0) : (ofTree graph t).workspace.contains r b = true ↔
      b ∈ (ofTree graph t).workspace.ownedBelow r := by
  have hcontains := (isTree_planted graph t).contains_index_iff (g := 0) h.nodup_map_index
    (mem_preorder_refs hr) (b := b)
  have howned : (ofTree graph t).workspace.ownedBelow r =
    (t.plant 0 (.ofGraph graph)).ownedBelow r := Workspace.ownedBelow_index r
  rw [RegionTree.root_refs, ← howned] at hcontains
  refine hcontains.trans ⟨?_, fun hmem => ⟨b, hmem, rfl⟩⟩
  rintro ⟨owned, hmem, hindex⟩
  have hgraph := graph_of_mem_ownedBelow hr hmem
  rwa [← Workspace.BlockRef.eq_of_graph_of_index (hgraph.trans hb.symm) hindex]

theorem regionBlocks_eq (h : IsSound graph t) {r : RegionRef} (hr : r < t.size) :
    (ofTree graph t).workspace.regionBlocks r = ((ofTree graph t).workspace.blocksOf 0).filter
      (· ∈ (ofTree graph t).workspace.ownedBelow r) := by
  obtain ⟨region, hregion, hentry⟩ := exists_region_ofTree graph hr
  rw [Workspace.regionBlocks, hregion]
  dsimp only
  rw [hentry]
  apply List.filter_congr
  intro b hb
  rw [Bool.eq_iff_iff, h.contains_iff hr (Workspace.graph_of_mem_blocksOf hb), decide_eq_true_iff]

end IsSound

end

end RegionGraph

end FlowRegions

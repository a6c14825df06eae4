import FlowRegions.Proofs.Description.DescribedTree
import FlowRegions.Proofs.Description.Loaded

/-!
# Valid descriptions

A function is accepted exactly if its description is valid, and what is read then is what was
described.
-/

namespace FlowRegions

namespace RegionTree

theorem sound_whole {count : Nat} (h : 0 < count) : (whole count).Sound count where
  perm := by simp [whole]
  entry_mem := by simp [whole, h, header]

end RegionTree

namespace Description

variable {g : Cfg} {names : List String}

/-- The regions of a description, or one region that owns all blocks in order. -/
def region (d : Description) : RegionDescription :=
  d.regions?.getD (.node (d.names.headD "") none none d.names [])

/-- The region tree of a description over the places of its blocks. -/
def tree (d : Description) : RegionTree :=
  d.region.numbered d.names

/-- There are blocks, their names are distinct, and only these are mentioned. If regions are given,
they own every block once, and the entry of each is owned by it or by a region inside it. -/
structure Valid (d : Description) : Prop where
  blocks_ne_nil : d.blocks ≠ []
  nodup : d.names.Nodup
  edges_known : ∀ ends ∈ d.edges, ends.1 ∈ d.names ∧ ends.2 ∈ d.names
  regions_known : ∀ t ∈ d.regions?, t.Known d.names
  owned_once : ∀ t ∈ d.regions?, ∀ name ∈ d.names, t.allOwned.count name = 1
  entry_mem : ∀ t ∈ d.regions?, ∀ s ∈ t.subtrees, s.entry ∈ s.allOwned

/-- The region graph has the described blocks and edges in order, with the numbers of the blocks, and
the described regions in the order of a walk, with their parents, children, numbers and depths. -/
structure Describes (d : Description) (rg : RegionGraph) : Prop where
  name_eq : rg.name = d.name
  blocks_eq : rg.graph.blocks.toList.map (fun block => (block.id, block.name?, block.instructions)) =
    d.blocks.zipIdx.map fun (block, i) => (i, some block.name, block.instructions)
  consistent : rg.graph.Consistent 0
  edges_eq : rg.graph.edges.toList = d.edges.map fun ends =>
    ⟨⟨0, d.names.idxOf ends.1⟩, ⟨0, d.names.idxOf ends.2⟩⟩
  regions_eq : rg.regions.map (fun r => (rg.workspace.regions[r]?, rg.workspace.depth r)) =
    (d.tree.places 0 []).map fun (r, above, s) => (some (s.regionAt r above), above.length)

theorem treeIn?_eq_some_iff (h : g.Named names) {regions? : Option RegionDescription}
    {tree? : Option RegionTree} : treeIn? g regions? = some tree? ↔
      (∀ t ∈ regions?, t.Known names) ∧
        tree? = regions?.map (RegionDescription.numbered names) := by
  cases regions? with
  | none => simp [treeIn?, eq_comm]
  | some t =>
      simp only [treeIn?, Option.map_eq_some_iff, RegionDescription.resolve?_eq_some_iff h,
        Option.mem_some_iff, forall_eq', Option.map_some]
      constructor
      · rintro ⟨_, ⟨hknown, rfl⟩, rfl⟩
        exact ⟨hknown, rfl⟩
      · rintro ⟨hknown, rfl⟩
        exact ⟨_, ⟨hknown, rfl⟩, rfl⟩

theorem ofParts_ofGraph_eq_ok_iff {tree? : Option RegionTree} {draft : Draft} :
    Draft.ofParts (.ofGraph g) tree? = .ok draft ↔ 0 < g.blocks.size ∧
      draft = ⟨.ofGraph g, tree?.getD (.whole g.blocks.size)⟩ := by
  rw [Draft.ofParts, Workspace.onlyGraph_ofGraph]
  by_cases hzero : g.blocks.size = 0
  · rw [if_pos hzero]
    simp [hzero]
  · rw [if_neg hzero, Except.ok.injEq, eq_comm, and_iff_right (Nat.pos_of_ne_zero hzero)]

theorem numbered_whole (hne : names ≠ []) (hnodup : names.Nodup) :
    (RegionDescription.node (names.headD "") none none names []).numbered names =
      .whole names.length := by
  obtain ⟨name, rest, rfl⟩ := List.exists_cons_of_ne_nil hne
  rw [RegionDescription.numbered, RegionDescription.map_idxOf_self hnodup]
  simp [RegionDescription.numberedItems, RegionTree.whole]

theorem tree_eq {d : Description} (hne : d.names ≠ []) (hnodup : d.names.Nodup) :
    (d.regions?.map (RegionDescription.numbered d.names)).getD (.whole d.names.length) =
      d.tree := by
  rw [tree, region]
  cases d.regions? with
  | none => exact (numbered_whole hne hnodup).symm
  | some t => rfl

theorem names_ne_nil_iff {d : Description} : d.names ≠ [] ↔ d.blocks ≠ [] :=
  not_congr List.map_eq_nil_iff

theorem size_blocks_cfg (d : Description) : d.cfg.blocks.size = d.names.length :=
  d.named_cfg.size_blocks

theorem draft?_eq_some_iff (d : Description) {draft : Draft} :
    d.draft? = some draft ↔
      (d.names.Nodup ∧ ∀ ends ∈ d.edges, ends.1 ∈ d.names ∧ ends.2 ∈ d.names) ∧
        (∀ t ∈ d.regions?, t.Known d.names) ∧ d.blocks ≠ [] ∧
          draft = ⟨.ofGraph d.cfg, d.tree⟩ := by
  have hpos : 0 < d.cfg.blocks.size ↔ d.blocks ≠ [] := by
    rw [size_blocks_cfg, List.length_pos_iff, names_ne_nil_iff]
  unfold draft?
  simp only [Option.bind_eq_bind]
  rw [← Option.bind_assoc, Option.bind_eq_some_iff]
  simp only [d.buildGraph_eq_some_iff, Option.bind_eq_some_iff, toOption_eq_some_iff]
  constructor
  · rintro ⟨_, ⟨hgraph, rfl⟩, tree?, htree, hdraft⟩
    obtain ⟨hknown, rfl⟩ := (treeIn?_eq_some_iff d.named_cfg).mp htree
    obtain ⟨hsize, rfl⟩ := ofParts_ofGraph_eq_ok_iff.mp hdraft
    have hne := hpos.mp hsize
    refine ⟨hgraph, hknown, hne, ?_⟩
    rw [size_blocks_cfg, tree_eq (names_ne_nil_iff.mpr hne) hgraph.1]
  · rintro ⟨hgraph, hknown, hne, rfl⟩
    refine ⟨_, ⟨hgraph, rfl⟩, _, (treeIn?_eq_some_iff d.named_cfg).mpr ⟨hknown, rfl⟩, ?_⟩
    refine ofParts_ofGraph_eq_ok_iff.mpr ⟨hpos.mpr hne, ?_⟩
    rw [size_blocks_cfg, tree_eq (names_ne_nil_iff.mpr hne) hgraph.1]

theorem sound_tree_iff {d : Description} (hne : d.blocks ≠ []) (hnodup : d.names.Nodup)
    (hknown : ∀ t ∈ d.regions?, t.Known d.names) : d.tree.Sound d.names.length ↔
      (∀ t ∈ d.regions?, ∀ name ∈ d.names, t.allOwned.count name = 1) ∧
        ∀ t ∈ d.regions?, ∀ s ∈ t.subtrees, s.entry ∈ s.allOwned := by
  have hnames := names_ne_nil_iff.mpr hne
  rw [← tree_eq hnames hnodup]
  cases hregions : d.regions? with
  | none =>
      have hwhole := RegionTree.sound_whole (List.length_pos_iff.mpr hnames)
      simpa using hwhole
  | some t =>
      have hsound := RegionDescription.sound_numbered_iff hnodup (hknown t hregions)
      simpa using hsound

theorem consistent_cfg {d : Description} (h : d.Valid) : d.cfg.Consistent 0 := by
  have hdraft : d.draft? = some ⟨.ofGraph d.cfg, d.tree⟩ := d.draft?_eq_some_iff.mpr
    ⟨⟨h.nodup, h.edges_known⟩, h.regions_known, h.blocks_ne_nil, rfl⟩
  rw [← toOption_ofJson true, toOption_eq_some_iff] at hdraft
  obtain ⟨graph, hwell⟩ := Draft.wellFormed_of_ofJson hdraft
  obtain rfl : d.cfg = graph := congrArg Workspace.onlyGraph hwell.workspace_eq
  exact hwell.consistent

theorem Valid.describes {d : Description} (h : d.Valid) :
    d.Describes (.ofTree d.cfg d.tree) where
  name_eq := by rw [RegionGraph.name, RegionGraph.graph_ofTree, name_cfg]
  blocks_eq := by rw [RegionGraph.graph_ofTree, blocks_cfg]
  consistent := by
    rw [RegionGraph.graph_ofTree]
    exact consistent_cfg h
  edges_eq := by rw [RegionGraph.graph_ofTree, edges_cfg]
  regions_eq := by
    rw [RegionGraph.regions_ofTree, List.range_eq_range', ← RegionTree.map_fst_places 0 [],
      List.map_map]
    apply List.map_congr_left
    intro place hplace
    have hregion : (RegionGraph.ofTree d.cfg d.tree).workspace.regions[place.1]? = _ :=
      RegionGraph.getElem?_regions_ofTree hplace
    have hdepth := RegionTree.depth_of_mem_places (RegionGraph.holds_ofTree d.cfg d.tree) hplace
    exact Prod.ext hregion hdepth

/-- What is read from the object that describes a function is what is described. -/
theorem finish_ofJson_eq_ok_iff (d : Description) (terse : Bool) (source? : Option String)
    {rg : RegionGraph} : Document.finish source? (Draft.ofJson (d.toJson terse)) = .ok rg ↔
      d.Valid ∧ rg = .ofTree d.cfg d.tree := by
  have hread : ∀ {draft}, Draft.ofJson (d.toJson terse) = .ok draft ↔ d.draft? = some draft := by
    intro draft
    rw [← toOption_ofJson terse, toOption_eq_some_iff]
  have hdraft : ∀ {draft}, Draft.ofJson (d.toJson terse) = .ok draft →
      (draft.toRegionGraph = .ok rg ↔
        draft.tree.Sound d.names.length ∧ rg = .ofTree d.cfg draft.tree) := by
    intro draft hdraft
    obtain ⟨graph, hwell⟩ := Draft.wellFormed_of_ofJson hdraft
    obtain ⟨_, _, _, rfl⟩ := d.draft?_eq_some_iff.mp (hread.mp hdraft)
    have hgraph : d.cfg = graph := congrArg Workspace.onlyGraph hwell.workspace_eq
    subst hgraph
    rw [hwell.toRegionGraph_eq_ok_iff, size_blocks_cfg]
  constructor
  · intro hfinish
    obtain ⟨draft, hok, htree⟩ := Document.finish_eq_ok hfinish
    obtain ⟨hsound, hrg⟩ := (hdraft hok).mp htree
    obtain ⟨⟨hnodup, hedges⟩, hknown, hne, rfl⟩ := d.draft?_eq_some_iff.mp (hread.mp hok)
    obtain ⟨honce, hentry⟩ := (sound_tree_iff hne hnodup hknown).mp hsound
    exact ⟨⟨hne, hnodup, hedges, hknown, honce, hentry⟩, hrg⟩
  · rintro ⟨hvalid, rfl⟩
    have hok := hread.mpr (d.draft?_eq_some_iff.mpr
      ⟨⟨hvalid.nodup, hvalid.edges_known⟩, hvalid.regions_known, hvalid.blocks_ne_nil, rfl⟩)
    have hsound := (sound_tree_iff hvalid.blocks_ne_nil hvalid.nodup hvalid.regions_known).mpr
      ⟨hvalid.owned_once, hvalid.entry_mem⟩
    rw [hok]
    exact mapError_eq_ok_iff.mpr ((hdraft hok).mpr ⟨hsound, rfl⟩)

/-- A function is accepted exactly if its description is valid, and then it is the one that is
described. -/
theorem finish_ofJson_iff_valid (d : Description) (terse : Bool) (source? : Option String) :
    ((∃ rg, Document.finish source? (Draft.ofJson (d.toJson terse)) = .ok rg) ↔ d.Valid) ∧
      ∀ rg, Document.finish source? (Draft.ofJson (d.toJson terse)) = .ok rg → d.Describes rg := by
  simp only [finish_ofJson_eq_ok_iff, exists_and_left, exists_eq, and_true, true_and]
  rintro _ ⟨hvalid, rfl⟩
  exact hvalid.describes

/-- A function with a region in another. -/
def nested : Description where
  name := "f"
  blocks := [⟨"entry", []⟩, ⟨"body", ["add"]⟩]
  edges := [("entry", "body"), ("body", "body")]
  regions? := some (.node "entry" none none ["entry"] [.node "body" none (some true) ["body"] []])

theorem valid_nested : nested.Valid where
  blocks_ne_nil := List.cons_ne_nil _ _
  nodup := by decide
  edges_known := by decide
  regions_known := by
    rintro _ ⟨⟩
    simp only [RegionDescription.known_node, List.forall_mem_singleton]
    exact ⟨⟨by decide, by decide, by decide⟩, ⟨by decide, by decide, by decide⟩, by simp⟩
  owned_once := by
    rintro _ ⟨⟩
    simp [RegionDescription.allOwned, RegionDescription.owned, names, nested]
  entry_mem := by
    rintro _ ⟨⟩
    simp [RegionDescription.allOwned, RegionDescription.owned, RegionDescription.entry]

theorem finish_ofJson_nested :
    ∃ rg, Document.finish none (Draft.ofJson (nested.toJson true)) = .ok rg ∧
      nested.Describes rg := by
  obtain ⟨haccept, hdescribes⟩ := finish_ofJson_iff_valid nested true none
  obtain ⟨rg, hrg⟩ := haccept.mpr valid_nested
  exact ⟨rg, hrg, hdescribes rg hrg⟩

end Description

end FlowRegions

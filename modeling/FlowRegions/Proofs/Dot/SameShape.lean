import FlowRegions.Proofs.Description.Loaded
import FlowRegions.Proofs.Dot.Agreement
import FlowRegions.Proofs.Dot.Skeleton
import FlowRegions.Proofs.Dot.ClusterTree

/-!
# Drawings of functions of one shape

Two loaded functions have the same shape if they have as many blocks, the same edges and the same
regions, all given by numbers. Their drawings differ only inside of strings, whatever the names, the
instructions and the titles are: no text from a description can end a string early or add a
statement.
-/

namespace FlowRegions

/-- The numbers of the blocks at both ends of an edge. -/
def Edge.numbers (edge : Edge) : Nat × Nat :=
  (edge.source.index, edge.target.index)

/-- A region by numbers: its entry, the blocks that it owns, its children, and whether it counts as
simple. -/
structure RegionShape where
  entry? : Option Nat
  owned : List Nat
  children : List Int
  simple : Bool
deriving DecidableEq, Repr

/-- The shape of a region. -/
def Workspace.regionShape (ws : Workspace) (r : RegionRef) : RegionShape where
  entry? := ws.regions[r]?.map (·.entry.index)
  owned := (ws.owned r).map (·.index)
  children := (ws.children r).map ws.number
  simple := ws.isSimple r

/-- A function by numbers: how many blocks it has, its edges and its regions in order. -/
structure Shape where
  blocks : Nat
  edges : List (Nat × Nat)
  regions : List RegionShape
deriving DecidableEq, Repr

namespace RegionGraph

/-- The shape of a function. -/
def shape (rg : RegionGraph) : Shape where
  blocks := rg.graph.blocks.size
  edges := rg.graph.edges.toList.map Edge.numbers
  regions := rg.regions.map rg.workspace.regionShape

/-- The functions differ in names, instructions and exits only. -/
def SameShape (rg rg' : RegionGraph) : Prop :=
  rg'.shape = rg.shape

end RegionGraph

namespace Cfg

theorem Consistent.edges_eq {g : GraphRef} {graph : Cfg} (h : graph.Consistent g) :
    graph.edges.toList =
      (graph.edges.toList.map Edge.numbers).map fun ends => ⟨⟨g, ends.1⟩, ⟨g, ends.2⟩⟩ := by
  rw [List.map_map]
  apply (List.map_id _).symm.trans
  apply List.map_congr_left
  intro edge hedge
  obtain ⟨⟨source, i⟩, ⟨target, j⟩⟩ := edge
  obtain rfl : source = g := (h.source_mem _ hedge).1
  obtain rfl : target = source := (h.target_mem _ hedge).1
  rfl

end Cfg

namespace RegionGraph

variable {graph graph' : Cfg} {t t' : RegionTree}

theorem owned_eq_map_index {r : RegionRef} (hr : r < t.size) :
    (ofTree graph t).workspace.owned r =
      (((ofTree graph t).workspace.owned r).map (·.index)).map (⟨0, ·⟩) := by
  rw [List.map_map]
  apply (List.map_id _).symm.trans
  apply List.map_congr_left
  intro b hb
  have hgraph := graph_of_mem_ownedBelow hr (mem_ownedBelow_self hr hb)
  exact Workspace.BlockRef.eq_of_graph_of_index hgraph rfl

theorem children_eq_map_number {r : RegionRef} (hr : r < t.size) :
    (ofTree graph t).workspace.children r =
      (((ofTree graph t).workspace.children r).map (ofTree graph t).workspace.number).map
        Int.toNat := by
  rw [List.map_map]
  apply (List.map_id _).symm.trans
  apply List.map_congr_left
  intro child hchild
  rw [Function.comp_apply, number_ofTree (lt_of_mem_children hr hchild)]
  rfl

/-- A block of a loaded function lists the edges that leave it, in the order of the graph. -/
theorem successors_ofTree (h : IsSound graph t) (b : BlockRef) :
    (ofTree graph t).workspace.successors b =
      (graph.edges.toList.filter (·.source = b)).map (·.target) := by
  have hblock : (ofTree graph t).workspace.block? b =
      (#[graph] : Array Cfg)[b.graph]?.bind (·.blocks[b.index]?) := by
    rw [Workspace.block?, graphs_ofTree]
  rw [Workspace.successors, hblock]
  cases hfind : (#[graph] : Array Cfg)[b.graph]?.bind (·.blocks[b.index]?) with
  | some block =>
      obtain ⟨found, hfound, hindex⟩ := Option.bind_eq_some_iff.mp hfind
      obtain ⟨hlt, _⟩ := Array.getElem?_eq_some_iff.mp hfound
      have hzero : b.graph = 0 := Nat.lt_one_iff.mp hlt
      rw [hzero] at hfound
      obtain rfl : graph = found := Option.some.inj hfound
      have hsuccessors := h.consistent.successors_eq hindex
      rwa [← hzero] at hsuccessors
  | none =>
      have hempty : graph.edges.toList.filter (·.source = b) = [] := by
        rw [List.filter_eq_nil_iff]
        intro edge hedge heq
        obtain ⟨hgraph, hlt⟩ := h.consistent.source_mem edge hedge
        obtain rfl := of_decide_eq_true heq
        rw [hgraph] at hfind
        exact absurd (Array.getElem?_eq_none_iff.mp hfind) (Nat.not_le_of_lt hlt)
      rw [hempty]
      rfl

namespace SameShape

theorem size_blocks (h : SameShape (ofTree graph t) (ofTree graph' t')) :
    graph'.blocks.size = graph.blocks.size := by
  have hblocks := congrArg Shape.blocks h
  rwa [shape, shape, graph_ofTree, graph_ofTree] at hblocks

theorem edges (h : SameShape (ofTree graph t) (ofTree graph' t')) :
    graph'.edges.toList.map Edge.numbers = graph.edges.toList.map Edge.numbers := by
  have hedges := congrArg Shape.edges h
  rwa [shape, shape, graph_ofTree, graph_ofTree] at hedges

theorem regions (h : SameShape (ofTree graph t) (ofTree graph' t')) :
    (ofTree graph' t').regions.map (ofTree graph' t').workspace.regionShape =
      (ofTree graph t).regions.map (ofTree graph t).workspace.regionShape :=
  congrArg Shape.regions h

theorem size_eq (h : SameShape (ofTree graph t) (ofTree graph' t')) : t'.size = t.size := by
  have hlength := congrArg List.length h.regions
  rwa [List.length_map, List.length_map, regions_ofTree, regions_ofTree, List.length_range,
    List.length_range] at hlength

theorem regionShape_eq (h : SameShape (ofTree graph t) (ofTree graph' t')) {r : RegionRef}
    (hr : r < t.size) : (ofTree graph' t').workspace.regionShape r =
      (ofTree graph t).workspace.regionShape r := by
  have hregions := h.regions
  rw [regions_ofTree, regions_ofTree, h.size_eq] at hregions
  exact List.map_inj_left.mp hregions r (List.mem_range.mpr hr)

theorem children_eq (h : SameShape (ofTree graph t) (ofTree graph' t')) {r : RegionRef}
    (hr : r < t.size) : (ofTree graph' t').workspace.children r =
      (ofTree graph t).workspace.children r := by
  have hshape := congrArg RegionShape.children (h.regionShape_eq hr)
  rw [children_eq_map_number hr, children_eq_map_number (h.size_eq ▸ hr)]
  exact congrArg _ hshape

theorem refs_eq (h : SameShape (ofTree graph t) (ofTree graph' t')) : t'.refs 0 = t.refs 0 := by
  apply Workspace.Linked.eq_of_children (isTree_ofTree graph t).linked
    (isTree_ofTree graph' t').linked
  · rw [RegionTree.root_refs, RegionTree.root_refs]
  · intro r hr
    exact h.children_eq (lt_of_mem_preorder_refs hr)

theorem getElem?_regions_eq_none {r : RegionRef} (hr : ¬r < t.size) :
    (ofTree graph t).workspace.regions[r]? = none := by
  rw [Array.getElem?_eq_none_iff, size_regions_ofTree]
  exact Nat.le_of_not_lt hr

theorem parent?_eq (h : SameShape (ofTree graph t) (ofTree graph' t')) {r : RegionRef}
    (hr : r < t.size) : (ofTree graph' t').workspace.parent? r =
      (ofTree graph t).workspace.parent? r := by
  have htree' := isTree_ofTree graph' t'
  rw [h.refs_eq] at htree'
  obtain ⟨⟨b, u⟩, hu, rfl⟩ := RefTree.exists_place_of_mem (mem_preorder_refs hr) []
  rw [(htree'.linked_of_mem_places hu).parent_root,
    ((isTree_ofTree graph t).linked_of_mem_places hu).parent_root]

theorem owned_eq (h : SameShape (ofTree graph t) (ofTree graph' t')) {r : RegionRef}
    (hr : r < t.size) : (ofTree graph' t').workspace.owned r =
      (ofTree graph t).workspace.owned r := by
  have hshape := congrArg RegionShape.owned (h.regionShape_eq hr)
  rw [owned_eq_map_index hr, owned_eq_map_index (h.size_eq ▸ hr)]
  exact congrArg _ hshape

theorem entry_eq (h : SameShape (ofTree graph t) (ofTree graph' t')) {r : RegionRef}
    (hr : r < t.size) : (ofTree graph' t').workspace.regions[r]?.map (·.entry) =
      (ofTree graph t).workspace.regions[r]?.map (·.entry) := by
  have hshape := congrArg RegionShape.entry? (h.regionShape_eq hr)
  obtain ⟨region, hregion, hgraph⟩ := exists_region_ofTree graph hr
  obtain ⟨region', hregion', hgraph'⟩ := exists_region_ofTree graph' (h.size_eq ▸ hr)
  rw [Workspace.regionShape, Workspace.regionShape, hregion, hregion'] at hshape
  rw [hregion, hregion']
  exact congrArg some
    (Workspace.BlockRef.eq_of_graph_of_index (hgraph'.trans hgraph.symm) (Option.some.inj hshape))

theorem regionFor_eq (h : SameShape (ofTree graph t) (ofTree graph' t'))
    (hsound : IsSound graph t) (hsound' : IsSound graph' t') (a : AnalysisRef) (b : BlockRef) :
    (ofTree graph' t').workspace.regionFor a b = (ofTree graph t).workspace.regionFor a b := by
  obtain ⟨ownership, hanalyses⟩ := analyses_ofTree graph t
  obtain ⟨ownership', hanalyses'⟩ := analyses_ofTree graph' t'
  cases a with
  | succ a => rw [Workspace.regionFor, Workspace.regionFor, hanalyses, hanalyses']; rfl
  | zero =>
      have hsame : (ofTree graph' t').workspace.regionFor 0 ⟨0, b.index⟩ =
          (ofTree graph t).workspace.regionFor 0 ⟨0, b.index⟩ := by
        ext r
        rw [hsound.regionFor_eq_some_iff rfl, hsound'.regionFor_eq_some_iff rfl, h.size_eq]
        apply and_congr_right
        intro hr
        rw [h.owned_eq hr]
      exact hsame

theorem successors_eq (h : SameShape (ofTree graph t) (ofTree graph' t'))
    (hsound : IsSound graph t) (hsound' : IsSound graph' t') (b : BlockRef) :
    (ofTree graph' t').workspace.successors b = (ofTree graph t).workspace.successors b := by
  rw [successors_ofTree hsound, successors_ofTree hsound', hsound.consistent.edges_eq,
    hsound'.consistent.edges_eq, h.edges]

/-- Two functions of one shape agree on everything but their names and instructions. -/
theorem agree (h : SameShape (ofTree graph t) (ofTree graph' t'))
    (hsound : IsSound graph t) (hsound' : IsSound graph' t') :
    (ofTree graph t).workspace.Agree (ofTree graph' t').workspace := by
  -- Outside of the tree neither workspace has a region.
  have hnone : ∀ {r : RegionRef}, ¬r < t.size →
      (ofTree graph t).workspace.regions[r]? = none ∧
        (ofTree graph' t').workspace.regions[r]? = none := by
    intro r hr
    exact ⟨getElem?_regions_eq_none hr, getElem?_regions_eq_none (h.size_eq ▸ hr)⟩
  refine ⟨?_, ?_, h.successors_eq hsound hsound', ?_, ?_, ?_, ?_, ?_, ?_, ?_,
    h.regionFor_eq hsound hsound'⟩
  · rw [size_regions_ofTree, size_regions_ofTree, h.size_eq]
  · intro g
    rw [Workspace.blocksOf, Workspace.blocksOf, graphs_ofTree, graphs_ofTree]
    cases g with
    | zero => simp [h.size_blocks]
    | succ g => simp
  all_goals
    intro r
    by_cases hr : r < t.size
  · exact h.children_eq hr
  · simp [Workspace.children, hnone hr]
  · exact h.parent?_eq hr
  · simp [Workspace.parent?, hnone hr]
  · exact h.owned_eq hr
  · simp [Workspace.owned, hnone hr]
  · exact h.entry_eq hr
  · simp [hnone hr]
  · exact congrArg RegionShape.simple (h.regionShape_eq hr)
  · simp [Workspace.isSimple, hnone hr]
  · rw [number_ofTree hr, number_ofTree (h.size_eq ▸ hr)]
  · simp [Workspace.number, hnone hr]
  · rw [analysis?_ofTree hr, analysis?_ofTree (h.size_eq ▸ hr)]
  · simp [hnone hr]

end SameShape

theorem plain_blockStatements (ws : Workspace) (a : AnalysisRef) (namesOnly : Bool) (b : BlockRef) :
    ∀ s ∈ ws.blockStatements a namesOnly b, s.Plain := by
  have hid : ∀ b : BlockRef, '"' ∉ (Dot.blockNodeId b).toList := by
    intro b
    have htext : (Dot.blockNodeId b).toList = "Node".toList ++ (toString b.index).toList :=
      String.toList_append
    rw [htext, List.mem_append, not_or]
    exact ⟨by decide, Text.not_mem_toString_nat (by decide) b.index⟩
  rw [Workspace.blockStatements, List.forall_mem_cons]
  refine ⟨⟨hid b, by decide⟩, ?_⟩
  rw [List.forall_mem_map]
  intro target _
  refine ⟨hid b, hid target, ?_⟩
  rw [Workspace.edgeAttributes]
  split <;> decide

theorem flatMap_skeleton_eq {ws ws' : Workspace} (h : ws.Agree ws') (a : AnalysisRef)
    (namesOnly namesOnly' : Bool) (b : BlockRef) :
    (ws'.blockStatements a namesOnly' b).flatMap Dot.Statement.skeleton =
      (ws.blockStatements a namesOnly b).flatMap Dot.Statement.skeleton := by
  have hedges : (ws'.successors b).map (ws'.edgeStatement a b) =
      (ws.successors b).map (ws.edgeStatement a b) := by
    rw [h.successors]
    apply List.map_congr_left
    intro target _
    rw [Workspace.edgeStatement, Workspace.edgeStatement, h.edgeAttributes]
  rw [Workspace.blockStatements, Workspace.blockStatements, hedges, List.flatMap_cons,
    List.flatMap_cons]
  rfl

theorem closed_features (cluster : Dot.Cluster) : ∃ out, Dot.Scan.outside.Leaves
    ("\tcolorscheme = \"paired12\"\n" ++ (cluster.listing 4).text).toList .outside out := by
  have hstart : Dot.Scan.outside.Leaves "\tcolorscheme = ".toList .outside _ :=
    .plain (by decide)
  have hscheme : Dot.Scan.outside.Leaves "\"paired12\"".toList .outside _ :=
    .quoted (.escapeChars "paired12".toList)
  have hend : Dot.Scan.outside.Leaves "\n".toList .outside _ := .plain (by decide)
  obtain ⟨out, hout⟩ := Dot.Listing.Closed.listing 4 cluster
  rw [String.toList_append]
  exact ⟨_, ((hstart.append hscheme).append hend).append hout⟩

/-- What is left of the drawing of a workspace without the contents of its strings. -/
def skeletonOf (ws : Workspace) (look : Look) (features : List Char) : List Char :=
  "digraph \"\" \x7b\n\tlabel=\"\";\n".toList ++ "\n".toList ++
    (ws.blocksOf 0).flatMap (fun b =>
      (ws.blockStatements 0 look.namesOnly b).flatMap Dot.Statement.skeleton) ++
    features ++ "\x7d\n".toList

theorem skeletonOf_eq {ws ws' : Workspace} (h : ws.Agree ws') (look look' : Look)
    (features : List Char) : skeletonOf ws' look' features = skeletonOf ws look features := by
  have hblocks : (ws'.blocksOf 0).flatMap (fun b =>
      (ws'.blockStatements 0 look'.namesOnly b).flatMap Dot.Statement.skeleton) =
      (ws.blocksOf 0).flatMap (fun b =>
        (ws.blockStatements 0 look.namesOnly b).flatMap Dot.Statement.skeleton) := by
    rw [h.blocksOf]
    apply List.flatMap_congr
    intro b _
    exact flatMap_skeleton_eq h 0 look.namesOnly look'.namesOnly b
  unfold skeletonOf
  rw [hblocks]

theorem IsSound.exists_blanked? (h : IsSound graph t) (look : Look) (title : String)
    {features : List Char} (hfeatures : Dot.Scan.outside.Leaves
      ("\tcolorscheme = \"paired12\"\n" ++
        (((ofTree graph t).workspace.cluster look.onlySimple 0).listing 4).text).toList
      .outside features) :
    ∃ drawing, (ofTree graph t).workspace.draw 0 look title = .ok drawing ∧
      Dot.blanked? drawing.text =
        some (String.ofList (skeletonOf (ofTree graph t).workspace look features)) := by
  obtain ⟨drawing, hdrawing, htitle, hproperties, hstatements, htext⟩ : ∃ drawing,
      (ofTree graph t).workspace.draw 0 look title = .ok drawing ∧
      drawing.title = (if title.isEmpty then "Region Graph" else title) ∧
      drawing.properties = "" ∧
      drawing.statements = ((ofTree graph t).workspace.blocksOf 0).flatMap
        ((ofTree graph t).workspace.blockStatements 0 look.namesOnly) ∧
      drawing.features = "\tcolorscheme = \"paired12\"\n" ++
        (((ofTree graph t).workspace.cluster look.onlySimple 0).listing 4).text :=
    ⟨_, h.draw_eq look title, rfl, rfl, rfl, rfl⟩
  have hnamed : drawing.title.isEmpty = false := by
    rw [htitle]
    cases hempty : title.isEmpty <;> simp [hempty]
  have hplain : ∀ s ∈ drawing.statements, s.Plain := by
    intro s hs
    rw [hstatements] at hs
    obtain ⟨b, _, hs⟩ := List.mem_flatMap.mp hs
    exact plain_blockStatements _ 0 look.namesOnly b s hs
  rw [← htext] at hfeatures
  have hblanked := Dot.Drawing.blanked?_text hnamed (by rw [hproperties]; decide) hplain hfeatures
  rw [hproperties, hstatements, List.flatMap_assoc, String.toList_empty,
    List.append_nil] at hblanked
  exact ⟨drawing, hdrawing, hblanked⟩

/-- Drawings of two functions of one shape are the same but for the contents of their strings: what
is left of them is one document, in which every string is closed in the line that it begins in. -/
theorem IsLoaded.blanked?_text_eq {rg rg' : RegionGraph} (h : rg.IsLoaded) (h' : rg'.IsLoaded)
    (hshape : rg.SameShape rg') (rendering rendering' : Rendering)
    (hlook : rendering'.look.onlySimple = rendering.look.onlySimple) (title title' : String) :
    ∃ drawing drawing' skeleton,
      rg.workspace.draw rg.analysis rendering.look title = .ok drawing ∧
      rg'.workspace.draw rg'.analysis rendering'.look title' = .ok drawing' ∧
      Dot.blanked? drawing.text = some skeleton ∧
      Dot.blanked? drawing'.text = some skeleton := by
  obtain ⟨graph, t, hsound, rfl⟩ := h.exists_eq_ofTree
  obtain ⟨graph', t', hsound', rfl⟩ := h'.exists_eq_ofTree
  have hagree := hshape.agree hsound hsound'
  obtain ⟨features, hfeatures⟩ :=
    closed_features ((ofTree graph t).workspace.cluster rendering.look.onlySimple 0)
  have hfeatures' := hfeatures
  rw [← hagree.cluster, ← hlook] at hfeatures'
  obtain ⟨drawing, hdrawing, hblanked⟩ := hsound.exists_blanked? rendering.look title hfeatures
  obtain ⟨drawing', hdrawing', hblanked'⟩ :=
    hsound'.exists_blanked? rendering'.look title' hfeatures'
  rw [skeletonOf_eq hagree rendering.look] at hblanked'
  exact ⟨drawing, drawing', _, hdrawing, hdrawing', hblanked, hblanked'⟩

/-- Quotation marks, backslashes and line breaks in names, instructions and titles stay inside their
strings. -/
theorem blanked?_text_eq_quoted : ∃ rg rg' drawing drawing' skeleton,
    Document.load .sexp "(function f (block a) (block b) (edge a b))" none = .ok [rg] ∧
    Document.load .sexp
      "(function \"\\\"];\" (block \"\\\\\" \"|\n\\\"\") (block b) (edge \"\\\\\" b))" none =
        .ok [rg'] ∧
    rg.workspace.draw rg.analysis {} "" = .ok drawing ∧
    rg'.workspace.draw rg'.analysis { namesOnly := true } "\\\"];\n" = .ok drawing' ∧
    Dot.blanked? drawing.text = some skeleton ∧
    Dot.blanked? drawing'.text = some skeleton := by
  obtain ⟨rg, hload, hshape⟩ := exists_eq_ok_singleton (by decide +kernel :
    (Document.load .sexp "(function f (block a) (block b) (edge a b))" none).toOption.map
      (List.map shape) = some [⟨2, [(0, 1)], [⟨some 0, [0, 1], [], false⟩]⟩])
  obtain ⟨rg', hload', hshape'⟩ := exists_eq_ok_singleton (by decide +kernel :
    (Document.load .sexp
      "(function \"\\\"];\" (block \"\\\\\" \"|\n\\\"\") (block b) (edge \"\\\\\" b))"
      none).toOption.map (List.map shape) = some [⟨2, [(0, 1)], [⟨some 0, [0, 1], [], false⟩]⟩])
  obtain ⟨drawing, drawing', skeleton, hdraw, hdraw', hblanked, hblanked'⟩ :=
    IsLoaded.blanked?_text_eq ⟨_, _, _, _, hload, List.mem_singleton_self rg⟩
      ⟨_, _, _, _, hload', List.mem_singleton_self rg'⟩ (hshape'.trans hshape.symm)
      {} { look := { namesOnly := true } } rfl "" "\\\"];\n"
  exact ⟨rg, rg', drawing, drawing', skeleton, hload, hload', hdraw, hdraw', hblanked, hblanked'⟩

end RegionGraph

end FlowRegions

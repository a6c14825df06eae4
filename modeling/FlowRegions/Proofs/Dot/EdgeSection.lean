import FlowRegions.Proofs.Dot.SameShape
import FlowRegions.Proofs.Dot.StatementLines
import Mathlib.Data.List.Perm.Basic

/-!
# The edges of a drawing

The statements about edges are written block by block, from what each block lists as its successors.
For a loaded function they are the edges of the graph, grouped by the block that they leave and in
their order within each group: none is lost, added or merged.
-/

namespace FlowRegions

namespace Workspace

variable {ws : Workspace} {a : AnalysisRef}

theorem edgeAttributes_eq_ite (source target : BlockRef) :
    ws.edgeAttributes a (.block source) (.block target) =
      if decide (ws.edgeAttributes a (.block source) (.block target) = "") then ""
      else "constraint=false" := by
  rw [edgeAttributes]
  cases ws.isBackEdge a source target <;> rfl

/-- What the statements about a block and the edges that leave it say. -/
def blockEntries (ws : Workspace) (a : AnalysisRef) (b : BlockRef) : List Dot.Entry :=
  .node b.index :: (ws.successors b).map fun target =>
    .edge b.index target.index (ws.edgeAttributes a (.block b) (.block target) = "")

theorem says_blockStatements (namesOnly : Bool) (b : BlockRef) :
    List.Forall₂ Dot.Statement.Says (ws.blockStatements a namesOnly b) (ws.blockEntries a b) := by
  refine .cons (Dot.says_node b _) ?_
  rw [List.forall₂_map_left_iff, List.forall₂_map_right_iff, List.forall₂_same]
  intro target _
  have hsays := Dot.says_edge b target
    (decide (ws.edgeAttributes a (.block b) (.block target) = ""))
  rwa [← edgeAttributes_eq_ite] at hsays

end Workspace

/-- What the statement about an edge says. -/
def RegionGraph.edgeEntry (rg : RegionGraph) (edge : Edge) : Dot.Entry :=
  .edge edge.source.index edge.target.index
    (rg.workspace.edgeAttributes rg.analysis (.block edge.source) (.block edge.target) = "")

/-- What the statements of a function say: for every block in order, that there is one, and then
what there is to say about each edge that leaves it. -/
def RegionGraph.entries (rg : RegionGraph) : List Dot.Entry :=
  (List.range rg.graph.blocks.size).flatMap fun index => .node index ::
    (rg.graph.edges.toList.filter (·.source.index = index)).map rg.edgeEntry

/-- The edges of a graph, grouped by the number of the block that they leave. -/
def Cfg.groupedEdges (graph : Cfg) : List Edge :=
  (List.range graph.blocks.size).flatMap fun index =>
    graph.edges.toList.filter (·.source.index = index)

/-- Grouping items by a number loses none whose number is small enough, and adds none. -/
theorem flatMap_filter_perm {α : Type*} (number : α → Nat) (items : List α) (count : Nat) :
    ((List.range count).flatMap fun index => items.filter (number · = index)).Perm
      (items.filter (number · < count)) := by
  induction count with
  | zero => simp
  | succ count ih =>
      have hsplit := List.filter_append_perm (number · < count)
        (items.filter (number · < count + 1))
      have hbelow : (items.filter (number · < count + 1)).filter (number · < count) =
          items.filter (number · < count) := by
        rw [List.filter_filter]
        apply List.filter_congr
        intro item _
        rw [← Bool.decide_and, decide_eq_decide]
        omega
      have hlast : (items.filter (number · < count + 1)).filter
          (fun item => !decide (number item < count)) = items.filter (number · = count) := by
        rw [List.filter_filter]
        apply List.filter_congr
        intro item _
        rw [← decide_not, ← Bool.decide_and, decide_eq_decide]
        omega
      rw [hbelow, hlast] at hsplit
      rw [List.range_succ, List.flatMap_append, List.flatMap_singleton]
      exact (ih.append_right _).trans hsplit

namespace Cfg

variable {g : GraphRef} {graph : Cfg}

theorem Consistent.groupedEdges_perm (h : graph.Consistent g) :
    graph.groupedEdges.Perm graph.edges.toList := by
  have hall : graph.edges.toList.filter (·.source.index < graph.blocks.size) =
      graph.edges.toList := by
    rw [List.filter_eq_self]
    intro edge hedge
    exact decide_eq_true (h.source_mem edge hedge).2
  have hgrouped := flatMap_filter_perm (·.source.index) graph.edges.toList graph.blocks.size
  rwa [hall] at hgrouped

theorem Consistent.filter_source_eq (h : graph.Consistent g) (index : Nat) :
    graph.edges.toList.filter (·.source = ⟨g, index⟩) =
      graph.edges.toList.filter (·.source.index = index) := by
  apply List.filter_congr
  intro edge hedge
  have hgraph := (h.source_mem edge hedge).1
  rw [decide_eq_decide]
  constructor
  · intro hsource
    rw [hsource]
  · intro hindex
    exact Workspace.BlockRef.eq_of_graph_of_index hgraph hindex

theorem map_numbers_groupedEdges (graph : Cfg) :
    graph.groupedEdges.map Edge.numbers = (List.range graph.blocks.size).flatMap fun index =>
      (graph.edges.toList.map Edge.numbers).filter (·.1 = index) := by
  rw [groupedEdges, List.map_flatMap]
  apply List.flatMap_congr
  intro index _
  rw [List.filter_map]
  rfl

end Cfg

namespace RegionGraph

variable {graph : Cfg} {t : RegionTree}

theorem IsSound.blockEntries_eq (h : IsSound graph t) (index : Nat) :
    (ofTree graph t).workspace.blockEntries 0 ⟨0, index⟩ = .node index ::
      (graph.edges.toList.filter (·.source.index = index)).map (ofTree graph t).edgeEntry := by
  rw [Workspace.blockEntries, successors_ofTree h, List.map_map, ← h.consistent.filter_source_eq]
  apply congrArg (Dot.Entry.node index :: ·)
  apply List.map_congr_left
  intro edge hedge
  have hsource := of_decide_eq_true (List.mem_filter.mp hedge).2
  rw [edgeEntry, hsource]
  rfl

theorem IsSound.edgeEntry_congr (h : IsSound graph t) {edge other : Edge}
    (hedge : edge ∈ graph.edges.toList) (hother : other ∈ graph.edges.toList)
    (hnumbers : edge.numbers = other.numbers) :
    (ofTree graph t).edgeEntry edge = (ofTree graph t).edgeEntry other := by
  obtain ⟨hsourceIndex, htargetIndex⟩ := Prod.mk.inj hnumbers
  have hsourceGraph := (h.consistent.source_mem edge hedge).1.trans
    (h.consistent.source_mem other hother).1.symm
  have htargetGraph := (h.consistent.target_mem edge hedge).1.trans
    (h.consistent.target_mem other hother).1.symm
  have hsource := Workspace.BlockRef.eq_of_graph_of_index hsourceGraph hsourceIndex
  have htarget := Workspace.BlockRef.eq_of_graph_of_index htargetGraph htargetIndex
  rw [edgeEntry, edgeEntry, hsource, htarget]

theorem entries_ofTree : (ofTree graph t).entries = (List.range graph.blocks.size).flatMap
    fun index => .node index ::
      (graph.edges.toList.filter (·.source.index = index)).map (ofTree graph t).edgeEntry := by
  rw [entries, graph_ofTree]

theorem filterMap_ends?_entries (rg : RegionGraph) :
    rg.entries.filterMap Dot.Entry.ends? = rg.graph.groupedEdges.map Edge.numbers := by
  rw [entries, Cfg.groupedEdges, List.filterMap_flatMap, List.map_flatMap]
  apply List.flatMap_congr
  intro index _
  rw [List.filterMap_cons_none rfl, List.filterMap_map]
  exact congrFun List.filterMap_eq_map _

namespace IsSound

theorem says_statements (h : IsSound graph t) (namesOnly : Bool) :
    List.Forall₂ Dot.Statement.Says
      (((ofTree graph t).workspace.blocksOf 0).flatMap
        ((ofTree graph t).workspace.blockStatements 0 namesOnly)) (ofTree graph t).entries := by
  have hentries : ((ofTree graph t).workspace.blocksOf 0).flatMap
      ((ofTree graph t).workspace.blockEntries 0) = (ofTree graph t).entries := by
    rw [blocksOf_ofTree, entries_ofTree, List.flatMap_map]
    apply List.flatMap_congr
    intro index _
    exact h.blockEntries_eq index
  rw [← hentries]
  apply List.rel_flatMap (R := Eq)
  · rw [List.forall₂_eq_eq_eq]
  · rintro b _ rfl
    exact Workspace.says_blockStatements namesOnly b

theorem countP_isNode (graph : Cfg) (t : RegionTree) (namesOnly : Bool) :
    (((ofTree graph t).workspace.blocksOf 0).flatMap
      ((ofTree graph t).workspace.blockStatements 0 namesOnly)).countP (·.isNode) =
        graph.blocks.size := by
  have hblock : ∀ b, ((ofTree graph t).workspace.blockStatements 0 namesOnly b).countP
      (·.isNode) = 1 := by
    intro b
    have hedges : (((ofTree graph t).workspace.successors b).map
        ((ofTree graph t).workspace.edgeStatement 0 b)).countP (·.isNode) = 0 := by
      rw [List.countP_map, List.countP_eq_zero]
      exact fun _ _ => Bool.false_ne_true
    rw [Workspace.blockStatements, List.countP_cons_of_pos rfl, hedges]
  rw [List.countP_flatMap, blocksOf_ofTree, List.map_map]
  simp [Function.comp_def, hblock]

theorem countP_not_isNode (h : IsSound graph t) (namesOnly : Bool) :
    (((ofTree graph t).workspace.blocksOf 0).flatMap
      ((ofTree graph t).workspace.blockStatements 0 namesOnly)).countP (!·.isNode) =
        graph.edges.size := by
  have hblock : ∀ index, ((ofTree graph t).workspace.blockStatements 0 namesOnly
      ⟨0, index⟩).countP (!·.isNode) =
        (graph.edges.toList.filter (·.source.index = index)).length := by
    intro index
    have hedges : (((ofTree graph t).workspace.successors ⟨0, index⟩).map
        ((ofTree graph t).workspace.edgeStatement 0 ⟨0, index⟩)).countP (!·.isNode) =
          ((ofTree graph t).workspace.successors ⟨0, index⟩).length := by
      rw [List.countP_map, List.countP_eq_length]
      exact fun _ _ => rfl
    rw [Workspace.blockStatements, List.countP_cons_of_neg Bool.false_ne_true, hedges,
      successors_ofTree h, List.length_map, h.consistent.filter_source_eq]
  have hlength := h.consistent.groupedEdges_perm.length_eq
  rw [Cfg.groupedEdges, List.length_flatMap, Array.length_toList] at hlength
  rw [List.countP_flatMap, blocksOf_ofTree, List.map_map, ← hlength]
  exact congrArg List.sum (List.map_congr_left fun index _ => hblock index)

end IsSound

/-- The lines of a drawing in front of its clusters read back as the blocks and edges of the
function. Taken as pairs of numbers the edges are those of the graph, grouped by source and
otherwise in their order, and edges between the same blocks are marked alike. -/
theorem IsLoaded.entries?_text {rg : RegionGraph} (h : rg.IsLoaded) (rendering : Rendering)
    (title : String) :
    ∃ drawing, rg.workspace.draw rg.analysis rendering.look title = .ok drawing ∧
      Dot.entries? drawing.text = some rg.entries ∧
      rg.entries.filterMap Dot.Entry.ends? =
        ((List.range rg.graph.blocks.size).flatMap fun index =>
          (rg.graph.edges.toList.map Edge.numbers).filter (·.1 = index)) ∧
      (rg.entries.filterMap Dot.Entry.ends?).Perm (rg.graph.edges.toList.map Edge.numbers) ∧
      drawing.nodeCount = rg.graph.blocks.size ∧
      drawing.edgeCount = rg.graph.edges.size ∧
      ∀ edge ∈ rg.graph.edges.toList, ∀ other ∈ rg.graph.edges.toList,
        edge.numbers = other.numbers → rg.edgeEntry edge = rg.edgeEntry other := by
  obtain ⟨graph, t, hsound, rfl⟩ := h.exists_eq_ofTree
  have hstatements := hsound.says_statements rendering.look.namesOnly
  refine ⟨_, hsound.draw_eq rendering.look title, ?_, ?_, ?_, ?_, ?_, ?_⟩
  · refine Dot.entries?_of_says ?_ rfl hstatements rfl
    cases hempty : title.isEmpty <;> simp [hempty]
  · rw [filterMap_ends?_entries, Cfg.map_numbers_groupedEdges]
  · rw [filterMap_ends?_entries, graph_ofTree]
    exact hsound.consistent.groupedEdges_perm.map _
  · rw [graph_ofTree]
    exact IsSound.countP_isNode graph t rendering.look.namesOnly
  · rw [graph_ofTree]
    exact hsound.countP_not_isNode rendering.look.namesOnly
  · rw [graph_ofTree]
    intro edge hedge other hother hnumbers
    exact hsound.edgeEntry_congr hedge hother hnumbers

/-- Parallel edges, an edge from a block to itself, and edges in another order than their blocks. -/
theorem entries?_text_parallel : ∃ rg drawing,
    Document.load .sexp "(function f (block a) (block \"b];\" \" -> Node7;\")
      (edge \"b];\" \"b];\") (edge a \"b];\") (edge \"b];\" a) (edge a \"b];\"))" none = .ok [rg] ∧
    rg.workspace.draw rg.analysis {} "" = .ok drawing ∧
    Dot.entries? drawing.text = some [.node 0, .edge 0 1 true, .edge 0 1 true,
      .node 1, .edge 1 1 true, .edge 1 0 false] ∧
    drawing.nodeCount = 2 ∧ drawing.edgeCount = 4 := by
  obtain ⟨rg, hload, hview⟩ := exists_eq_ok_singleton (by decide +kernel :
    (Document.load .sexp "(function f (block a) (block \"b];\" \" -> Node7;\")
      (edge \"b];\" \"b];\") (edge a \"b];\") (edge \"b];\" a) (edge a \"b];\"))"
      none).toOption.map
        (List.map fun rg => (rg.entries, rg.graph.blocks.size, rg.graph.edges.size)) =
      some [([.node 0, .edge 0 1 true, .edge 0 1 true, .node 1, .edge 1 1 true, .edge 1 0 false],
        2, 4)])
  obtain ⟨hentries, hblocks, hedges⟩ := Prod.mk.inj hview |>.imp_right Prod.mk.inj
  obtain ⟨drawing, hdraw, hread, _, _, hnodes, hcount, _⟩ :=
    IsLoaded.entries?_text ⟨_, _, _, _, hload, List.mem_singleton_self rg⟩ {} ""
  rw [hentries] at hread
  rw [hblocks] at hnodes
  rw [hedges] at hcount
  exact ⟨rg, drawing, hload, hdraw, hread, hnodes, hcount⟩

end RegionGraph

end FlowRegions

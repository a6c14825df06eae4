import FlowRegions.Proofs.Dot.BackEdges

/-!
# Edges into a header

Each edge that leads to a block is listed at the block, is drawn by one statement, and carries a
mark exactly if it comes from the outermost region that is entered there. So of the statements about
edges into such a block those without a mark are as many as the edges that enter this region, and an
edge into a block at which this region is not entered carries no mark.
-/

namespace FlowRegions

/-- Does the entry say that an edge leads to the block with this number, with a mark or without? -/
def Dot.Entry.leadsTo (index : Nat) (constraining : Bool) : Dot.Entry → Bool
  | node _ => false
  | edge _ target constrains => target = index && constrains = constraining

namespace Workspace

variable {ws : Workspace} {a : AnalysisRef} {target : BlockRef} {r : RegionRef}

/-- From the owner of the block the climb leads to the region, and no further. -/
structure IsOutermostAt (ws : Workspace) (a : AnalysisRef) (target : BlockRef) (r : RegionRef) :
    Prop where
  reached : ∃ owner, ws.regionFor a target = some owner ∧ ws.ClimbsAt target owner r
  stops : ∀ outer, ws.parent? r = some outer → ws.isEntry outer target = false

theorem enteringEdges_of_isEntry (h : ws.isEntry r target = true) :
    ws.enteringEdges r = (ws.predecessors target).countP fun source => !ws.contains r source := by
  rw [isEntry, Option.any_eq_true] at h
  obtain ⟨region, hregion, hentry⟩ := h
  rw [enteringEdges, hregion, ← of_decide_eq_true hentry]

theorem decide_edgeAttributes_eq_empty (source : BlockRef) :
    decide (ws.edgeAttributes a (.block source) (.block target) = "") =
      !ws.isBackEdge a source target := by
  cases hback : ws.isBackEdge a source target with
  | false => exact decide_eq_true (edgeAttributes_eq_empty_iff.mpr hback)
  | true =>
      rw [edgeAttributes_eq_constraint_iff.mpr hback]
      decide

end Workspace

namespace RegionGraph

variable {graph : Cfg} {t : RegionTree} {target : BlockRef}

namespace IsSound

variable (h : IsSound graph t)

include h

theorem predecessors_ofTree (htarget : target ∈ (ofTree graph t).workspace.blocksOf 0) :
    (ofTree graph t).workspace.predecessors target =
      (graph.edges.toList.filter (·.target = target)).map (·.source) := by
  rw [blocksOf_ofTree, List.mem_map] at htarget
  obtain ⟨index, hindex, rfl⟩ := htarget
  have hget := Array.getElem?_eq_getElem (List.mem_range.mp hindex)
  have hblock : (ofTree graph t).workspace.block? ⟨0, index⟩ = graph.blocks[index]? := by
    rw [Workspace.block?, graphs_ofTree]
    rfl
  rw [Workspace.predecessors, hblock, hget]
  exact h.consistent.predecessors_eq hget

theorem countP_entries {p : Dot.Entry → Bool} (hnode : ∀ index, p (.node index) = false) :
    (ofTree graph t).entries.countP p =
      graph.edges.toList.countP (p ∘ (ofTree graph t).edgeEntry) := by
  rw [entries_ofTree, ← h.consistent.groupedEdges_perm.countP_eq, Cfg.groupedEdges,
    List.countP_flatMap, List.countP_flatMap]
  apply congrArg List.sum
  apply List.map_congr_left
  intro index _
  rw [Function.comp_apply, Function.comp_apply,
    List.countP_cons_of_neg (Bool.eq_false_iff.mp (hnode index)), List.countP_map]

theorem leadsTo_edgeEntry {edge : Edge} (hedge : edge ∈ graph.edges.toList)
    (htarget : target.graph = 0) (constraining : Bool) :
    Dot.Entry.leadsTo target.index constraining ((ofTree graph t).edgeEntry edge) = true ↔
      (ofTree graph t).workspace.isBackEdge 0 edge.source target = !constraining ∧
        edge.target = target := by
  have hends : edge.target.index = target.index ↔ edge.target = target := by
    have hgraph := (h.consistent.target_mem edge hedge).1.trans htarget.symm
    exact ⟨fun hindex => Workspace.BlockRef.eq_of_graph_of_index hgraph hindex,
      fun heq => congrArg _ heq⟩
  rw [edgeEntry, Dot.Entry.leadsTo, Bool.and_eq_true, decide_eq_true_iff, decide_eq_true_iff,
    hends, and_comm]
  -- The target is the block in question on both sides, so only the mark is left to compare.
  apply and_congr_left
  rintro rfl
  rw [Workspace.decide_edgeAttributes_eq_empty, Bool.not_eq_eq_eq_not]
  rfl

/-- The statements about the edges into a block are counted over the list of the block. -/
theorem countP_leadsTo (htarget : target ∈ (ofTree graph t).workspace.blocksOf 0)
    (constraining : Bool) :
    (ofTree graph t).entries.countP (Dot.Entry.leadsTo target.index constraining) =
      ((ofTree graph t).workspace.predecessors target).countP fun source =>
        (ofTree graph t).workspace.isBackEdge 0 source target = !constraining := by
  rw [h.countP_entries fun _ => rfl, h.predecessors_ofTree htarget, List.countP_map,
    List.countP_filter]
  apply List.countP_congr
  intro edge hedge
  rw [Function.comp_apply, h.leadsTo_edgeEntry hedge (Workspace.graph_of_mem_blocksOf htarget),
    Function.comp_apply, Bool.and_eq_true, decide_eq_true_iff, decide_eq_true_iff]

/-- If the edges that lead back to a block are those from inside of a region that is entered there,
the others are the edges that enter this region. -/
theorem countP_leadsTo_of_isEntry (htarget : target ∈ (ofTree graph t).workspace.blocksOf 0)
    {r : RegionRef} (hentry : (ofTree graph t).workspace.isEntry r target = true)
    (hback : ∀ source, (ofTree graph t).workspace.isBackEdge 0 source target =
      (ofTree graph t).workspace.contains r source) :
    (ofTree graph t).entries.countP (Dot.Entry.leadsTo target.index true) =
        (ofTree graph t).workspace.enteringEdges r ∧
      (ofTree graph t).entries.countP (Dot.Entry.leadsTo target.index false) +
        (ofTree graph t).workspace.enteringEdges r =
          graph.edges.toList.countP (·.target = target) := by
  rw [Workspace.enteringEdges_of_isEntry hentry, h.countP_leadsTo htarget,
    h.countP_leadsTo htarget]
  simp only [hback, Bool.not_true, Bool.not_false]
  constructor
  · simp
  · rw [List.countP_eq_length_filter (l := graph.edges.toList), ← List.length_map Edge.source,
      ← h.predecessors_ofTree htarget,
      List.length_eq_countP_add_countP ((ofTree graph t).workspace.contains r)]
    simp

end IsSound

/-- The drawing of a loaded function has one statement for each edge into a block. If the region at
which the climb from the owner of the block ends is entered there, the statements without a mark are
as many as the edges that enter this region, and all others carry the mark. If it is entered
elsewhere, no edge into the block carries the mark. -/
theorem IsLoaded.countP_unmarked {rg : RegionGraph} (h : rg.IsLoaded) (rendering : Rendering)
    (title : String) :
    ∃ analysis drawing, rg.workspace.analyses[rg.analysis]? = some analysis ∧
      rg.workspace.blocksOf analysis.graph = (List.range rg.graph.blocks.size).map
        (⟨analysis.graph, ·⟩) ∧
      rg.workspace.draw rg.analysis rendering.look title = .ok drawing ∧
      Dot.entries? drawing.text = some rg.entries ∧
      ∀ target ∈ rg.workspace.blocksOf analysis.graph, ∃ outermost,
        rg.workspace.IsOutermostAt rg.analysis target outermost ∧
        (rg.workspace.isEntry outermost target = true →
          (∀ edge ∈ rg.graph.edges.toList, edge.target = target →
            rg.edgeEntry edge = .edge edge.source.index target.index
              (!rg.workspace.contains outermost edge.source)) ∧
          rg.entries.countP (Dot.Entry.leadsTo target.index true) =
            rg.workspace.enteringEdges outermost ∧
          rg.entries.countP (Dot.Entry.leadsTo target.index false) +
            rg.workspace.enteringEdges outermost =
              rg.graph.edges.toList.countP (·.target = target)) ∧
        (rg.workspace.isEntry outermost target = false →
          rg.entries.countP (Dot.Entry.leadsTo target.index false) = 0) := by
  obtain ⟨graph, t, hsound, rfl⟩ := h.exists_eq_ofTree
  obtain ⟨ownership, hanalysis⟩ := getElem?_analyses_ofTree graph t
  rw [graph_ofTree]
  refine ⟨_, _, hanalysis, blocksOf_ofTree graph t, hsound.draw_eq rendering.look title, ?_, ?_⟩
  · refine Dot.entries?_of_says ?_ rfl (hsound.says_statements rendering.look.namesOnly) rfl
    cases hempty : title.isEmpty <;> simp [hempty]
  intro target htarget
  obtain ⟨owner, hlt, howner⟩ := hsound.exists_owner htarget
  obtain ⟨hclimb, hstops⟩ :=
    (isTree_ofTree graph t).climbsAt_outermostAt target (mem_preorder_refs hlt)
  have hback := Workspace.isBackEdge_of_regionFor howner
  refine ⟨_, ⟨⟨owner, howner, hclimb⟩, hstops⟩, fun hentry => ?_, fun hentry => ?_⟩
  · simp only [hentry, Bool.true_and] at hback
    refine ⟨?_, hsound.countP_leadsTo_of_isEntry htarget hentry hback⟩
    rintro edge _ rfl
    rw [edgeEntry, analysis_ofTree, Workspace.decide_edgeAttributes_eq_empty, hback]
  · rw [hsound.countP_leadsTo htarget, List.countP_eq_zero]
    intro source _
    rw [hback, hentry, Bool.false_and]
    decide

/-- Of the edges into the block that two regions share as their entry, one enters the outer one; one
comes from inside of both, and two parallel ones from inside of the outer one only. -/
theorem countP_unmarked_shared : ∃ rg drawing outermost,
    Document.load .sexp "(function f (block a) (block h) (block l) (block x)
      (edge a h) (edge h l) (edge l h) (edge x h) (edge x h)
      (region :entry a (blocks a) (region :entry h (blocks x)
        (region :entry h (blocks h l)))))" none = .ok [rg] ∧
    rg.workspace.draw rg.analysis {} "" = .ok drawing ∧
    Dot.entries? drawing.text = some [.node 0, .edge 0 1 true, .node 1, .edge 1 2 true,
      .node 2, .edge 2 1 false, .node 3, .edge 3 1 false, .edge 3 1 false] ∧
    rg.workspace.IsOutermostAt rg.analysis ⟨0, 1⟩ outermost ∧
    rg.workspace.isEntry outermost ⟨0, 1⟩ = true ∧
    rg.workspace.enteringEdges outermost = 1 := by
  obtain ⟨rg, hload, hview⟩ := exists_eq_ok_singleton (by decide +kernel :
    (Document.load .sexp "(function f (block a) (block h) (block l) (block x)
      (edge a h) (edge h l) (edge l h) (edge x h) (edge x h)
      (region :entry a (blocks a) (region :entry h (blocks x)
        (region :entry h (blocks h l)))))" none).toOption.map (List.map fun rg =>
          (rg.workspace.analyses[rg.analysis]?.map (·.graph), rg.graph.blocks.size, rg.entries)) =
      some [(some 0, 4, [.node 0, .edge 0 1 true, .node 1, .edge 1 2 true,
        .node 2, .edge 2 1 false, .node 3, .edge 3 1 false, .edge 3 1 false])])
  simp only [Prod.mk.injEq] at hview
  obtain ⟨hgraph, hsize, hentries⟩ := hview
  obtain ⟨analysis, drawing, hanalysis, hblocks, hdraw, hread, hcounts⟩ :=
    IsLoaded.countP_unmarked ⟨_, _, _, _, hload, List.mem_singleton_self rg⟩ {} ""
  have hzero : analysis.graph = 0 := by simpa [hanalysis] using hgraph
  rw [hzero, hsize] at hblocks
  rw [hzero, hblocks] at hcounts
  obtain ⟨outermost, houtermost, hentered, helsewhere⟩ := hcounts ⟨0, 1⟩ (by decide)
  rw [hentries] at hread hentered helsewhere
  -- Three edges into the block are marked, so the region is entered there.
  have hentry : rg.workspace.isEntry outermost ⟨0, 1⟩ = true := by
    by_contra hnot
    exact absurd (helsewhere (Bool.eq_false_iff.mpr hnot)) (by decide)
  obtain ⟨_, hunmarked, _⟩ := hentered hentry
  exact ⟨rg, drawing, outermost, hload, hdraw, hread, houtermost, hentry, hunmarked.symm⟩

end RegionGraph

end FlowRegions

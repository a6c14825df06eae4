import FlowRegions.Proofs.Dot.EdgeSection
import FlowRegions.Proofs.Region.EnteredChain
import FlowRegions.Proofs.Region.Laminar

/-!
# Edges that lead back

An edge of a loaded function leads back into a region if the region is entered at its target,
contains its source, and is reached from the owner of the target through regions that are entered
there as well. If it leads back into any region then also into the outermost one of these, and that
is the one the classification asks. So of the edges into a header those without a mark are the edges
that enter this region.
-/

namespace FlowRegions

namespace Workspace

variable {ws : Workspace} {a : AnalysisRef} {source target : BlockRef} {r : RegionRef}

/-- The edge leads back into the region. From the owner of its target the region is reached through
regions that are entered at the target; it is entered there itself; and it or a region below it owns
the source. -/
structure LeadsBackInto (ws : Workspace) (a : AnalysisRef) (source target : BlockRef)
    (r : RegionRef) : Prop where
  reached : ∃ owner, ws.regionFor a target = some owner ∧ ws.ClimbsAt target owner r
  entered : ws.isEntry r target = true
  source_mem : source ∈ ws.ownedBelow r

theorem edgeAttributes_eq_constraint_iff :
    ws.edgeAttributes a (.block source) (.block target) = "constraint=false" ↔
      ws.isBackEdge a source target = true := by
  rw [edgeAttributes]
  cases ws.isBackEdge a source target <;> decide

theorem edgeAttributes_eq_empty_iff :
    ws.edgeAttributes a (.block source) (.block target) = "" ↔
      ws.isBackEdge a source target = false := by
  rw [edgeAttributes]
  cases ws.isBackEdge a source target <;> decide

end Workspace

namespace RegionGraph

variable {graph : Cfg} {t : RegionTree} {source target : BlockRef} {r owner : RegionRef}

namespace IsSound

variable (h : IsSound graph t)

include h

/-- Climbing outwards loses no block. -/
theorem ownedBelow_subset_of_climbsAt (hr : r < t.size) {s : RegionRef}
    (hclimb : (ofTree graph t).workspace.ClimbsAt target r s) :
    (ofTree graph t).workspace.ownedBelow r ⊆ (ofTree graph t).workspace.ownedBelow s := by
  intro b hb
  obtain ⟨hs, hlineage⟩ :=
    (isTree_ofTree graph t).mem_lineage_of_climbsAt (mem_preorder_refs hr) hclimb
  have hgraph := graph_of_mem_ownedBelow hr hb
  rw [← h.contains_iff (lt_of_mem_preorder_refs hs) hgraph]
  apply h.contains_of_containsRegion (lt_of_mem_preorder_refs hs) hr
    (h.mem_blocksOf_of_mem_ownedBelow hr hb)
  · rwa [Workspace.containsRegion, List.contains_iff_mem]
  · rwa [h.contains_iff hr hgraph]

theorem leadsBackInto_of_climbsAt (hr : r < t.size) {s : RegionRef}
    (hback : (ofTree graph t).workspace.LeadsBackInto 0 source target r)
    (hclimb : (ofTree graph t).workspace.ClimbsAt target r s) :
    (ofTree graph t).workspace.LeadsBackInto 0 source target s where
  reached := by
    obtain ⟨owner, howner, hreached⟩ := hback.reached
    exact ⟨owner, howner, hreached.trans hclimb⟩
  entered := by
    cases hclimb with
    | refl => exact hback.entered
    | tail _ hstep => exact hstep.2
  source_mem := h.ownedBelow_subset_of_climbsAt hr hclimb hback.source_mem

/-- An edge is taken to lead back if it leads back into the region at which the climb ends. -/
theorem isBackEdge_iff_outermost
    (howner : (ofTree graph t).workspace.regionFor 0 target = some owner) (hlt : owner < t.size)
    (hsource : source.graph = 0) :
    (ofTree graph t).workspace.isBackEdge 0 source target = true ↔
      (ofTree graph t).workspace.LeadsBackInto 0 source target
        ((ofTree graph t).workspace.outermostAt target owner) := by
  have htree := isTree_ofTree graph t
  obtain ⟨hclimb, _⟩ := htree.climbsAt_outermostAt target (mem_preorder_refs hlt)
  have hmem := lt_of_mem_preorder_refs
    (htree.mem_lineage_of_climbsAt (mem_preorder_refs hlt) hclimb).1
  rw [Workspace.isBackEdge_of_regionFor howner, Bool.and_eq_true, h.contains_iff hmem hsource]
  constructor
  · rintro ⟨hentered, hmem⟩
    exact ⟨⟨owner, howner, hclimb⟩, hentered, hmem⟩
  · intro hback
    exact ⟨hback.entered, hback.source_mem⟩

theorem leadsBackInto_outermost
    (howner : (ofTree graph t).workspace.regionFor 0 target = some owner) (hlt : owner < t.size)
    (hback : (ofTree graph t).workspace.LeadsBackInto 0 source target r) :
    (ofTree graph t).workspace.LeadsBackInto 0 source target
      ((ofTree graph t).workspace.outermostAt target owner) := by
  have htree := isTree_ofTree graph t
  obtain ⟨owner', howner', hreached⟩ := hback.reached
  obtain rfl : owner = owner' := Option.some.inj (howner.symm.trans howner')
  have hr := (htree.mem_lineage_of_climbsAt (mem_preorder_refs hlt) hreached).1
  rw [← htree.outermostAt_eq_of_climbsAt (mem_preorder_refs hlt) hreached]
  exact h.leadsBackInto_of_climbsAt (lt_of_mem_preorder_refs hr) hback
    (htree.climbsAt_outermostAt target hr).1

theorem isBackEdge_iff_exists (htarget : target ∈ (ofTree graph t).workspace.blocksOf 0)
    (hsource : source.graph = 0) :
    (ofTree graph t).workspace.isBackEdge 0 source target = true ↔
      ∃ r, (ofTree graph t).workspace.LeadsBackInto 0 source target r := by
  obtain ⟨owner, hlt, howner⟩ := h.exists_owner htarget
  rw [h.isBackEdge_iff_outermost howner hlt hsource]
  exact ⟨fun hback => ⟨_, hback⟩, fun ⟨_, hback⟩ => h.leadsBackInto_outermost howner hlt hback⟩

end IsSound

/-- An edge between two blocks of a loaded function carries the mark exactly if it leads back into
some region, and otherwise nothing. It does not matter which of the regions on the climb is asked:
the climb has one end, which is reached from everywhere on the way, and an edge that leads back into
any of these regions leads back into that one. -/
theorem IsLoaded.edgeAttributes_eq_mark_iff {rg : RegionGraph} (h : rg.IsLoaded) :
    ∃ analysis, rg.workspace.analyses[rg.analysis]? = some analysis ∧
      rg.workspace.blocksOf analysis.graph = (List.range rg.graph.blocks.size).map
        (⟨analysis.graph, ·⟩) ∧
      ∀ source ∈ rg.workspace.blocksOf analysis.graph,
        ∀ target ∈ rg.workspace.blocksOf analysis.graph,
          (rg.workspace.edgeAttributes rg.analysis (.block source) (.block target) =
              "constraint=false" ↔
            ∃ r, rg.workspace.LeadsBackInto rg.analysis source target r) ∧
          (rg.workspace.edgeAttributes rg.analysis (.block source) (.block target) = "" ↔
            ¬ ∃ r, rg.workspace.LeadsBackInto rg.analysis source target r) ∧
          ∃ owner outermost, rg.workspace.regionFor rg.analysis target = some owner ∧
            rg.workspace.ClimbsAt target owner outermost ∧
            ∀ r, rg.workspace.ClimbsAt target owner r →
              rg.workspace.ClimbsAt target r outermost ∧
              (rg.workspace.LeadsBackInto rg.analysis source target r →
                rg.workspace.LeadsBackInto rg.analysis source target outermost) := by
  obtain ⟨graph, t, hsound, rfl⟩ := h.exists_eq_ofTree
  obtain ⟨ownership, hanalysis⟩ := getElem?_analyses_ofTree graph t
  refine ⟨_, hanalysis, ?_, fun source hsource target htarget => ?_⟩
  · rw [graph_ofTree]
    exact blocksOf_ofTree graph t
  have hiff := hsound.isBackEdge_iff_exists htarget (Workspace.graph_of_mem_blocksOf hsource)
  obtain ⟨owner, hlt, howner⟩ := hsound.exists_owner htarget
  have htree := isTree_ofTree graph t
  have howns := mem_preorder_refs hlt
  refine ⟨?_, ?_, owner, _, howner, (htree.climbsAt_outermostAt target howns).1, ?_⟩
  · rw [Workspace.edgeAttributes_eq_constraint_iff]
    exact hiff
  · rw [Workspace.edgeAttributes_eq_empty_iff, ← Bool.not_eq_true]
    exact not_congr hiff
  · intro r hclimb
    have hr := (htree.mem_lineage_of_climbsAt howns hclimb).1
    refine ⟨?_, fun hback => hsound.leadsBackInto_outermost howner hlt hback⟩
    rw [← htree.outermostAt_eq_of_climbsAt howns hclimb]
    exact (htree.climbsAt_outermostAt target hr).1

/-- Two regions are entered at the same block. The edge from outside the inner one leads back into
the outer one only, the edge from outside of both leads back into neither. -/
theorem edgeAttributes_eq_mark_shared : ∃ rg,
    Document.load .sexp "(function f (block a) (block h) (block l) (block x)
      (edge a h) (edge h l) (edge l h) (edge x h)
      (region :entry a (blocks a) (region :entry h (blocks x)
        (region :entry h (blocks h l)))))" none = .ok [rg] ∧
    rg.workspace.edgeAttributes rg.analysis (.block ⟨0, 3⟩) (.block ⟨0, 1⟩) = "constraint=false" ∧
    (∃ r, rg.workspace.LeadsBackInto rg.analysis ⟨0, 3⟩ ⟨0, 1⟩ r) ∧
    rg.workspace.edgeAttributes rg.analysis (.block ⟨0, 0⟩) (.block ⟨0, 1⟩) = "" ∧
    ¬ ∃ r, rg.workspace.LeadsBackInto rg.analysis ⟨0, 0⟩ ⟨0, 1⟩ r := by
  obtain ⟨rg, hload, hview⟩ := exists_eq_ok_singleton (by decide +kernel :
    (Document.load .sexp "(function f (block a) (block h) (block l) (block x)
      (edge a h) (edge h l) (edge l h) (edge x h)
      (region :entry a (blocks a) (region :entry h (blocks x)
        (region :entry h (blocks h l)))))" none).toOption.map (List.map fun rg =>
          (rg.workspace.analyses[rg.analysis]?.map (·.graph), rg.graph.blocks.size,
            rg.workspace.edgeAttributes rg.analysis (.block ⟨0, 3⟩) (.block ⟨0, 1⟩),
            rg.workspace.edgeAttributes rg.analysis (.block ⟨0, 0⟩) (.block ⟨0, 1⟩))) =
      some [(some 0, 4, "constraint=false", "")])
  simp only [Prod.mk.injEq] at hview
  obtain ⟨hgraph, hsize, hback, hforth⟩ := hview
  obtain ⟨analysis, hanalysis, hblocks, hmarks⟩ :=
    IsLoaded.edgeAttributes_eq_mark_iff ⟨_, _, _, _, hload, List.mem_singleton_self rg⟩
  have hzero : analysis.graph = 0 := by simpa [hanalysis] using hgraph
  rw [hzero, hsize] at hblocks
  rw [hzero, hblocks] at hmarks
  obtain ⟨hmark, _⟩ := hmarks ⟨0, 3⟩ (by decide) ⟨0, 1⟩ (by decide)
  obtain ⟨_, hempty, _⟩ := hmarks ⟨0, 0⟩ (by decide) ⟨0, 1⟩ (by decide)
  exact ⟨rg, hload, hback, hmark.mp hback, hforth, hempty.mp hforth⟩

end RegionGraph

end FlowRegions

import FlowRegions.Description.Draft
import FlowRegions.Proofs.Cfg.Consistent
import FlowRegions.Proofs.Description.Outcome
import FlowRegions.Proofs.Region.Building
import FlowRegions.Proofs.Region.Planted

/-!
# Well-formed drafts

A reader adds blocks and edges to a workspace that holds one graph and nothing else. The graph stays
consistent, names resolve to blocks of it, and so the finished draft has a region tree over blocks
that exist.
-/

namespace FlowRegions

/-- The workspace that holds one graph and nothing else. -/
def Workspace.ofGraph (graph : Cfg) : Workspace where
  graphs := #[graph]

@[simp] theorem Workspace.onlyGraph_ofGraph (graph : Cfg) :
    (Workspace.ofGraph graph).onlyGraph = graph := rfl

theorem Workspace.single_eq (name : String) :
    Workspace.single name = Workspace.ofGraph { name } := rfl

theorem Cfg.Consistent.lt_of_resolve {graph : Cfg} {g : GraphRef} (hgraph : graph.Consistent g)
    {role : BlockRole} {name : String} {index : Nat}
    (h : graph.resolve role name = .ok index) : index < graph.blocks.size := by
  unfold Cfg.resolve at h
  split at h
  case h_1 i hfind =>
    obtain rfl := Except.ok.inj h
    exact hgraph.lt_of_find?_eq_some hfind
  case h_2 => cases h

namespace Draft

theorem addBlock_ofGraph (graph : Cfg) (name : String) (instructions : List String) :
    addBlock (.ofGraph graph) name instructions =
      ((graph.addBlock 0 (some name) instructions).map Workspace.ofGraph).mapError
        .duplicateBlock := by
  have hgraph : (Workspace.ofGraph graph).graphs[0]? = some graph := rfl
  rw [addBlock, Workspace.addBlock_of_getElem? hgraph]
  rfl

theorem addEdge_ofGraph (graph : Cfg) (source target : Nat) :
    addEdge (.ofGraph graph) source target = .ofGraph (graph.addEdge 0 source target) := by
  simp [addEdge, Workspace.addEdge, Workspace.modifyBlock, Workspace.ofGraph, Cfg.addEdge]

/-- The workspace holds one graph, which is consistent. -/
def HoldsConsistent (ws : Workspace) : Prop :=
  ∃ graph : Cfg, ws = .ofGraph graph ∧ graph.Consistent 0

theorem holdsConsistent_single (name : String) : HoldsConsistent (.single name) :=
  ⟨_, Workspace.single_eq name, Cfg.consistent_empty 0 name⟩

theorem HoldsConsistent.onlyGraph {ws : Workspace} (h : HoldsConsistent ws) :
    ws.onlyGraph.Consistent 0 := by
  obtain ⟨graph, rfl, hgraph⟩ := h
  exact hgraph

theorem HoldsConsistent.addBlock {ws ws' : Workspace} (h : HoldsConsistent ws) {name : String}
    {instructions : List String} (hadd : Draft.addBlock ws name instructions = .ok ws') :
    HoldsConsistent ws' := by
  obtain ⟨graph, rfl, hgraph⟩ := h
  rw [addBlock_ofGraph, mapError_eq_ok_iff] at hadd
  obtain ⟨graph', hgraph', rfl⟩ := map_eq_ok_iff.mp hadd
  exact ⟨graph', rfl, hgraph.addBlock hgraph'⟩

theorem HoldsConsistent.addEdge {ws : Workspace} (h : HoldsConsistent ws) {source target : Nat}
    (hsource : source < ws.onlyGraph.blocks.size) (htarget : target < ws.onlyGraph.blocks.size) :
    HoldsConsistent (Draft.addEdge ws source target) := by
  obtain ⟨graph, rfl, hgraph⟩ := h
  exact ⟨_, addEdge_ofGraph graph source target, hgraph.addEdge hsource htarget⟩

/-- The draft holds the graph alone, which is consistent and has blocks, and its region tree
mentions blocks of that graph only. -/
structure WellFormed (d : Draft) (graph : Cfg) : Prop where
  workspace_eq : d.workspace = .ofGraph graph
  consistent : graph.Consistent 0
  size_pos : 0 < graph.blocks.size
  within : d.tree.Within graph.blocks.size

theorem within_whole {count : Nat} (h : 0 < count) : (RegionTree.whole count).Within count := by
  rw [RegionTree.whole, RegionTree.within_node]
  refine ⟨⟨h, by simp, fun index hindex => List.mem_range.mp hindex⟩, by simp⟩

theorem wellFormed_of_ofParts {ws : Workspace} {tree? : Option RegionTree} {d : Draft}
    (h : HoldsConsistent ws) (htree : ∀ t ∈ tree?, t.Within ws.onlyGraph.blocks.size)
    (hd : ofParts ws tree? = .ok d) : ∃ graph, d.WellFormed graph := by
  obtain ⟨graph, rfl, hgraph⟩ := h
  unfold ofParts at hd
  rw [Workspace.onlyGraph_ofGraph] at hd htree
  dsimp only at hd
  split at hd
  case isTrue => cases hd
  case isFalse hsize =>
    obtain rfl := Except.ok.inj hd
    have hpos : 0 < graph.blocks.size := Nat.pos_of_ne_zero hsize
    refine ⟨graph, rfl, hgraph, hpos, ?_⟩
    cases tree? with
    | none => exact within_whole hpos
    | some t => exact htree t rfl

end Draft

end FlowRegions

import FlowRegions.Dot.RegionDrawing
import FlowRegions.Proofs.Description.Outcome
import FlowRegions.Proofs.Dot.Outline

/-!
# Finished drawings

A drawing of an analysis fails only where the members of a cluster are missing. Otherwise its
statements are those about the blocks of the graph, one block after the other.
-/

namespace FlowRegions.Workspace

variable (ws : Workspace) (a : AnalysisRef)

/-- The statement about the edge between two blocks. -/
def edgeStatement (source target : BlockRef) : Dot.Statement :=
  .edge (Dot.blockNodeId source) (Dot.blockNodeId target)
    (ws.edgeAttributes a (.block source) (.block target))

/-- The statements about a block and the edges that leave it. -/
def blockStatements (namesOnly : Bool) (b : BlockRef) : List Dot.Statement :=
  .node (Dot.blockNodeId b) "" (ws.nodeLabel namesOnly (.block b)) ::
    (ws.successors b).map (ws.edgeStatement a b)

variable {ws a}

theorem nodeStatements_view (look : Look) (b : BlockRef) :
    (ws.view a look).nodeStatements (.block b) = .ok (ws.blockStatements a look.namesOnly b) := by
  have hsteps : (ws.view a look).nodeStatements (.block b) =
      (((ws.nodeSuccessors (.block b)).filter fun node => !(ws.view a look).isHidden node).mapM
        ((ws.view a look).edgeStatement (.block b))).bind fun edges =>
          .ok (.node (Dot.blockNodeId b) "" (ws.nodeLabel look.namesOnly (.block b)) :: edges) :=
    rfl
  have hvisible : ((ws.nodeSuccessors (.block b)).filter fun node =>
      !(ws.view a look).isHidden node) = (ws.successors b).map .block :=
    List.filter_eq_self.mpr fun _ _ => rfl
  have hedges : ((ws.successors b).map RegionNode.block).mapM
      ((ws.view a look).edgeStatement (.block b)) =
        .ok ((ws.successors b).map (ws.edgeStatement a b)) :=
    mapM_map_eq_ok fun _ _ => rfl
  rw [hsteps, hvisible, hedges]
  rfl

theorem statements_view {analysis : Analysis} (h : ws.analyses[a]? = some analysis) (look : Look) :
    (ws.view a look).statements =
      .ok ((ws.blocksOf analysis.graph).flatMap (ws.blockStatements a look.namesOnly)) := by
  have hsteps : (ws.view a look).statements = (ws.view a look).nodes.bind fun nodes =>
      ((nodes.filter fun node => !(ws.view a look).isHidden node).mapM
        (ws.view a look).nodeStatements).bind fun groups => .ok groups.flatten := rfl
  have hnodes : (ws.view a look).nodes = .ok ((ws.blocksOf analysis.graph).map .block) := by
    rw [view, h]
  have hvisible : (((ws.blocksOf analysis.graph).map RegionNode.block).filter fun node =>
      !(ws.view a look).isHidden node) = (ws.blocksOf analysis.graph).map .block :=
    List.filter_eq_self.mpr fun _ _ => rfl
  have hgroups : ((ws.blocksOf analysis.graph).map RegionNode.block).mapM
      (ws.view a look).nodeStatements =
        .ok ((ws.blocksOf analysis.graph).map (ws.blockStatements a look.namesOnly)) :=
    mapM_map_eq_ok fun b _ => nodeStatements_view look b
  rw [hsteps, hnodes, Except.bind, hvisible, hgroups, List.flatMap_def]
  rfl

/-- Where all clusters are complete, there is a drawing, and this is it. -/
theorem draw_eq_ok {analysis : Analysis} (h : ws.analyses[a]? = some analysis) {look : Look}
    (hcomplete : (ws.cluster look.onlySimple analysis.root).Complete) (title : String) :
    ws.draw a look title = .ok {
      title := if title.isEmpty then "Region Graph" else title
      properties := ""
      statements :=
        (ws.blocksOf analysis.graph).flatMap (ws.blockStatements a look.namesOnly)
      features := "\tcolorscheme = \"paired12\"\n" ++
        ((ws.cluster look.onlySimple analysis.root).listing 4).text } := by
  have hlisting := (Dot.Cluster.reads_listing 4 hcomplete (s := {}) rfl).1
  have hfound : ws.features a look.onlySimple = ⟨"\tcolorscheme = \"paired12\"\n" ++
      ((ws.cluster look.onlySimple analysis.root).listing 4).text, true⟩ := by
    rw [features, h]
    dsimp only
    rw [Dot.Listing.append_of_complete rfl, hlisting]
  have hfeatures : (ws.view a look).features = .ok (ws.features a look.onlySimple).text := by
    rw [view]
    exact if_pos (congrArg Dot.Listing.complete hfound)
  rw [draw, Dot.View.draw, statements_view h, hfeatures, hfound]
  rfl

end FlowRegions.Workspace

import FlowRegions.Proofs.Description.Loaded
import FlowRegions.Proofs.Dot.Statements
import FlowRegions.Rendering

/-!
# The clusters of a region tree

The clusters of a drawing are written along the children of the regions, and their members are found
through owners and parents. For a loaded function both agree with the tree: the section reads back
as one cluster per region, nested as the regions are, that lists the blocks which the region owns.
-/

namespace FlowRegions

open Dot

namespace Workspace

/-- The outline is that of a region and the regions inside it: indented by the depth that the
parents give, numbered like the region, with the clusters of its children in their order and the
blocks that it owns in the order of the graph. -/
inductive Shows (ws : Workspace) (g : GraphRef) : RegionRef → Outline → Prop
  | mk {r : RegionRef} {indent number : Nat} {inner : List Outline} {members : List Nat}
      (indent_eq : indent = 2 * (4 + ws.depth r))
      (number_eq : ws.number r = number)
      (members_eq : members = ((ws.blocksOf g).filter (· ∈ ws.owned r)).map (·.index))
      (inner_shown : List.Forall₂ (Shows ws g) (ws.children r) inner) :
      Shows ws g r (.mk indent number inner members)

variable {ws : Workspace} {g : GraphRef}

theorem flatMap_eq_of_forall₂ {α β γ : Type*} {R : α → β → Prop} {f : β → List γ}
    {f' : α → List γ} {xs : List α} {ys : List β} (h : List.Forall₂ R xs ys)
    (hf : ∀ x ∈ xs, ∀ y, R x y → f y = f' x) : ys.flatMap f = xs.flatMap f' := by
  induction h with
  | nil => rfl
  | @cons x y xs ys hxy _ ih =>
      have hrest : ys.flatMap f = xs.flatMap f' := by
        apply ih
        intro other hother
        exact hf other (List.mem_cons_of_mem x hother)
      rw [List.flatMap_cons, List.flatMap_cons, hf x List.mem_cons_self y hxy, hrest]

theorem flatMap_perm_of_forall₂ {α β γ : Type*} {R : α → β → Prop} {f : β → List γ}
    {f' : α → List γ} {xs : List α} {ys : List β} (h : List.Forall₂ R xs ys)
    (hf : ∀ x ∈ xs, ∀ y, R x y → (f y).Perm (f' x)) : (ys.flatMap f).Perm (xs.flatMap f') := by
  induction h with
  | nil => exact .refl _
  | @cons x y xs ys hxy _ ih =>
      have hrest : (ys.flatMap f).Perm (xs.flatMap f') := by
        apply ih
        intro other hother
        exact hf other (List.mem_cons_of_mem x hother)
      rw [List.flatMap_cons, List.flatMap_cons]
      exact (hf x List.mem_cons_self y hxy).append hrest

namespace Shows

theorem map_numbers {parent? : Option RegionRef} {t : RefTree} (ht : ws.Linked parent? t)
    {outline : Outline} (h : ws.Shows g t.root outline) :
    outline.numbers.map (fun n : Nat => (n : Int)) = t.preorder.map ws.number := by
  induction ht generalizing outline with
  | @node _ r children inside parent children_eq below ih =>
      cases h with
      | @mk _ indent number inner members _ number_eq _ inner_shown =>
          rw [RefTree.root_node, children_eq, List.forall₂_map_left_iff] at inner_shown
          rw [RefTree.root_node] at number_eq
          rw [Outline.numbers_mk, RefTree.preorder_node, List.map_cons, List.map_cons, number_eq,
            List.map_flatMap, List.map_flatMap]
          apply congrArg
          apply flatMap_eq_of_forall₂ inner_shown
          intro child hchild _ hshown
          exact ih child hchild hshown

theorem allMembers_perm {parent? : Option RegionRef} {t : RefTree} (ht : ws.Linked parent? t)
    {outline : Outline} (h : ws.Shows g t.root outline) :
    outline.allMembers.Perm
      (t.preorder.flatMap fun r => ((ws.blocksOf g).filter (· ∈ ws.owned r)).map (·.index)) := by
  induction ht generalizing outline with
  | @node _ r children inside parent children_eq below ih =>
      cases h with
      | @mk _ indent number inner members _ _ members_eq inner_shown =>
          rw [RefTree.root_node, children_eq, List.forall₂_map_left_iff] at inner_shown
          rw [RefTree.root_node] at members_eq
          have hinner := flatMap_perm_of_forall₂ inner_shown fun child hchild _ hshown =>
            ih child hchild hshown
          rw [← List.flatMap_assoc] at hinner
          rw [Outline.allMembers_mk, RefTree.preorder_node, List.flatMap_cons, members_eq]
          exact List.perm_append_comm.trans (hinner.append_left _)

end Shows

/-- The clusters of a tree are complete and show the tree, if the regions are numbered and their
members are the blocks that they own. -/
theorem IsTree.shows_clusterWithin {t : RefTree} (h : ws.IsTree t) (onlySimple : Bool)
    (hnumber : ∀ r ∈ t.preorder, 0 ≤ ws.number r)
    (hmembers : ∀ r ∈ t.preorder,
      ws.members? r = some (((ws.blocksOf g).filter (· ∈ ws.owned r)).map (·.index)))
    {u : RefTree} {b : List RegionRef} (hu : (b, u) ∈ t.places []) {limit : Nat}
    (hlimit : u.preorder.length ≤ limit) :
    (ws.clusterWithin onlySimple limit u.root).Complete ∧
      ws.Shows g u.root
        ((ws.clusterWithin onlySimple limit u.root).outline (4 + (b.length : Int))) := by
  induction u generalizing b limit with
  | node r children ih =>
      have hr : r ∈ t.preorder := RefTree.root_mem_of_mem_places hu
      have hdepth : ws.depth r = b.length := h.depth_eq hu
      have hchildren : ws.children r = children.map RefTree.root := h.children_eq hu
      rw [RefTree.preorder_node, List.length_cons] at hlimit
      obtain ⟨limit, rfl⟩ : ∃ k, limit = k + 1 := ⟨limit - 1, by omega⟩
      obtain ⟨n, hn⟩ := Int.eq_ofNat_of_zero_le (hnumber r hr)
      have hbelow : ∀ child ∈ children,
          (ws.clusterWithin onlySimple limit child.root).Complete ∧
            ws.Shows g child.root ((ws.clusterWithin onlySimple limit child.root).outline
              (4 + (b.length : Int) + 1)) := by
        intro child hchild
        have hlen := RefTree.length_preorder_le_of_mem hchild
        have hlimit : child.preorder.length ≤ limit := by omega
        have hshown := ih child hchild (RefTree.child_mem_places hu hchild) hlimit
        rwa [List.length_cons, Int.natCast_add, ← Int.add_assoc] at hshown
      rw [RefTree.root_node, clusterWithin, clusterAround, hmembers r hr, hn, Dot.Cluster.Complete,
        Dot.Cluster.outline, Dot.Cluster.innerOutlines_eq_map, Dot.Cluster.allComplete_iff,
        hchildren]
      refine ⟨⟨Int.natCast_nonneg n, rfl, ?_⟩, .mk ?_ hn rfl ?_⟩
      · simp only [List.map_map, List.forall_mem_map]
        intro child hchild
        exact (hbelow child hchild).1
      · rw [hdepth]
        omega
      · rw [hchildren, List.map_map, List.map_map, List.forall₂_map_left_iff,
          List.forall₂_map_right_iff, List.forall₂_same]
        intro child hchild
        exact (hbelow child hchild).2

/-- If a tree owns every block of a graph once and nothing else, then listing the blocks region by
region lists every block once. -/
theorem IsTree.members_perm {t : RefTree} (h : ws.IsTree t)
    (hperm : (ws.ownedBelow t.root).Perm (ws.blocksOf g)) :
    (t.preorder.flatMap fun r =>
      ((ws.blocksOf g).filter (· ∈ ws.owned r)).map (·.index)).Perm
        ((ws.blocksOf g).map (·.index)) := by
  have hnodup := hperm.nodup_iff.mpr nodup_map_index_blocksOf.of_map
  rw [ownedBelow, h.walk_root, List.nodup_flatMap] at hnodup
  -- The blocks listed for one region are those it owns, in the order of the graph.
  have howned : ∀ r ∈ t.preorder,
      ((ws.blocksOf g).filter (· ∈ ws.owned r)).Perm (ws.owned r) := by
    intro r hr
    rw [List.perm_ext_iff_of_nodup (nodup_map_index_blocksOf.of_map.filter _) (hnodup.1 r hr)]
    intro b
    rw [List.mem_filter, decide_eq_true_iff, and_iff_right_iff_imp]
    intro hb
    exact hperm.mem_iff.mp (mem_ownedBelow.mpr ⟨r, h.walk_root ▸ hr, hb⟩)
  rw [ownedBelow, h.walk_root] at hperm
  rw [← List.map_flatMap]
  exact ((List.Perm.flatMap_left _ howned).trans hperm).map _

end Workspace

namespace RegionGraph

variable {graph : Cfg} {t : RegionTree}

namespace IsSound

theorem members?_eq (h : IsSound graph t) {r : RegionRef} (hr : r < t.size) :
    (ofTree graph t).workspace.members? r =
      some ((((ofTree graph t).workspace.blocksOf 0).filter
        (· ∈ (ofTree graph t).workspace.owned r)).map (·.index)) := by
  rw [Workspace.members?, analysis?_ofTree hr, h.regionBlocks_eq hr]
  dsimp only
  rw [List.filter_filter]
  apply congrArg fun blocks => some (List.map _ blocks)
  apply List.filter_congr
  intro b hb
  have hfor := h.regionFor_eq_some_iff (Workspace.graph_of_mem_blocksOf hb) (r := r)
  rw [Bool.eq_iff_iff, Bool.and_eq_true, beq_iff_eq, decide_eq_true_iff, decide_eq_true_iff, hfor]
  constructor
  · rintro ⟨⟨_, howned⟩, _⟩
    exact howned
  · intro howned
    exact ⟨⟨hr, howned⟩, mem_ownedBelow_self hr howned⟩

/-- Listing the blocks region by region lists every block once. -/
theorem members_perm (h : IsSound graph t) :
    ((t.refs 0).preorder.flatMap fun r => (((ofTree graph t).workspace.blocksOf 0).filter
      (· ∈ (ofTree graph t).workspace.owned r)).map (·.index)).Perm
        (List.range graph.blocks.size) := by
  have hbelow : ((ofTree graph t).workspace.ownedBelow (t.refs 0).root).Perm
      ((ofTree graph t).workspace.blocksOf 0) := by
    rw [RegionTree.root_refs, ownedBelow_root_ofTree, blocksOf_ofTree]
    exact h.sound.perm.map _
  have hmembers := (isTree_ofTree graph t).members_perm hbelow
  rw [Workspace.map_index_blocksOf, graphs_ofTree] at hmembers
  exact hmembers

/-- The clusters of a loaded function are complete and show its region tree. -/
theorem shows_cluster (h : IsSound graph t) (onlySimple : Bool) :
    ((ofTree graph t).workspace.cluster onlySimple 0).Complete ∧
      (ofTree graph t).workspace.Shows 0 0
        (((ofTree graph t).workspace.cluster onlySimple 0).outline 4) := by
  have htree := isTree_ofTree graph t
  have hnumber : ∀ r ∈ (t.refs 0).preorder, 0 ≤ (ofTree graph t).workspace.number r := by
    intro r hr
    rw [number_ofTree (lt_of_mem_preorder_refs hr)]
    exact Int.natCast_nonneg r
  have hshows := htree.shows_clusterWithin onlySimple hnumber
    (fun r hr => h.members?_eq (lt_of_mem_preorder_refs hr)) ((t.refs 0).self_mem_places [])
    htree.length_preorder_le
  rwa [RegionTree.root_refs] at hshows

/-- Every loaded function can be drawn. -/
theorem draw_eq (h : IsSound graph t) (look : Look) (title : String) :
    (ofTree graph t).workspace.draw 0 look title = .ok {
      title := if title.isEmpty then "Region Graph" else title
      properties := ""
      statements := ((ofTree graph t).workspace.blocksOf 0).flatMap
        ((ofTree graph t).workspace.blockStatements 0 look.namesOnly)
      features := "\tcolorscheme = \"paired12\"\n" ++
        (((ofTree graph t).workspace.cluster look.onlySimple 0).listing 4).text } := by
  obtain ⟨ownership, hanalysis⟩ := getElem?_analyses_ofTree graph t
  exact Workspace.draw_eq_ok hanalysis (h.shows_cluster look.onlySimple).1 title

end IsSound

/-- The clusters in a drawing of a loaded function read back as one outline, which shows the region
tree. The numbers in it are those of the regions in order, and every block is listed once. -/
theorem IsLoaded.exists_outline {rg : RegionGraph} (h : rg.IsLoaded) (rendering : Rendering)
    (title : String) :
    ∃ drawing clusters outline analysis,
      rg.workspace.draw rg.analysis rendering.look title = .ok drawing ∧
      drawing.features = "\tcolorscheme = \"paired12\"\n" ++ clusters ∧
      Outline.read? clusters = some [outline] ∧
      rg.workspace.analyses[rg.analysis]? = some analysis ∧
      rg.workspace.Shows analysis.graph analysis.root outline ∧
      rg.regions.map rg.workspace.number = outline.numbers.map (fun n : Nat => (n : Int)) ∧
      outline.numbers = List.range rg.regions.length ∧
      outline.allMembers.Perm (List.range rg.graph.blocks.size) := by
  obtain ⟨graph, t, hsound, rfl⟩ := h.exists_eq_ofTree
  obtain ⟨ownership, hanalysis⟩ := getElem?_analyses_ofTree graph t
  obtain ⟨hcomplete, hshows⟩ := hsound.shows_cluster rendering.look.onlySimple
  have htree := isTree_ofTree graph t
  have hroot : (ofTree graph t).workspace.Shows 0 (t.refs 0).root
      (((ofTree graph t).workspace.cluster rendering.look.onlySimple 0).outline 4) := by
    rw [RegionTree.root_refs]
    exact hshows
  have hnumbers := Workspace.Shows.map_numbers htree.linked hroot
  have hregions : (t.refs 0).preorder = (ofTree graph t).regions := by
    rw [RegionTree.preorder_refs, regions_ofTree, List.range_eq_range']
  refine ⟨_, _, _, _, hsound.draw_eq rendering.look title, rfl,
    Dot.Cluster.read?_text_listing 4 hcomplete, hanalysis, hshows, ?_, ?_, ?_⟩
  · rw [← hregions]
    exact hnumbers.symm
  · have hcast : (List.range t.size).map (ofTree graph t).workspace.number =
        (List.range t.size).map (fun n : Nat => (n : Int)) := by
      apply List.map_congr_left
      intro r hr
      exact number_ofTree (List.mem_range.mp hr)
    rw [hregions, regions_ofTree, hcast] at hnumbers
    rw [regions_ofTree, List.length_range]
    exact List.map_injective_iff.mpr Int.ofNat_injective hnumbers
  · rw [graph_ofTree]
    exact (Workspace.Shows.allMembers_perm htree.linked hroot).trans hsound.members_perm

/-- One region inside another: the drawing shows both, each with its block. -/
theorem exists_outline_nested : ∃ rg drawing clusters outline,
    Document.load .sexp "(function f (block a) (block b)
      (region :entry a (blocks a) (region :entry b (blocks b))))" none = .ok [rg] ∧
    rg.workspace.draw rg.analysis {} "" = .ok drawing ∧
    drawing.features = "\tcolorscheme = \"paired12\"\n" ++ clusters ∧
    Outline.read? clusters = some [outline] ∧
    outline.numbers = List.range rg.regions.length ∧
    outline.allMembers.Perm (List.range rg.graph.blocks.size) := by
  obtain ⟨rg, hload, _⟩ := exists_eq_ok_singleton (by decide +kernel :
    (Document.load .sexp "(function f (block a) (block b)
      (region :entry a (blocks a) (region :entry b (blocks b))))" none).toOption.map
        (List.map name) = some ["f"])
  obtain ⟨drawing, clusters, outline, _, hdraw, hfeatures, hread, _, _, _, hnumbers, hmembers⟩ :=
    IsLoaded.exists_outline ⟨_, _, _, _, hload, List.mem_singleton_self rg⟩ {} ""
  exact ⟨rg, drawing, clusters, outline, hload, hdraw, hfeatures, hread, hnumbers, hmembers⟩

end RegionGraph

end FlowRegions

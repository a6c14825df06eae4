import FlowRegions.Proofs.Dot.ClusterTree

/-!
# Emphasis line by line

A document is drawn twice, once with every cluster filled and once with the simple ones filled only.
Both have the same lines, and the clusters of regions that are not simple are the only ones with a
different line for their style and their colour.
-/

namespace FlowRegions

open Text

namespace Dot

/-- The lines of a text, the rest behind the last line break included. -/
def linesOf (text : String) : List String :=
  (text.toList.splitOn '\n').map String.ofList

/-- What a line of a cluster is for. -/
inductive ClusterPart where
  | opening
  | label
  | style
  | color
  | member (index : Nat)
  | closing
deriving DecidableEq, Repr

/-- A line by its indentation and what stands behind it. -/
structure IndentedLine where
  width : Int
  content : String
deriving DecidableEq, Repr

def IndentedLine.text (l : IndentedLine) : String :=
  blanks l.width ++ l.content

end Dot

open Dot

namespace Workspace

/-! ### The lines of a cluster -/

def styleOf (ws : Workspace) (onlySimple : Bool) (r : RegionRef) : ClusterStyle :=
  clusterStyle (ws.depth r) (ws.isSimple r) onlySimple

/-- The line for a part of the cluster of a region. -/
def partLine (ws : Workspace) (onlySimple : Bool) : RegionRef × ClusterPart → IndentedLine
  | (r, .opening) =>
    ⟨2 * (4 + ws.depth r), "subgraph cluster_" ++ toString (ws.number r) ++ " \x7b"⟩
  | (r, .label) => ⟨2 * (4 + ws.depth r + 1), "label = \"\";"⟩
  | (r, .style) =>
    ⟨2 * (4 + ws.depth r + 1), s!"style = {(ws.styleOf onlySimple r).paint.name};"⟩
  | (r, .color) => ⟨2 * (4 + ws.depth r + 1), s!"color = {(ws.styleOf onlySimple r).color}"⟩
  | (r, .member index) => ⟨2 * (4 + ws.depth r + 1), s!"Node{index};"⟩
  | (r, .closing) => ⟨2 * (4 + ws.depth r), "\x7d"⟩

def partText (ws : Workspace) (onlySimple : Bool) (place : RegionRef × ClusterPart) : String :=
  (ws.partLine onlySimple place).text

/-- The parts of the cluster of a region around those of the clusters inside it. -/
def partsAround (ws : Workspace) (r : RegionRef) (inner : List (RegionRef × ClusterPart)) :
    List (RegionRef × ClusterPart) :=
  [(r, .opening), (r, .label), (r, .style), (r, .color)] ++ inner ++
    ((ws.members? r).getD []).map (r, .member ·) ++ [(r, .closing)]

/-- The parts of the clusters of a region and its descendants to a depth of at most `limit` below
it. -/
def partsWithin (ws : Workspace) : Nat → RegionRef → List (RegionRef × ClusterPart)
  | 0, r => ws.partsAround r []
  | limit + 1, r => ws.partsAround r ((ws.children r).flatMap (partsWithin ws limit))

/-- The parts of the clusters of a region and its descendants. -/
def clusterParts (ws : Workspace) (r : RegionRef) : List (RegionRef × ClusterPart) :=
  ws.partsWithin ws.regions.size r

end Workspace

/-! ### Listings by lines -/

namespace Dot

namespace Listing

def ofLines (lines : List String) : Listing :=
  ⟨String.join (lines.map (· ++ "\n")), true⟩

theorem ofLines_append (xs ys : List String) : ofLines xs ++ ofLines ys = ofLines (xs ++ ys) := by
  rw [append_of_complete rfl, ofLines, ofLines, ofLines, List.map_append, String.join_append]

end Listing

namespace Cluster

theorem line_eq_ofLines (width : Int) (content : String) :
    line width content = .ofLines [blanks width ++ content] := by
  simp [line, Listing.ofLines]

theorem memberLines_eq_ofLines (width : Int) (members : List Nat) :
    memberLines width (some members) =
      .ofLines (members.map fun index => blanks width ++ s!"Node{index};") := by
  induction members with
  | nil => rfl
  | cons index members ih =>
      have hcons : memberLines width (some (index :: members)) =
          line width s!"Node{index};" ++ memberLines width (some members) := rfl
      rw [hcons, ih, line_eq_ofLines, Listing.ofLines_append]
      rfl

theorem innerListing_map {α : Type} (depth : Int) {xs : List α} {cluster : α → Cluster}
    {lines : α → List String} (h : ∀ x ∈ xs, (cluster x).listing depth = .ofLines (lines x)) :
    innerListing depth (xs.map cluster) = .ofLines (xs.flatMap lines) := by
  induction xs with
  | nil => rfl
  | cons x xs ih =>
      rw [List.forall_mem_cons] at h
      rw [List.map_cons, innerListing, h.1, ih h.2, Listing.ofLines_append, List.flatMap_cons]

end Cluster

/-! ### Lines of a text -/

theorem linesOf_append_line (before after : String) :
    linesOf (before ++ "\n" ++ after) = linesOf before ++ linesOf after := by
  have htext : (before ++ "\n" ++ after).toList = before.toList ++ '\n' :: after.toList := by
    simp
  rw [linesOf, htext, List.splitOn_append_cons_self, List.map_append, linesOf, linesOf]

theorem linesOf_of_not_mem {line : String} (h : '\n' ∉ line.toList) : linesOf line = [line] := by
  rw [linesOf, List.splitOn_eq_singleton h, List.map_singleton, String.ofList_toList]

theorem linesOf_ofLines_append {lines : List String} (h : ∀ line ∈ lines, '\n' ∉ line.toList)
    (after : String) :
    linesOf ((Listing.ofLines lines).text ++ after) = lines ++ linesOf after := by
  induction lines with
  | nil => simp [Listing.ofLines]
  | cons line lines ih =>
      rw [List.forall_mem_cons] at h
      have htext : (Listing.ofLines (line :: lines)).text ++ after =
          line ++ "\n" ++ ((Listing.ofLines lines).text ++ after) := by
        simp [Listing.ofLines, String.append_assoc]
      rw [htext, linesOf_append_line, linesOf_of_not_mem h.1, ih h.2]
      rfl

/-- The lines of a drawing up to its last features, those of these features, and the last ones. -/
theorem Drawing.linesOf_text (d : Drawing) {front : String} {lines : List String}
    (hfeatures : d.features = front ++ "\n" ++ (Listing.ofLines lines).text)
    (hlines : ∀ line ∈ lines, '\n' ∉ line.toList) :
    linesOf d.text =
      linesOf (d.headerText ++ String.join (d.statements.map Statement.text) ++ front) ++ lines ++
        ["\x7d", ""] := by
  have htext : d.text = d.headerText ++ String.join (d.statements.map Statement.text) ++ front ++
      "\n" ++ ((Listing.ofLines lines).text ++ "\x7d\n") := by
    rw [Drawing.text, hfeatures]
    simp only [String.append_assoc]
  rw [htext, linesOf_append_line, linesOf_ofLines_append hlines, List.append_assoc]
  rfl

end Dot

namespace Workspace

variable {ws : Workspace}

theorem newline_not_mem_partText (onlySimple : Bool) (place : RegionRef × ClusterPart) :
    '\n' ∉ (ws.partText onlySimple place).toList := by
  obtain ⟨r, part⟩ := place
  have hcontent : '\n' ∉ (ws.partLine onlySimple (r, part)).content.toList := by
    cases part with
    | opening =>
        rw [partLine, String.toList_append, String.toList_append, List.mem_append,
          List.mem_append, not_or, not_or]
        exact ⟨⟨by decide, not_mem_toString_int (by decide) (by decide) _⟩, by decide⟩
    | label => simp [partLine]
    | style =>
        have hpaint : ∀ paint : Paint, '\n' ∉ (s!"style = {paint.name};").toList := by
          intro paint
          cases paint <;> decide
        exact hpaint _
    | color =>
        have htext : (ws.partLine onlySimple (r, .color)).content.toList = "color = ".toList ++
            (toString (ws.styleOf onlySimple r).color).toList := String.toList_append
        rw [htext, List.mem_append, not_or]
        exact ⟨by decide, not_mem_toString_int (by decide) (by decide) _⟩
    | member index =>
        have htext : (ws.partLine onlySimple (r, .member index)).content.toList =
            ("Node".toList ++ (toString index).toList) ++ ";".toList := by
          rw [← String.toList_append, ← String.toList_append]
          rfl
        rw [htext, List.mem_append, List.mem_append, not_or, not_or]
        exact ⟨⟨by decide, not_mem_toString_nat (by decide) index⟩, by decide⟩
    | closing => simp [partLine]
  rw [partText, IndentedLine.text, String.toList_append, List.mem_append, not_or]
  exact ⟨by simp [blanks], hcontent⟩

/-- The lines of a cluster are those of its parts. -/
theorem listing_clusterAround (onlySimple : Bool) {r : RegionRef} {inner : List Cluster}
    {places : List (RegionRef × ClusterPart)} (hmembers : (ws.members? r).isSome)
    (hinner : Cluster.innerListing (4 + (ws.depth r : Int) + 1) inner =
      .ofLines (places.map (ws.partText onlySimple))) :
    (ws.clusterAround onlySimple r inner).listing (4 + (ws.depth r : Int)) =
      .ofLines ((ws.partsAround r places).map (ws.partText onlySimple)) := by
  obtain ⟨members, hmembers⟩ := Option.isSome_iff_exists.mp hmembers
  rw [clusterAround, Cluster.listing, hinner, hmembers, Cluster.memberLines_eq_ofLines,
    Cluster.line_eq_ofLines, Cluster.line_eq_ofLines, Cluster.line_eq_ofLines,
    Cluster.line_eq_ofLines, Cluster.line_eq_ofLines, Listing.ofLines_append,
    Listing.ofLines_append, Listing.ofLines_append, Listing.ofLines_append,
    Listing.ofLines_append, Listing.ofLines_append, partsAround, hmembers, List.map_append,
    List.map_append, List.map_append, List.map_map]
  rfl

theorem IsTree.listing_clusterWithin {t : RefTree} (h : ws.IsTree t) (onlySimple : Bool)
    (hmembers : ∀ r ∈ t.preorder, (ws.members? r).isSome) (limit : Nat) {r : RegionRef}
    (hr : r ∈ t.preorder) :
    (ws.clusterWithin onlySimple limit r).listing (4 + (ws.depth r : Int)) =
      .ofLines ((ws.partsWithin limit r).map (ws.partText onlySimple)) := by
  induction limit generalizing r with
  | zero => exact listing_clusterAround onlySimple (hmembers r hr) rfl
  | succ limit ih =>
      rw [clusterWithin, partsWithin]
      apply listing_clusterAround onlySimple (hmembers r hr)
      rw [List.map_flatMap]
      apply Cluster.innerListing_map
      intro child hchild
      have hdepth : (ws.depth child : Int) = ws.depth r + 1 := by
        exact_mod_cast h.depth_child hr hchild
      rw [Int.add_assoc, ← hdepth]
      exact ih (h.mem_of_mem_children hr hchild)

/-- Every cluster has one line for its style and one for its colour. -/
theorem map_fst_filter_partsWithin {part : ClusterPart} (h : part = .style ∨ part = .color)
    (limit : Nat) (r : RegionRef) :
    ((ws.partsWithin limit r).filter (·.2 = part)).map (·.1) = ws.walkWithin (limit + 1) r := by
  have haround : ∀ (r : RegionRef) (places : List (RegionRef × ClusterPart)),
      ((ws.partsAround r places).filter (·.2 = part)).map (·.1) =
        r :: (places.filter (·.2 = part)).map (·.1) := by
    intro r places
    rcases h with rfl | rfl <;> simp [partsAround, List.filter_map, Function.comp_def]
  induction limit generalizing r with
  | zero =>
      rw [partsWithin, haround, walkWithin]
      simp [walkWithin]
  | succ limit ih =>
      rw [partsWithin, haround, walkWithin, List.filter_flatMap, List.map_flatMap]
      apply congrArg (r :: ·)
      apply List.flatMap_congr
      intro child _
      exact ih child

/-! ### Styles -/

theorem partText_eq_or (place : RegionRef × ClusterPart) :
    ws.partText true place = ws.partText false place ∨
      ws.isSimple place.1 = false ∧ (place.2 = .style ∨ place.2 = .color) := by
  obtain ⟨r, part⟩ := place
  cases hsimple : ws.isSimple r with
  | true =>
      have hstyle : ws.styleOf true r = ws.styleOf false r := by
        rw [styleOf, styleOf, hsimple]
        rfl
      cases part <;> simp [partText, partLine, hstyle]
  | false => cases part <;> simp [partText, partLine]

theorem partText_style (onlySimple : Bool) (r : RegionRef) :
    ws.partText onlySimple (r, .style) = blanks (2 * (4 + ws.depth r + 1)) ++
      s!"style = {(ws.styleOf onlySimple r).paint.name};" := rfl

theorem partText_color (onlySimple : Bool) (r : RegionRef) :
    ws.partText onlySimple (r, .color) = blanks (2 * (4 + ws.depth r + 1)) ++
      s!"color = {(ws.styleOf onlySimple r).color}" := rfl

theorem styleOf_of_not_isSimple {r : RegionRef} (h : ws.isSimple r = false) :
    ∃ k, ws.styleOf false r = ⟨.filled, k⟩ ∧ ws.styleOf true r = ⟨.solid, k + 1⟩ := by
  refine ⟨_, rfl, ?_⟩
  rw [styleOf, h, Int.add_assoc]
  rfl

end Workspace

namespace Dot

theorem color_clusterStyle_bounds (depth : Int) (simple onlySimple : Bool) :
    1 ≤ (clusterStyle depth simple onlySimple).color ∧
      (clusterStyle depth simple onlySimple).color ≤ 12 := by
  rw [clusterStyle, paletteSize]
  split <;> dsimp only <;> omega

/-- The pairs of colours repeat after six levels. -/
theorem color_clusterStyle_ne {depth depth' : Int} (hlt : depth' < depth)
    (hle : depth ≤ depth' + 5) (simple simple' onlySimple : Bool) :
    (clusterStyle depth' simple' onlySimple).color ≠
      (clusterStyle depth simple onlySimple).color := by
  rw [clusterStyle, clusterStyle, paletteSize]
  split <;> split <;> dsimp only <;> omega

end Dot

namespace RegionGraph

variable {graph : Cfg} {t : RegionTree}

theorem map_fst_filter_clusterParts {part : ClusterPart}
    (hpart : part = .style ∨ part = .color) :
    (((ofTree graph t).workspace.clusterParts 0).filter (·.2 = part)).map (·.1) =
      (ofTree graph t).regions := by
  have htree := isTree_ofTree graph t
  have hwalk := htree.linked.walkWithin_eq (Nat.le_succ_of_le htree.length_preorder_le)
  rw [RegionTree.root_refs, RegionTree.preorder_refs] at hwalk
  rw [Workspace.clusterParts, Workspace.map_fst_filter_partsWithin hpart, hwalk, regions_ofTree,
    List.range_eq_range']

namespace IsSound

theorem listing_cluster (h : IsSound graph t) (onlySimple : Bool) :
    ((ofTree graph t).workspace.cluster onlySimple 0).listing 4 =
      .ofLines (((ofTree graph t).workspace.clusterParts 0).map
        ((ofTree graph t).workspace.partText onlySimple)) := by
  have htree := isTree_ofTree graph t
  have hroot : 0 ∈ (t.refs 0).preorder := by
    have hmem := (t.refs 0).root_mem_preorder
    rwa [RegionTree.root_refs] at hmem
  have hdepth : (ofTree graph t).workspace.depth 0 = 0 := by
    have hplace := htree.depth_eq ((t.refs 0).self_mem_places [])
    rwa [RegionTree.root_refs] at hplace
  have hmembers : ∀ r ∈ (t.refs 0).preorder, ((ofTree graph t).workspace.members? r).isSome := by
    intro r hr
    rw [h.members?_eq (lt_of_mem_preorder_refs hr)]
    rfl
  have hlisting := htree.listing_clusterWithin onlySimple hmembers
    (ofTree graph t).workspace.regions.size hroot
  rwa [hdepth] at hlisting

/-- A document has the lines of its clusters between others that do not depend on what is
emphasised. -/
theorem exists_linesOf_text (h : IsSound graph t) (look : Look) (title : String) :
    ∃ before, ∀ onlySimple, ∃ drawing,
      (ofTree graph t).workspace.draw 0 { look with onlySimple } title = .ok drawing ∧
      linesOf drawing.text = before ++ ((ofTree graph t).workspace.clusterParts 0).map
        ((ofTree graph t).workspace.partText onlySimple) ++ ["\x7d", ""] := by
  let bare : Drawing := {
    title := if title.isEmpty then "Region Graph" else title
    properties := ""
    statements := ((ofTree graph t).workspace.blocksOf 0).flatMap
      ((ofTree graph t).workspace.blockStatements 0 look.namesOnly)
    features := "" }
  refine ⟨linesOf (bare.headerText ++ String.join (bare.statements.map Statement.text) ++
    "\tcolorscheme = \"paired12\""), fun onlySimple => ⟨_, h.draw_eq _ title, ?_⟩⟩
  rw [h.listing_cluster]
  refine Drawing.linesOf_text { bare with features := _ } rfl ?_
  rw [List.forall_mem_map]
  intro place _
  exact Workspace.newline_not_mem_partText onlySimple place

end IsSound

/-- Emphasis leaves the number of lines and every line except the two for the style and the colour of
each cluster whose region is not simple. With it and without it the colours are those of the palette,
and a cluster differs in colour from the five nearest clusters around it. -/
theorem IsLoaded.exists_emphasis {rg : RegionGraph} (h : rg.IsLoaded) (rendering : Rendering)
    (title : String) :
    ∃ (plain emphasised : Drawing) (before : List String)
      (parts : List (RegionRef × ClusterPart)),
      rg.workspace.draw rg.analysis { rendering.look with onlySimple := false } title = .ok plain ∧
      rg.workspace.draw rg.analysis { rendering.look with onlySimple := true } title =
        .ok emphasised ∧
      linesOf plain.text = before ++ parts.map (rg.workspace.partText false) ++ ["\x7d", ""] ∧
      linesOf emphasised.text = before ++ parts.map (rg.workspace.partText true) ++ ["\x7d", ""] ∧
      (linesOf emphasised.text).length = (linesOf plain.text).length ∧
      (parts.filter (·.2 = .style)).map (·.1) = rg.regions ∧
      (parts.filter (·.2 = .color)).map (·.1) = rg.regions ∧
      (∀ place ∈ parts, rg.workspace.partText true place = rg.workspace.partText false place ∨
        rg.workspace.isSimple place.1 = false ∧ (place.2 = .style ∨ place.2 = .color)) ∧
      (∀ r ∈ rg.regions, rg.workspace.isSimple r = false → ∃ width k : Int,
        rg.workspace.partText false (r, .style) = blanks width ++ "style = filled;" ∧
        rg.workspace.partText true (r, .style) = blanks width ++ "style = solid;" ∧
        rg.workspace.partText false (r, .color) = blanks width ++ s!"color = {k}" ∧
        rg.workspace.partText true (r, .color) = blanks width ++ s!"color = {k + 1}") ∧
      ∀ onlySimple, ∀ r ∈ rg.regions, ∃ width,
        rg.workspace.partText onlySimple (r, .color) =
          blanks width ++ s!"color = {(rg.workspace.styleOf onlySimple r).color}" ∧
        1 ≤ (rg.workspace.styleOf onlySimple r).color ∧
        (rg.workspace.styleOf onlySimple r).color ≤ 12 ∧
        ∀ s ∈ ((rg.workspace.lineage r).drop 1).take 5,
          s ∈ rg.regions ∧ r ∈ rg.workspace.walk s ∧
          (rg.workspace.styleOf onlySimple s).color ≠
            (rg.workspace.styleOf onlySimple r).color := by
  obtain ⟨graph, t, hsound, rfl⟩ := h.exists_eq_ofTree
  obtain ⟨before, hbefore⟩ := hsound.exists_linesOf_text rendering.look title
  obtain ⟨plain, hplain, hlines⟩ := hbefore false
  obtain ⟨emphasised, hemphasised, hlines'⟩ := hbefore true
  refine ⟨plain, emphasised, before, (ofTree graph t).workspace.clusterParts 0, hplain,
    hemphasised, hlines, hlines', ?_, map_fst_filter_clusterParts (Or.inl rfl),
    map_fst_filter_clusterParts (Or.inr rfl), fun place _ => Workspace.partText_eq_or place, ?_, ?_⟩
  · rw [hlines, hlines']
    simp only [List.length_append, List.length_map]
  · intro r _ hsimple
    obtain ⟨k, hfilled, hsolid⟩ := Workspace.styleOf_of_not_isSimple hsimple
    refine ⟨2 * (4 + ((ofTree graph t).workspace.depth r : Int) + 1), k, ?_⟩
    rw [Workspace.partText_style, Workspace.partText_style, Workspace.partText_color,
      Workspace.partText_color, hfilled, hsolid]
    exact ⟨rfl, rfl, rfl, rfl⟩
  · intro onlySimple r hr
    have hbounds := color_clusterStyle_bounds ((ofTree graph t).workspace.depth r)
      ((ofTree graph t).workspace.isSimple r) onlySimple
    refine ⟨_, Workspace.partText_color onlySimple r, hbounds.1, hbounds.2, ?_⟩
    intro s hs
    rw [regions_ofTree, List.mem_range] at hr ⊢
    have htree := isTree_ofTree graph t
    have hlineage := List.drop_subset 1 _ (List.take_subset 5 _ hs)
    have houter := htree.mem_of_mem_lineage (mem_preorder_refs hr) hlineage
    refine ⟨lt_of_mem_preorder_refs houter, ?_, ?_⟩
    · rw [← htree.containsRegion_iff houter (mem_preorder_refs hr), Workspace.containsRegion,
        List.contains_iff_mem]
      exact hlineage
    · have hdepth := htree.depth_of_mem_take_lineage (mem_preorder_refs hr) hs
      exact color_clusterStyle_ne (by omega) (by omega) _ _ _

/-- A simple region inside one that is not. -/
theorem exists_emphasis_nested : ∃ (rg : RegionGraph) (plain emphasised : Drawing)
    (before : List String) (parts : List (RegionRef × ClusterPart)),
    Document.load .sexp "(function f (block a) (block b)
      (region :entry a (blocks a) (region :entry b :simple true (blocks b))))" none = .ok [rg] ∧
    rg.regions.map rg.workspace.isSimple = [false, true] ∧
    rg.workspace.draw rg.analysis {} "" = .ok plain ∧
    rg.workspace.draw rg.analysis { onlySimple := true } "" = .ok emphasised ∧
    linesOf plain.text = before ++ parts.map (rg.workspace.partText false) ++ ["\x7d", ""] ∧
    linesOf emphasised.text = before ++ parts.map (rg.workspace.partText true) ++ ["\x7d", ""] := by
  obtain ⟨rg, hload, hsimple⟩ := exists_eq_ok_singleton (by decide +kernel :
    (Document.load .sexp "(function f (block a) (block b)
      (region :entry a (blocks a) (region :entry b :simple true (blocks b))))" none).toOption.map
          (List.map fun rg => rg.regions.map rg.workspace.isSimple) = some [[false, true]])
  obtain ⟨plain, emphasised, before, parts, hplain, hemphasised, hlines, hlines', _⟩ :=
    IsLoaded.exists_emphasis ⟨_, _, _, _, hload, List.mem_singleton_self rg⟩ {} ""
  exact ⟨rg, plain, emphasised, before, parts, hload, hsimple, hplain, hemphasised, hlines, hlines'⟩

end RegionGraph

end FlowRegions

import FlowRegions.Proofs.Dot.AcceptedTree
import FlowRegions.Proofs.Dot.Statements
import FlowRegions.Proofs.Region.Editing

/-!
# What an analysis does to earlier ones

An analysis numbers the regions of its tree before it is judged, and a refusal takes nothing of that
back. An earlier analysis of the same tree or of a tree apart from it is left as it was: its regions
keep their numbers and the blocks that they contain, and its drawings stay the same. An analysis of
a tree around it or inside it shows.
-/

namespace FlowRegions.Workspace

variable {ws ws' : Workspace} {g : GraphRef} {top r : RegionRef}

/-! ### What depends on where a region looks its blocks up -/

section

variable (hr : (ws.index g top).owners? r = ws.owners? r)

include hr

theorem regionBlocks_index : (ws.index g top).regionBlocks r = ws.regionBlocks r := by
  rw [regionBlocks, regionBlocks, getElem?_index,
    funext (contains_index_of_owners? hr)]
  cases ws.regions[r]? <;> rfl

theorem isSimple_index : (ws.index g top).isSimple r = ws.isSimple r := by
  have hcontains := funext (contains_index_of_owners? hr)
  have hentering : (ws.index g top).enteringEdges r = ws.enteringEdges r := by
    rw [enteringEdges, enteringEdges, getElem?_index, hcontains]
    cases ws.regions[r]? <;> rfl
  have hexiting : (ws.index g top).exitingEdges r = ws.exitingEdges r := by
    rw [exitingEdges, exitingEdges, getElem?_index, hcontains]
    cases ws.regions[r]? <;> rfl
  rw [isSimple, isSimple, hentering, hexiting, getElem?_index]
  cases ws.regions[r]? <;> rfl

theorem members?_index_of_owners? : (ws.index g top).members? r = ws.members? r := by
  have hread : ∀ ws : Workspace, ws.members? r = (ws.owners? r).elim
      (if (ws.regionBlocks r).isEmpty then some [] else none)
      fun owner? => some (((ws.regionBlocks r).filter (owner? · == some r)).map (·.index)) := by
    intro ws
    rw [members?, owners?, latest?]
    cases ws.regions[r]?.bind (·.analysis?) <;> rfl
  rw [hread, hread, hr, regionBlocks_index hr]

theorem clusterAround_index (hnumber : (ws.index g top).number r = ws.number r)
    (onlySimple : Bool) (inner : List Dot.Cluster) :
    (ws.index g top).clusterAround onlySimple r inner = ws.clusterAround onlySimple r inner := by
  rw [clusterAround, clusterAround, hnumber, depth_index, isSimple_index hr,
    members?_index_of_owners? hr]

end

theorem clusterWithin_index {root : RegionRef} (h : ws.WalksFrom root)
    (howners : ∀ r ∈ ws.walk root, (ws.index g top).owners? r = ws.owners? r)
    (hnumber : ∀ r ∈ ws.walk root, (ws.index g top).number r = ws.number r) (onlySimple : Bool)
    (limit : Nat) {r : RegionRef} (hr : ws.Reaches root r) :
    (ws.index g top).clusterWithin onlySimple limit r = ws.clusterWithin onlySimple limit r := by
  have haround : ∀ {r : RegionRef}, ws.Reaches root r → ∀ inner,
      (ws.index g top).clusterAround onlySimple r inner = ws.clusterAround onlySimple r inner := by
    intro r hr inner
    have hmem := (h.mem_walk_iff .refl).mpr hr
    exact clusterAround_index (howners r hmem) (hnumber r hmem) onlySimple inner
  induction limit generalizing r with
  | zero => rw [clusterWithin, clusterWithin, haround hr]
  | succ limit ih =>
      rw [clusterWithin, clusterWithin, haround hr, children_index]
      apply congrArg
      apply List.map_congr_left
      intro child hchild
      exact ih (hr.tail hchild)

/-! ### Drawings -/

section

variable {a : AnalysisRef} {analysis : Analysis} (h : ws.Built)
  (ha : ws.analyses[a]? = some analysis) (hroot : analysis.root < ws.regions.size)
  (howners : ∀ inner ∈ ws.walk analysis.root, ∀ r ∈ ws.lineage inner,
    (ws.index g top).owners? r = ws.owners? r)

include ha in
theorem regionFor_index_of_recorded : (ws.index g top).regionFor a = ws.regionFor a := by
  funext b
  rw [regionFor_eq_lookup ha, regionFor_eq_lookup ((grows_index g top).recorded a analysis ha)]

include h ha hroot howners

/-- The regions that decide about an edge that leads back are around the owner of its target. -/
theorem isBackEdge_index (source target : BlockRef) :
    (ws.index g top).isBackEdge a source target = ws.isBackEdge a source target := by
  rw [isBackEdge, isBackEdge, regionFor_index_of_recorded ha]
  cases hfor : ws.regionFor a target with
  | none => rfl
  | some innermost =>
      have hmem := h.mem_walk_of_regionFor ha hroot hfor
      have hself := h.isForest.mem_lineage_of_climbs (h.isForest.lt_of_mem_walk hroot hmem) .refl
      have houtermost : (((ws.lineage innermost).drop 1).takeWhile
          (ws.isEntry · target)).getLastD innermost ∈ ws.lineage innermost := by
        rcases List.mem_cons.mp (List.getLastD_mem_cons ..) with hlast | hlast
        · rwa [hlast]
        · exact List.mem_of_mem_drop ((List.takeWhile_sublist _).subset hlast)
      dsimp only
      simp only [lineage_index, isEntry_index,
        contains_index_of_owners? (howners innermost hmem _ houtermost)]

theorem draw_index
    (hnumber : ∀ r ∈ ws.walk analysis.root, (ws.index g top).number r = ws.number r)
    (look : Look) (title : String) :
    (ws.index g top).draw a look title = ws.draw a look title := by
  have hrecorded := (grows_index g top).recorded a analysis ha
  have hself : ∀ r ∈ ws.walk analysis.root, (ws.index g top).owners? r = ws.owners? r := by
    intro r hr
    exact howners r hr r
      (h.isForest.mem_lineage_of_climbs (h.isForest.lt_of_mem_walk hroot hr) .refl)
  have hcluster : (ws.index g top).cluster look.onlySimple analysis.root =
      ws.cluster look.onlySimple analysis.root := by
    rw [cluster, cluster, size_regions_index]
    exact clusterWithin_index (h.isForest.walksFrom hroot) hself hnumber _ _ .refl
  have hfeatures : ((ws.index g top).view a look).features = (ws.view a look).features := by
    have hlisting : (ws.index g top).features a look.onlySimple =
        ws.features a look.onlySimple := by
      rw [features, features, hrecorded, ha]
      dsimp only
      rw [hcluster]
    rw [view, view]
    dsimp only
    rw [hlisting]
  have hstatements : (ws.index g top).blockStatements a look.namesOnly =
      ws.blockStatements a look.namesOnly := by
    funext b
    have hedge : (ws.index g top).edgeStatement a b = ws.edgeStatement a b := by
      funext target
      rw [edgeStatement, edgeStatement, edgeAttributes, edgeAttributes,
        isBackEdge_index h ha hroot howners]
    rw [blockStatements, blockStatements, hedge]
    rfl
  rw [draw, draw, Dot.View.draw, Dot.View.draw, statements_view hrecorded, statements_view ha,
    hfeatures, hstatements]
  rfl

end

/-! ### Earlier analyses -/

/-- The regions below `root` have the numbers and contain the blocks that they had and contained,
and the drawings of the analysis `a` are the same. -/
structure Intact (ws ws' : Workspace) (a : AnalysisRef) (root : RegionRef) : Prop where
  number_eq : ∀ r ∈ ws.walk root, ws'.number r = ws.number r
  contains_eq : ∀ r ∈ ws.walk root, ∀ b, ws'.contains r b = ws.contains r b
  draw_eq : ∀ look title, ws'.draw a look title = ws.draw a look title

section

variable {a : AnalysisRef} {analysis : Analysis} (h : ws.Built)
  (ha : ws.analyses[a]? = some analysis) (hroot : analysis.root < ws.regions.size)

include h

theorem owners?_index_of_not_mem (hr : r ∉ ws.walk top) :
    (ws.index g top).owners? r = ws.owners? r :=
  owners?_congr (latest?_index_of_not_mem hr) (fun _ => h.lt_of_latest?)
    (grows_index g top).recorded

include ha hroot

theorem intact_index
    (howners : ∀ inner ∈ ws.walk analysis.root, ∀ r ∈ ws.lineage inner,
      (ws.index g top).owners? r = ws.owners? r)
    (hnumber : ∀ r ∈ ws.walk analysis.root, (ws.index g top).number r = ws.number r) :
    Intact ws (ws.index g top) a analysis.root where
  number_eq := hnumber
  contains_eq r hr := contains_index_of_owners? <| howners r hr r <|
    h.isForest.mem_lineage_of_climbs (h.isForest.lt_of_mem_walk hroot hr) .refl
  draw_eq look title := draw_index h ha hroot howners hnumber look title

/-- A tree apart from the one that is analysed is not reached, and neither is what is around it. -/
theorem intact_index_of_disjoint (htop : top < ws.regions.size)
    (hdisjoint : (ws.walk top).Disjoint (ws.walk analysis.root)) :
    Intact ws (ws.index g top) a analysis.root := by
  have hforest := h.isForest
  apply intact_index h ha hroot
  · intro inner hinner r hr
    apply owners?_index_of_not_mem h
    intro hreached
    have hclimb := (climbs_of_mem_lineageWithin hr).trans ((hforest.mem_walk_iff htop).mp hreached)
    exact hdisjoint ((hforest.mem_walk_iff htop).mpr hclimb) hinner
  · intro r hr
    exact (untouched_index fun hreached => hdisjoint hreached hr).number_eq

omit ha in
/-- The same tree is numbered as it was, and its regions find the same owners. -/
theorem intact_index_of_isCurrent (hcurrent : ws.IsCurrent a analysis) :
    Intact ws (ws.index g analysis.root) a analysis.root := by
  have hforest := h.isForest
  have hindexed := hcurrent.index hforest hroot g
  have hfor : (ws.index g analysis.root).regionFor a = ws.regionFor a :=
    regionFor_index_of_recorded hcurrent.recorded
  apply intact_index h hcurrent.recorded hroot
  · intro inner hinner r hr
    by_cases hreached : r ∈ ws.walk analysis.root
    · rw [hindexed.owners?_eq r (by rwa [walk_index]), hcurrent.owners?_eq r hreached, hfor]
    · exact owners?_index_of_not_mem h hreached
  · intro r hr
    obtain ⟨i, hi⟩ := List.mem_iff_getElem?.mp hr
    rw [hindexed.number_eq i r (by rwa [walk_index]), hcurrent.number_eq i r hi]

omit ha in
/-- Only the root of an analysis has the number 0 by it. -/
theorem root_eq_of_intact (hcurrent : ws.IsCurrent a analysis) (htop : top < ws.regions.size)
    (hintact : Intact ws (ws.index g top) a analysis.root) :
    top = analysis.root ∨ (ws.walk top).Disjoint (ws.walk analysis.root) := by
  have hforest := h.isForest
  have hindexed := isCurrent_index hforest htop g
  have hfirst := hforest.getElem?_walk_zero htop
  have hfirst' := hforest.getElem?_walk_zero hroot
  have hself := hforest.mem_walk_self hroot
  rcases hforest.mem_walk_or_disjoint htop hroot with hmem | hmem | hdisjoint
  · -- The old root is numbered by its place in the walk from `top`.
    obtain ⟨i, hi⟩ := List.mem_iff_getElem?.mp hmem
    have hsame := hintact.number_eq analysis.root hself
    rw [hindexed.number_eq i _ (by rwa [walk_index]), hcurrent.number_eq 0 _ hfirst'] at hsame
    obtain rfl : i = 0 := by omega
    exact Or.inl (Option.some.inj (hfirst.symm.trans hi))
  · obtain ⟨i, hi⟩ := List.mem_iff_getElem?.mp hmem
    have hsame := hintact.number_eq top hmem
    rw [hindexed.number_eq 0 _ (by rw [walk_index]; exact hfirst),
      hcurrent.number_eq i _ hi] at hsame
    obtain rfl : i = 0 := by omega
    exact Or.inl (Option.some.inj (hi.symm.trans hfirst'))
  · exact Or.inr hdisjoint

end

/-- An analysis, refused or not, gives the regions of its tree their places as numbers and itself to
look blocks up in, and changes no other region and no earlier analysis. An earlier analysis of a
tree apart from it stays intact. An earlier one that is current stays intact exactly if it is of the
same tree or of a tree apart. -/
theorem Built.analyse_intact_iff (h : ws.Built) (htop : top < ws.regions.size)
    {result : Except TreeError Unit} (hattempt : ws.analyse g top = (ws', result)) :
    (∀ r ∉ ws.walk top, ws'.regions[r]? = ws.regions[r]?) ∧
    (∀ (i : Nat) (r : RegionRef), (ws.walk top)[i]? = some r →
      ws'.regions[r]? = ws.regions[r]?.map fun region =>
        { region with number := i, analysis? := some ws.analyses.size }) ∧
    ∀ (a : AnalysisRef) (analysis : Analysis), ws.analyses[a]? = some analysis →
      analysis.root < ws.regions.size →
      ws'.analyses[a]? = some analysis ∧
      ((ws.walk top).Disjoint (ws.walk analysis.root) → Intact ws ws' a analysis.root) ∧
      (ws.IsCurrent a analysis → (Intact ws ws' a analysis.root ↔
        top = analysis.root ∨ (ws.walk top).Disjoint (ws.walk analysis.root))) := by
  obtain rfl : ws.index g top = ws' := congrArg Prod.fst hattempt
  refine ⟨fun r hr => ?_, fun i r hr => ?_, fun a analysis ha hroot => ⟨?_, ?_, ?_⟩⟩
  · rw [regions_index, getElem?_numbered_of_not_mem]
    rwa [List.zipIdx_map_fst]
  · exact getElem?_regions_index ws g top (h.isForest.nodup_walk htop) hr
  · exact (grows_index g top).recorded a analysis ha
  · exact intact_index_of_disjoint h ha hroot htop
  · intro hcurrent
    refine ⟨root_eq_of_intact h hroot hcurrent htop, ?_⟩
    rintro (rfl | hdisjoint)
    · exact intact_index_of_isCurrent h hroot hcurrent
    · exact intact_index_of_disjoint h ha hroot htop hdisjoint

/-- Two nested regions were analysed. To take them for regions of the other graph is refused and
leaves the analysis intact, to take the inner one for the whole tree is refused as well and does
not. -/
theorem analyse_intact_nested : ∃ first second : Workspace × TreeError,
    (nestedRegions.analyse 0 0).1.analyse 1 0 = (first.1, .error first.2) ∧
    Intact (nestedRegions.analyse 0 0).1 first.1 0 0 ∧
    (nestedRegions.analyse 0 0).1.analyse 0 1 = (second.1, .error second.2) ∧
    ¬ Intact (nestedRegions.analyse 0 0).1 second.1 0 0 := by
  have hbuilt : (nestedRegions.analyse 0 0).1.Built := built_nestedRegions.index 0 0
  have hcurrent := isCurrent_index built_nestedRegions.isForest (show 0 < 2 by decide) 0
  have hfirst : (nestedRegions.analyse 0 0).1.analyse 1 0 =
      (((nestedRegions.analyse 0 0).1.analyse 1 0).1, .error ⟨"g", .foreignBlock "%0"⟩) := rfl
  have hsecond : (nestedRegions.analyse 0 0).1.analyse 0 1 =
      (((nestedRegions.analyse 0 0).1.analyse 0 1).1, .error ⟨"f", .notOwned ["%0"]⟩) := rfl
  obtain ⟨_, _, hwhole⟩ := hbuilt.analyse_intact_iff (show 0 < 2 by decide) hfirst
  obtain ⟨_, _, hinner⟩ := hbuilt.analyse_intact_iff (show 1 < 2 by decide) hsecond
  obtain ⟨_, _, hiff⟩ := hwhole 0 _ hcurrent.recorded (show 0 < 2 by decide)
  obtain ⟨_, _, hiff'⟩ := hinner 0 _ hcurrent.recorded (show 0 < 2 by decide)
  refine ⟨(_, _), (_, _), hfirst, (hiff hcurrent).mpr (Or.inl rfl), hsecond, ?_⟩
  rw [hiff' hcurrent]
  rintro (heq | hdisjoint)
  · cases heq
  · exact hdisjoint (show 1 ∈ [1] by decide) (show 1 ∈ [0, 1] by decide)

/-- A region around the only block of a graph, inside another one that owns the block as well. -/
def sharedBlock : Workspace :=
  (oneRegion.addRegion { entry := ⟨0, 0⟩, owned := [⟨0, 0⟩] }).attach 0 1

theorem built_sharedBlock : sharedBlock.Built :=
  (built_oneRegion.addRegion ⟨0, 0⟩ none none (by decide)).attach (show 0 < 2 by decide)
    (show 1 < 2 by decide) rfl rfl

/-- The inner region was accepted. The outer one is refused, and after that the inner region does
not contain its block any more, has another number and is drawn otherwise. -/
theorem analyse_disturbs_inner : sharedBlock.Built ∧
    (sharedBlock.analyse 0 1).2 = .ok () ∧
    ((sharedBlock.analyse 0 1).1.analyse 0 0).2 = .error ⟨"f", .ownedTwice ["%0"]⟩ ∧
    (sharedBlock.analyse 0 1).1.contains 1 ⟨0, 0⟩ = true ∧
    ((sharedBlock.analyse 0 1).1.analyse 0 0).1.contains 1 ⟨0, 0⟩ = false ∧
    (sharedBlock.analyse 0 1).1.number 1 = 0 ∧
    ((sharedBlock.analyse 0 1).1.analyse 0 0).1.number 1 = 1 ∧
    (((sharedBlock.analyse 0 1).1.analyse 0 0).1.draw 0 {} "f").toOption.map (·.text) ≠
      ((sharedBlock.analyse 0 1).1.draw 0 {} "f").toOption.map (·.text) := by
  refine ⟨built_sharedBlock, rfl, rfl, rfl, rfl, rfl, rfl, ?_⟩
  decide +kernel

end FlowRegions.Workspace

import FlowRegions.Proofs.Region.Walk
import FlowRegions.Proofs.Region.Index

/-!
# Judging a region tree

A judgement passes four checks in order. Over a tree that has just been indexed they say together
that the regions own every block of the graph exactly once and that each region contains a block
with the number of its entry. From then on looking up an owner and climbing outwards agree with
searching the owned blocks.
-/

namespace FlowRegions.Workspace

/-- The blocks that a region and its descendants own, in the order of the walk. -/
def ownedBelow (ws : Workspace) (r : RegionRef) : List BlockRef :=
  (ws.walk r).flatMap ws.owned

theorem mem_ownedBelow {ws : Workspace} {r : RegionRef} {b : BlockRef} :
    b ∈ ws.ownedBelow r ↔ ∃ inner ∈ ws.walk r, b ∈ ws.owned inner :=
  List.mem_flatMap

variable {ws : Workspace} {g : GraphRef} {root : RegionRef}

theorem verify_eq_ok_iff {a : AnalysisRef} {analysis : Analysis}
    (h : ws.analyses[a]? = some analysis) :
    ws.verify a = .ok () ↔
      analysis.ownership.repeated = [] ∧
      (∀ b ∈ ws.ownedBelow analysis.root, b.graph = analysis.graph) ∧
      (∀ b ∈ ws.blocksOf analysis.graph, (ws.regionFor a b).isSome) ∧
      ∀ r ∈ ws.walk analysis.root, ∀ region, ws.regions[r]? = some region →
        ws.contains r region.entry = true := by
  have hforeign : (∀ b ∈ ws.ownedBelow analysis.root, b.graph = analysis.graph) ↔
      ((ws.walk analysis.root).flatMap ws.owned).find? (·.graph ≠ analysis.graph) = none := by
    rw [List.find?_eq_none, ownedBelow]
    simp
  have hmissing : (∀ b ∈ ws.blocksOf analysis.graph, (ws.regionFor a b).isSome) ↔
      ((ws.blocksOf analysis.graph).filter fun b => (ws.regionFor a b).isNone) = [] := by
    rw [List.filter_eq_nil_iff]
    simp [Option.isSome_iff_ne_none]
  have hopen : (∀ r ∈ ws.walk analysis.root, ∀ region, ws.regions[r]? = some region →
        ws.contains r region.entry = true) ↔
      ((ws.walk analysis.root).find? fun r =>
        !ws.regions[r]?.all fun region => ws.contains r region.entry) = none := by
    rw [List.find?_eq_none]
    simp only [Bool.not_eq_true, Bool.not_eq_false', Option.all_eq_true]
  rw [hforeign, hmissing, hopen, verify, h]
  dsimp only
  -- The four checks are passed one after the other, and the first that fails refuses.
  cases analysis.ownership.repeated with
  | cons => simp
  | nil =>
      cases ((ws.walk analysis.root).flatMap ws.owned).find? (·.graph ≠ analysis.graph) with
      | some => simp
      | none =>
          cases (ws.blocksOf analysis.graph).filter fun b => (ws.regionFor a b).isNone with
          | cons => simp
          | nil =>
              cases (ws.walk analysis.root).find? fun r =>
                !ws.regions[r]?.all fun region => ws.contains r region.entry with
              | some => simp
              | none => simp

/-! ### The blocks of a graph -/

theorem map_index_blocksOf :
    (ws.blocksOf g).map (·.index) =
      List.range ((ws.graphs[g]?.map (·.blocks.size)).getD 0) := by
  rw [blocksOf, List.map_map]
  exact List.map_id _

theorem graph_of_mem_blocksOf {b : BlockRef} (h : b ∈ ws.blocksOf g) : b.graph = g := by
  obtain ⟨index, _, rfl⟩ := List.mem_map.mp h
  rfl

theorem nodup_map_index_blocksOf : ((ws.blocksOf g).map (·.index)).Nodup := by
  rw [map_index_blocksOf]
  exact List.nodup_range

theorem BlockRef.eq_of_graph_of_index {b c : BlockRef} (hgraph : b.graph = c.graph)
    (hindex : b.index = c.index) : b = c := by
  cases b
  cases c
  simp_all

/-! ### A tree that was just indexed -/

@[simp] theorem walk_index (r : RegionRef) : (ws.index g root).walk r = ws.walk r :=
  walk_congr (size_regions_index ws g root) (children_index ws g root) r

@[simp] theorem ownedBelow_index (r : RegionRef) :
    (ws.index g root).ownedBelow r = ws.ownedBelow r := by
  rw [ownedBelow, ownedBelow, walk_index]
  apply List.flatMap_congr
  intro inner _
  exact owned_index ws g root inner

theorem getElem?_analyses_index :
    (ws.index g root).analyses[ws.analyses.size]? =
      some ⟨g, root, .ofPairs (ws.ownedPairs root)⟩ :=
  Array.getElem?_push_size

theorem mem_ownedPairs {b : BlockRef} {r : RegionRef} :
    (b, r) ∈ ws.ownedPairs root ↔ r ∈ ws.walk root ∧ b ∈ ws.owned r := by
  simp [ownedPairs]

theorem map_ownedPairs : (ws.ownedPairs root).map (·.1) = ws.ownedBelow root := by
  rw [ownedPairs, ownedBelow, List.map_flatMap]
  apply List.flatMap_congr
  intro r _
  rw [List.map_map]
  exact List.map_id _

theorem map_index_ownedPairs :
    (ws.ownedPairs root).map (·.1.index) = (ws.ownedBelow root).map (·.index) := by
  rw [← map_ownedPairs, List.map_map]
  rfl

theorem fst_analyse : (ws.analyse g root).1 = ws.index g root := rfl

theorem snd_analyse : (ws.analyse g root).2 = (ws.index g root).verify ws.analyses.size := by
  have hsize : (ws.index g root).analyses.size = ws.analyses.size + 1 := Array.size_push _
  rw [analyse, hsize, Nat.add_sub_cancel]

/-- Without repetitions the recorded owner of a number is the one region that owns a block of that
number. -/
theorem regionFor_index_eq_some_iff
    (hnodup : ((ws.ownedBelow root).map (·.index)).Nodup) {b : BlockRef} {r : RegionRef} :
    (ws.index g root).regionFor ws.analyses.size b = some r ↔
      r ∈ ws.walk root ∧ ∃ owned ∈ ws.owned r, owned.index = b.index := by
  rw [regionFor, getElem?_analyses_index, Option.bind_some, Ownership.lookup_owners_ofPairs,
    Option.map_eq_some_iff]
  constructor
  · rintro ⟨⟨owned, owner⟩, hfind, rfl⟩
    obtain ⟨howner, howned⟩ := mem_ownedPairs.mp (List.mem_of_find?_eq_some hfind)
    have hindex := List.find?_some hfind
    exact ⟨howner, owned, howned, (by simpa using hindex : b.index = owned.index).symm⟩
  · rintro ⟨hr, owned, howned, hindex⟩
    have hmem : (owned, r) ∈ ws.ownedPairs root := mem_ownedPairs.mpr ⟨hr, howned⟩
    have hkeys : ((ws.ownedPairs root).map (·.1.index)).Nodup := map_index_ownedPairs ▸ hnodup
    cases hfind : (ws.ownedPairs root).find? (b.index == ·.1.index) with
    | none => exact absurd (List.find?_eq_none.mp hfind _ hmem) (by simp [hindex])
    | some pair =>
        have hkey := List.find?_some hfind
        have hsame : pair.1.index = owned.index :=
          (by simpa using hkey : b.index = pair.1.index).symm.trans hindex.symm
        have heq := List.inj_on_of_nodup_map hkeys (List.mem_of_find?_eq_some hfind) hmem hsame
        exact ⟨pair, rfl, congrArg Prod.snd heq⟩

/-- Without repetitions the regions own all blocks of a graph and nothing else exactly if what they
own lies in the graph and an owner is found for each of its blocks. -/
theorem ownedBelow_perm_iff (hnodup : ((ws.ownedBelow root).map (·.index)).Nodup)
    (hreal : ∀ b ∈ ws.ownedBelow root, b.graph = g → b ∈ ws.blocksOf g) :
    (ws.ownedBelow root).Perm (ws.blocksOf g) ↔
      (∀ b ∈ ws.ownedBelow root, b.graph = g) ∧
      ∀ b ∈ ws.blocksOf g, ((ws.index g root).regionFor ws.analyses.size b).isSome := by
  rw [List.perm_ext_iff_of_nodup hnodup.of_map nodup_map_index_blocksOf.of_map]
  constructor
  · intro hsame
    refine ⟨fun b hb => graph_of_mem_blocksOf ((hsame b).mp hb), ?_⟩
    intro b hb
    obtain ⟨r, hr, howned⟩ := mem_ownedBelow.mp ((hsame b).mpr hb)
    rw [(regionFor_index_eq_some_iff hnodup).mpr ⟨hr, b, howned, rfl⟩]
    rfl
  · rintro ⟨hgraph, howner⟩ b
    constructor
    · intro hb
      exact hreal b hb (hgraph b hb)
    · intro hb
      obtain ⟨r, hr⟩ := Option.isSome_iff_exists.mp (howner b hb)
      obtain ⟨hmem, owned, howned, hindex⟩ := (regionFor_index_eq_some_iff hnodup).mp hr
      have hbelow := mem_ownedBelow.mpr ⟨r, hmem, howned⟩
      have hsame := (hgraph owned hbelow).trans (graph_of_mem_blocksOf hb).symm
      rwa [← BlockRef.eq_of_graph_of_index hsame hindex]

variable {t : RefTree}

theorem IsTree.index (h : ws.IsTree t) (g : GraphRef) (root : RegionRef) :
    (ws.index g root).IsTree t where
  linked := h.linked.congr (size_regions_index ws g root) (parent?_index ws g root)
    (children_index ws g root)
  nodup := h.nodup

namespace IsTree

theorem getElem?_regions_index (h : ws.IsTree t) {r : RegionRef} {number : Nat}
    (hr : t.preorder[number]? = some r) :
    (ws.index g t.root).regions[r]? = ws.regions[r]?.map fun region =>
      { region with number := number, analysis? := some ws.analyses.size } := by
  rw [← h.walk_root] at hr
  exact Workspace.getElem?_regions_index ws g t.root (h.walk_root ▸ h.nodup) hr

theorem analysis?_index (h : ws.IsTree t) {r : RegionRef} (hr : r ∈ t.preorder) :
    (ws.index g t.root).regions[r]?.bind (·.analysis?) = some ws.analyses.size := by
  exact Workspace.analysis?_index ws g t.root (h.walk_root ▸ hr) (h.lt_of_mem hr)

/-- Climbing from the owner finds a block where a search of the owned blocks finds its number. -/
theorem contains_index_iff (h : ws.IsTree t)
    (hnodup : ((ws.ownedBelow t.root).map (·.index)).Nodup) {r : RegionRef}
    (hr : r ∈ t.preorder) {b : BlockRef} :
    (ws.index g t.root).contains r b = true ↔
      ∃ owned ∈ ws.ownedBelow r, owned.index = b.index := by
  have hindexed := h.index g t.root
  rw [Workspace.contains, h.analysis?_index hr]
  constructor
  · intro hcontains
    cases howner : (ws.index g t.root).regionFor ws.analyses.size b with
    | none => simp [howner] at hcontains
    | some owner =>
        obtain ⟨hmem, owned, howned, hindex⟩ := (regionFor_index_eq_some_iff hnodup).mp howner
        rw [h.walk_root] at hmem
        simp only [howner] at hcontains
        rw [hindexed.containsRegion_iff hr hmem, walk_index] at hcontains
        exact ⟨owned, mem_ownedBelow.mpr ⟨owner, hcontains, howned⟩, hindex⟩
  · rintro ⟨owned, hmem, hindex⟩
    obtain ⟨owner, hwalk, howned⟩ := mem_ownedBelow.mp hmem
    have hpre := h.walk_subset hr hwalk
    have howner : (ws.index g t.root).regionFor ws.analyses.size b = some owner := by
      rw [regionFor_index_eq_some_iff hnodup, h.walk_root]
      exact ⟨hpre, owned, howned, hindex⟩
    simp only [howner]
    rw [hindexed.containsRegion_iff hr hpre, walk_index]
    exact hwalk

theorem contains_entries_index_iff (h : ws.IsTree t)
    (hnodup : ((ws.ownedBelow t.root).map (·.index)).Nodup) :
    (∀ r ∈ t.preorder, ∀ region, (ws.index g t.root).regions[r]? = some region →
      (ws.index g t.root).contains r region.entry = true) ↔
      ∀ r ∈ t.preorder, ∀ region, ws.regions[r]? = some region →
        ∃ owned ∈ ws.ownedBelow r, owned.index = region.entry.index := by
  apply forall₂_congr
  intro r hr
  obtain ⟨number, hnumber⟩ := List.mem_iff_getElem?.mp hr
  rw [h.getElem?_regions_index hnumber]
  constructor
  · intro hopen region hregion
    have hcontains := hopen { region with number := number, analysis? := some ws.analyses.size }
      (by rw [hregion]; rfl)
    exact (h.contains_index_iff hnodup hr).mp hcontains
  · intro hentries region hregion
    obtain ⟨original, horiginal, rfl⟩ := Option.map_eq_some_iff.mp hregion
    exact (h.contains_index_iff hnodup hr).mpr (hentries original horiginal)

/-- A tree is accepted exactly if its regions own every block of the graph once and nothing else,
and each region contains a block with the number of its entry. -/
theorem analyse_eq_ok_iff (h : ws.IsTree t)
    (hreal : ∀ b ∈ ws.ownedBelow t.root, b.graph = g → b ∈ ws.blocksOf g) :
    (ws.analyse g t.root).2 = .ok () ↔
      (ws.ownedBelow t.root).Perm (ws.blocksOf g) ∧
      ∀ r ∈ t.preorder, ∀ region, ws.regions[r]? = some region →
        ∃ owned ∈ ws.ownedBelow r, owned.index = region.entry.index := by
  rw [snd_analyse, verify_eq_ok_iff getElem?_analyses_index]
  simp only [Ownership.repeated_ofPairs_eq_nil_iff, map_index_ownedPairs, ownedBelow_index,
    walk_index, blocksOf_index, h.walk_root]
  constructor
  · rintro ⟨hnodup, hgraph, howner, hopen⟩
    exact ⟨(ownedBelow_perm_iff hnodup hreal).mpr ⟨hgraph, howner⟩,
      (h.contains_entries_index_iff hnodup).mp hopen⟩
  · rintro ⟨hperm, hentries⟩
    have hnodup : ((ws.ownedBelow t.root).map (·.index)).Nodup :=
      (hperm.map (·.index)).nodup_iff.mpr nodup_map_index_blocksOf
    obtain ⟨hgraph, howner⟩ := (ownedBelow_perm_iff hnodup hreal).mp hperm
    exact ⟨hnodup, hgraph, howner, (h.contains_entries_index_iff hnodup).mpr hentries⟩

end IsTree

end FlowRegions.Workspace

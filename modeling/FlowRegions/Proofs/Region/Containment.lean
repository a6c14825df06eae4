import FlowRegions.Proofs.Dot.AcceptedTree
import FlowRegions.Proofs.Region.Current

/-!
# Containment before and after an acceptance

Before an analysis reaches a region, the region searches for a block among those that it and its
descendants own. Afterwards it looks up the number of the block and climbs from the owner. In an
accepted tree both give the same answer for every block of the graph. The number of a block of
another graph is taken for that of a block of this one, so an edge that comes from there can be
counted otherwise.
-/

namespace FlowRegions.Workspace

variable {ws ws' : Workspace} {g : GraphRef} {root r : RegionRef}

/-- How many edges lead to the block from blocks of other graphs that have the number of a block of
the region. -/
def strays (ws : Workspace) (g : GraphRef) (r : RegionRef) (b : BlockRef) : Nat :=
  (ws.predecessors b).countP fun source =>
    source.graph ≠ g && ws.contains r ⟨g, source.index⟩

theorem strays_eq_zero {b : BlockRef} (h : ∀ source ∈ ws.predecessors b, source.graph = g) :
    ws.strays g r b = 0 := by
  rw [strays, List.countP_eq_zero]
  intro source hsource
  simp [h source hsource]

theorem contains_iff_mem_ownedBelow (h : ws.latest? r = none) (b : BlockRef) :
    ws.contains r b = true ↔ b ∈ ws.ownedBelow r := by
  rw [latest?] at h
  rw [contains, h, mem_ownedBelow]
  simp

theorem owned_of_analyse_eq_ok (hok : (ws.analyse g root).2 = .ok ()) :
    (∀ b ∈ ws.ownedBelow root, b.graph = g) ∧
      ((ws.ownedBelow root).map (·.index)).Nodup := by
  rw [snd_analyse, verify_eq_ok_iff getElem?_analyses_index, ownedBelow_index,
    Ownership.repeated_ofPairs_eq_nil_iff] at hok
  obtain ⟨hnodup, hgraph, _⟩ := hok
  rw [map_index_ownedPairs] at hnodup
  exact ⟨hgraph, hnodup⟩

/-! ### One region of an accepted tree -/

section

variable (h : ws.IsForest) (hroot : root < ws.regions.size)
  (hok : (ws.analyse g root).2 = .ok ()) (hr : r ∈ ws.walk root) (hfresh : ws.latest? r = none)

include h hroot hok hr hfresh

theorem graph_of_contains {b : BlockRef} (hb : ws.contains r b = true) : b.graph = g := by
  rw [contains_iff_mem_ownedBelow hfresh] at hb
  exact (owned_of_analyse_eq_ok hok).1 b (h.ownedBelow_subset hroot hr hb)

/-- After the acceptance a region contains the blocks whose numbers are those of blocks that it
contained before. -/
theorem contains_index_of_ok (b : BlockRef) :
    (ws.index g root).contains r b = ws.contains r ⟨g, b.index⟩ := by
  have hforest : (ws.index g root).IsForest :=
    h.congr (parent?_index ws g root) (children_index ws g root)
  have hnodup := (owned_of_analyse_eq_ok hok).2
  rw [Bool.eq_iff_iff, (isCurrent_index h hroot g).contains_iff hforest
    (by rwa [size_regions_index]) (by rwa [ownedBelow_index]) (by rwa [walk_index]),
    ownedBelow_index]
  constructor
  · rintro ⟨owned, hbelow, hindex⟩
    have howned := (contains_iff_mem_ownedBelow hfresh owned).mpr hbelow
    have heq : owned = ⟨g, b.index⟩ :=
      BlockRef.eq_of_graph_of_index (graph_of_contains h hroot hok hr hfresh howned) hindex
    rwa [← heq]
  · intro hcontains
    exact ⟨_, (contains_iff_mem_ownedBelow hfresh _).mp hcontains, rfl⟩

/-- Among any blocks those contained after the acceptance are those contained before it and those
of other graphs that are taken for one of them. -/
theorem countP_contains_index (blocks : List BlockRef) :
    blocks.countP ((ws.index g root).contains r) = blocks.countP (ws.contains r) +
      blocks.countP fun b => b.graph ≠ g && ws.contains r ⟨g, b.index⟩ := by
  have hinside : (blocks.filter (·.graph = g)).countP ((ws.index g root).contains r) =
      blocks.countP (ws.contains r) := by
    rw [List.countP_filter]
    apply List.countP_congr
    intro b _
    rw [Bool.and_eq_true, decide_eq_true_iff, contains_index_of_ok h hroot hok hr hfresh]
    constructor
    · rintro ⟨hcontains, rfl⟩
      exact hcontains
    -- A block that is searched for and found lies in the graph.
    · intro hcontains
      obtain rfl := graph_of_contains h hroot hok hr hfresh hcontains
      exact ⟨hcontains, rfl⟩
  have houtside : (blocks.filter fun b => !decide (b.graph = g)).countP
      ((ws.index g root).contains r) =
        blocks.countP fun b => b.graph ≠ g && ws.contains r ⟨g, b.index⟩ := by
    rw [List.countP_filter]
    apply List.countP_congr
    intro b _
    rw [contains_index_of_ok h hroot hok hr hfresh, Bool.and_comm, decide_not]
  rw [List.countP_eq_countP_filter_add _ _ (·.graph = g), hinside, houtside]

variable {region : Region} (hregion : ws.regions[r]? = some region)

include hregion

theorem enteringEdges_index_add_strays :
    (ws.index g root).enteringEdges r + ws.strays g r region.entry = ws.enteringEdges r := by
  have hrest : ∀ contained : BlockRef → Bool, (ws.predecessors region.entry).length =
      (ws.predecessors region.entry).countP contained +
        (ws.predecessors region.entry).countP fun b => !contained b := by
    intro contained
    rw [List.length_eq_countP_add_countP contained]
    simp only [Bool.not_eq_true, Bool.decide_eq_false]
  have hbefore := hrest (ws.contains r)
  have hafter := hrest ((ws.index g root).contains r)
  have hpredecessors : (ws.index g root).predecessors region.entry =
      ws.predecessors region.entry := rfl
  rw [countP_contains_index h hroot hok hr hfresh] at hafter
  rw [enteringEdges, enteringEdges, getElem?_index, hregion, strays]
  dsimp only [Option.map_some]
  rw [hpredecessors]
  omega

theorem exitingEdges_index : (ws.index g root).exitingEdges r =
    ws.exitingEdges r + region.exit?.elim 0 (ws.strays g r) := by
  rw [exitingEdges, exitingEdges, getElem?_index, hregion, Option.map_some, Option.bind_some,
    Option.bind_some]
  cases region.exit? with
  | none => rfl
  | some exit =>
      exact countP_contains_index h hroot hok hr hfresh (ws.predecessors exit)

end

/-! ### What a region answers -/

/-- An acceptance changes nothing about which blocks of the graph a region contains. Of the edges
that enter a region it hides those that come from a block of another graph with a number from
inside, and at the exit it adds edges of this kind. -/
theorem Built.contains_analyse (h : ws.Built) (hroot : root < ws.regions.size)
    (hfresh : ∀ r ∈ ws.walk root, ws.latest? r = none) (hentered : ws.EnteredIn g root)
    (hok : ws.analyse g root = (ws', .ok ())) :
    ∀ r ∈ ws.walk root, ∀ region ∈ ws.regions[r]?,
      (∀ b, ws'.contains r b = ws.contains r ⟨g, b.index⟩) ∧
      (∀ b ∈ ws.blocksOf g, ws'.contains r b = ws.contains r b) ∧
      ws'.regionBlocks r = ws.regionBlocks r ∧
      ws'.enteringEdges r + ws.strays g r region.entry = ws.enteringEdges r ∧
      ws'.exitingEdges r = ws.exitingEdges r + region.exit?.elim 0 (ws.strays g r) ∧
      ((∀ b ∈ region.entry :: region.exit?.toList, ∀ source ∈ ws.predecessors b,
          source.graph = g) →
        ws'.enteringEdges r = ws.enteringEdges r ∧ ws'.exitingEdges r = ws.exitingEdges r ∧
          ws'.isSimple r = ws.isSimple r) := by
  intro r hr region hregion
  obtain rfl : ws.index g root = ws' := congrArg Prod.fst hok
  have haccepted : (ws.analyse g root).2 = .ok () := congrArg Prod.snd hok
  have hforest := h.isForest
  have hcontains := contains_index_of_ok hforest hroot haccepted hr (hfresh r hr)
  have hsame : ∀ b ∈ ws.blocksOf g, (ws.index g root).contains r b = ws.contains r b := by
    intro b hb
    rw [hcontains, ← graph_of_mem_blocksOf hb]
  have hentering :=
    enteringEdges_index_add_strays hforest hroot haccepted hr (hfresh r hr) hregion
  have hexiting := exitingEdges_index hforest hroot haccepted hr (hfresh r hr) hregion
  refine ⟨hcontains, hsame, ?_, hentering, hexiting, fun hinside => ?_⟩
  · rw [regionBlocks, regionBlocks, getElem?_index, hregion]
    dsimp only [Option.map_some]
    rw [blocksOf_index, hentered r hr region hregion]
    exact List.filter_congr hsame
  · have hexit : region.exit?.elim 0 (ws.strays g r) = 0 := by
      cases hsome : region.exit? with
      | none => rfl
      | some exit => exact strays_eq_zero (hinside exit (by simp [hsome]))
    rw [strays_eq_zero (hinside region.entry List.mem_cons_self), Nat.add_zero] at hentering
    rw [hexit, Nat.add_zero] at hexiting
    refine ⟨hentering, hexiting, ?_⟩
    rw [isSimple, isSimple, hentering, hexiting, getElem?_index, hregion]
    rfl

/-- A region around the first block inside a region around the second, with an edge back and
forth. -/
def loopRegions : Workspace :=
  ((((twoGraphs.addEdge 0 ⟨0, 1⟩ ⟨0, 0⟩).addEdge 0 ⟨0, 0⟩ ⟨0, 1⟩).addRegion
    { entry := ⟨0, 1⟩, owned := [⟨0, 1⟩] }).addRegion
      { entry := ⟨0, 0⟩, exit? := some ⟨0, 1⟩, owned := [⟨0, 0⟩] }).attach 0 1

theorem built_loopRegions : loopRegions.Built :=
  ((((built_twoGraphs.addEdge 0 ⟨0, 1⟩ ⟨0, 0⟩).addEdge 0 ⟨0, 0⟩ ⟨0, 1⟩).addRegion ⟨0, 1⟩ none none
    (by decide)).addRegion ⟨0, 0⟩ (some ⟨0, 1⟩) none (by decide)).attach (show 0 < 2 by decide)
      (show 1 < 2 by decide) rfl rfl

/-- The inner region is simple before and after its tree is accepted. -/
theorem contains_analyse_loop : (loopRegions.analyse 0 0).2 = .ok () ∧
    loopRegions.contains 1 ⟨0, 0⟩ = true ∧
    (loopRegions.analyse 0 0).1.contains 1 ⟨0, 0⟩ = true ∧
    loopRegions.isSimple 1 = true ∧ (loopRegions.analyse 0 0).1.isSimple 1 = true := by
  have hentered : loopRegions.EnteredIn 0 0 := by
    unfold EnteredIn
    decide
  have hok : loopRegions.analyse 0 0 = ((loopRegions.analyse 0 0).1, .ok ()) := rfl
  have hregion : loopRegions.regions[1]? = some
      { entry := ⟨0, 0⟩, exit? := some ⟨0, 1⟩, owned := [⟨0, 0⟩], parent? := some 0 } := rfl
  obtain ⟨_, hsame, _, _, _, hinside⟩ := built_loopRegions.contains_analyse
    (show 0 < 2 by decide) (by decide) hentered hok 1 (by decide) _ hregion
  obtain ⟨_, _, hsimple⟩ := hinside (by decide)
  have hcontains : loopRegions.contains 1 ⟨0, 0⟩ = true := rfl
  have hbefore : loopRegions.isSimple 1 = true := rfl
  exact ⟨rfl, hcontains, (hsame ⟨0, 0⟩ (by decide)).trans hcontains, hbefore,
    hsimple.trans hbefore⟩

/-- The same regions, and one more edge from the only block of the other graph into the inner
one. -/
def strayEdge : Workspace :=
  loopRegions.addEdge 1 ⟨1, 0⟩ ⟨0, 0⟩

/-- Two edges enter the inner region. After its tree is accepted only one of them is seen, and the
region is taken to be simple. -/
theorem enteringEdges_strayEdge : strayEdge.Built ∧
    (∀ r ∈ strayEdge.walk 0, strayEdge.latest? r = none) ∧
    (∀ r ∈ strayEdge.walk 0, ∀ region ∈ strayEdge.regions[r]?,
      ∀ b ∈ region.entry :: (region.exit?.toList ++ region.owned), b ∈ strayEdge.blocksOf 0) ∧
    (strayEdge.analyse 0 0).2 = .ok () ∧ 1 ∈ strayEdge.walk 0 ∧
    strayEdge.enteringEdges 1 = 2 ∧ (strayEdge.analyse 0 0).1.enteringEdges 1 = 1 ∧
    strayEdge.isSimple 1 = false ∧ (strayEdge.analyse 0 0).1.isSimple 1 = true :=
  ⟨built_loopRegions.addEdge 1 ⟨1, 0⟩ ⟨0, 0⟩, by decide, by decide, rfl, by decide, rfl, rfl, rfl,
    rfl⟩

end FlowRegions.Workspace

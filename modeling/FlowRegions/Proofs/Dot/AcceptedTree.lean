import FlowRegions.Proofs.Dot.ClusterTree
import FlowRegions.Proofs.Region.Building

/-!
# The clusters of an accepted tree

An analysis that accepts a region tree vouches for what its clusters list. It compares entries by
their numbers alone, and it is exact as long as every region is entered at a block of the graph.
A region that is entered in another graph can be accepted, and its cluster misses blocks.
-/

namespace FlowRegions

open Dot

namespace Dot.Cluster

mutual

theorem allMembers_outline (depth depth' : Int) : ∀ cluster : Cluster,
    (cluster.outline depth).allMembers = (cluster.outline depth').allMembers
  | .mk number style inner members? => by
    rw [outline, outline, Outline.allMembers_mk, Outline.allMembers_mk,
      flatMap_allMembers_innerOutlines (depth + 1) (depth' + 1) inner]

theorem flatMap_allMembers_innerOutlines (depth depth' : Int) : ∀ inner : List Cluster,
    (innerOutlines depth inner).flatMap Outline.allMembers =
      (innerOutlines depth' inner).flatMap Outline.allMembers
  | [] => rfl
  | cluster :: rest => by
    rw [innerOutlines, innerOutlines, List.flatMap_cons, List.flatMap_cons,
      allMembers_outline depth depth' cluster, flatMap_allMembers_innerOutlines depth depth' rest]

end

end Dot.Cluster

namespace Workspace

variable {ws : Workspace} {g : GraphRef} {t : RefTree}

namespace IsTree

theorem number_index_nonneg (h : ws.IsTree t) {r : RegionRef} (hr : r ∈ t.preorder) :
    0 ≤ (ws.index g t.root).number r := by
  have hlt := h.lt_of_mem hr
  obtain ⟨number, hnumber⟩ := List.mem_iff_getElem?.mp hr
  rw [Workspace.number, h.getElem?_regions_index hnumber, Array.getElem?_eq_getElem hlt]
  exact Int.natCast_nonneg number

/-- The members of a region are the blocks that it owns, in the order of the graph in which it is
entered. -/
theorem members?_index (h : ws.IsTree t)
    (hperm : (ws.ownedBelow t.root).Perm (ws.blocksOf g)) {r : RegionRef} (hr : r ∈ t.preorder)
    (hentered : ∀ region, ws.regions[r]? = some region → region.entry.graph = g) :
    (ws.index g t.root).members? r =
      some (((ws.blocksOf g).filter (· ∈ ws.owned r)).map (·.index)) := by
  have hlt := h.lt_of_mem hr
  have hgraph : ∀ b ∈ ws.ownedBelow t.root, b.graph = g := by
    intro b hb
    exact graph_of_mem_blocksOf (hperm.mem_iff.mp hb)
  have hnodup : ((ws.ownedBelow t.root).map (·.index)).Nodup :=
    (hperm.map _).nodup_iff.mpr nodup_map_index_blocksOf
  have hblocks : (ws.index g t.root).regionBlocks r =
      (ws.blocksOf g).filter ((ws.index g t.root).contains r) := by
    obtain ⟨number, hnumber⟩ := List.mem_iff_getElem?.mp hr
    rw [regionBlocks, h.getElem?_regions_index hnumber, Array.getElem?_eq_getElem hlt]
    dsimp only [Option.map_some]
    rw [hentered _ (Array.getElem?_eq_getElem hlt), blocksOf_index]
  rw [members?, h.analysis?_index hr, hblocks]
  dsimp only
  rw [List.filter_filter]
  apply congrArg fun blocks => some (List.map _ blocks)
  apply List.filter_congr
  intro b hb
  rw [Bool.eq_iff_iff, Bool.and_eq_true, beq_iff_eq, decide_eq_true_iff,
    regionFor_index_eq_some_iff hnodup, h.contains_index_iff hnodup hr, h.walk_root]
  constructor
  · rintro ⟨⟨_, owned, howned, hindex⟩, _⟩
    have hbelow := mem_ownedBelow.mpr ⟨r, h.walk_root ▸ hr, howned⟩
    have hsame := (hgraph owned hbelow).trans (graph_of_mem_blocksOf hb).symm
    rwa [← BlockRef.eq_of_graph_of_index hsame hindex]
  · intro howned
    exact ⟨⟨hr, b, howned, rfl⟩, b, mem_ownedBelow.mpr ⟨r, h.mem_walk_self hr, howned⟩, rfl⟩

/-- The cluster of a tree that owns the blocks of a graph once and is entered there lists every
block once. -/
theorem read?_listing (h : ws.IsTree t)
    (hperm : (ws.ownedBelow t.root).Perm (ws.blocksOf g)) (hentered : ws.EnteredIn g t.root)
    (onlySimple : Bool) (depth : Int) :
    (((ws.index g t.root).cluster onlySimple t.root).listing depth).complete = true ∧
      ∃ outline, Outline.read?
        (((ws.index g t.root).cluster onlySimple t.root).listing depth).text = some [outline] ∧
          outline.allMembers.Perm ((ws.blocksOf g).map (·.index)) := by
  have hindexed := h.index g t.root
  rw [EnteredIn, h.walk_root] at hentered
  have hmembers : ∀ r ∈ t.preorder, (ws.index g t.root).members? r =
      some ((((ws.index g t.root).blocksOf g).filter
        (· ∈ (ws.index g t.root).owned r)).map (·.index)) := by
    intro r hr
    rw [h.members?_index hperm hr (hentered r hr), owned_index, blocksOf_index]
  obtain ⟨hcomplete, hshows⟩ := hindexed.shows_clusterWithin onlySimple
    (fun r hr => h.number_index_nonneg hr) hmembers (t.self_mem_places [])
    hindexed.length_preorder_le
  have hlisted := (hshows.allMembers_perm hindexed.linked).trans
    (hindexed.members_perm (by rwa [ownedBelow_index, blocksOf_index]))
  rw [Cluster.allMembers_outline _ depth, blocksOf_index] at hlisted
  exact ⟨(Cluster.reads_listing depth hcomplete (s := {}) rfl).1, _,
    Cluster.read?_text_listing depth hcomplete, hlisted⟩

end IsTree

/-! ### What an acceptance is worth -/

/-- A tree that owns the blocks of the graph once and contains its entries is accepted. What is
accepted contains the numbers of its entries, and so the entries themselves exactly if they all lie
in the graph; in that case its cluster lists every block of the graph once. -/
theorem Built.analyse_exact_iff_enteredIn (h : ws.Built) {root : RegionRef}
    (hroot : root < ws.regions.size) (htop : ws.parent? root = none) (g : GraphRef) :
    ((ws.analyse g root).2 = .ok () ↔ ws.OwnsOnce g root ∧ ws.HoldsEntryNumbers root) ∧
    (ws.OwnsOnce g root ∧ ws.HoldsEntries root → (ws.analyse g root).2 = .ok ()) ∧
    ((ws.analyse g root).2 = .ok () →
      (ws.HoldsEntries root ↔ ws.EnteredIn g root) ∧
      (ws.EnteredIn g root → ∀ onlySimple depth,
        (((ws.analyse g root).1.cluster onlySimple root).listing depth).complete = true ∧
        ∃ outline, Outline.read?
          (((ws.analyse g root).1.cluster onlySimple root).listing depth).text = some [outline] ∧
            outline.allMembers.Perm (List.range (ws.blockCount g)))) := by
  refine ⟨h.analyse_eq_ok_iff hroot htop, ?_, fun hok => ⟨?_, ?_⟩⟩
  · rintro ⟨howns, hentries⟩
    exact h.analyse_eq_ok_of_holdsEntries hroot htop howns hentries
  · exact h.holdsEntries_iff_enteredIn hroot htop hok
  · intro hentered onlySimple depth
    obtain ⟨howns, _⟩ := (h.analyse_eq_ok_iff hroot htop).mp hok
    obtain ⟨t, rfl, ht⟩ := h.exists_isTree hroot htop
    have hperm := perm_of_ownsOnce howns fun b hb => h.mem_blocksOf_of_mem_ownedBelow hb
    have hlisted := ht.read?_listing hperm hentered onlySimple depth
    rwa [map_index_blocksOf] at hlisted

/-- A graph of two blocks and another one of one block, all of them without names. -/
def twoGraphs : Workspace where
  graphs := #[{ name := "f", blocks := #[{}, { id := 1 }] },
    { name := "g", blocks := #[{ parent := 1 }] }]

theorem built_twoGraphs : twoGraphs.Built := by
  have hf : Built { graphs := #[{ name := "f" }] } := Built.empty.addGraph "f"
  have hfirst : Built { graphs := #[{ name := "f", blocks := #[{}] }] } :=
    hf.addBlock (show addBlock _ 0 none [] = _ by rfl)
  have hsecond : Built { graphs := #[{ name := "f", blocks := #[{}, { id := 1 }] }] } :=
    hfirst.addBlock (show addBlock _ 0 none [] = _ by rfl)
  exact (hsecond.addGraph "g").addBlock (show addBlock _ 1 none [] = _ by rfl)

/-- A region around the first block with a region around the second in it. -/
def nestedRegions : Workspace :=
  ((twoGraphs.addRegion { entry := ⟨0, 0⟩, owned := [⟨0, 0⟩] }).addRegion
    { entry := ⟨0, 1⟩, owned := [⟨0, 1⟩] }).attach 0 1

/-- A region around both blocks that is entered at the block of the other graph. -/
def enteredElsewhere : Workspace :=
  twoGraphs.addRegion { entry := ⟨1, 0⟩, owned := [⟨0, 0⟩, ⟨0, 1⟩] }

theorem built_nestedRegions : nestedRegions.Built :=
  ((built_twoGraphs.addRegion ⟨0, 0⟩ none none (by decide)).addRegion ⟨0, 1⟩ none none
    (by decide)).attach (show 0 < 2 by decide) (show 1 < 2 by decide) rfl rfl

theorem built_enteredElsewhere : enteredElsewhere.Built :=
  built_twoGraphs.addRegion ⟨1, 0⟩ none none (by decide)

/-- The tree of the nested regions is accepted, and its cluster lists both blocks. -/
theorem analyse_exact_nested : (nestedRegions.analyse 0 0).2 = .ok () ∧
    nestedRegions.HoldsEntries 0 ∧
    ∃ outline, Outline.read? (((nestedRegions.analyse 0 0).1.cluster false 0).listing 0).text =
      some [outline] ∧ outline.allMembers.Perm (List.range 2) := by
  have hentered : nestedRegions.EnteredIn 0 0 := by
    unfold EnteredIn
    decide
  obtain ⟨_, _, haccepted⟩ :=
    built_nestedRegions.analyse_exact_iff_enteredIn (show 0 < 2 by decide) rfl 0
  obtain ⟨hentries, hlisted⟩ := haccepted rfl
  exact ⟨rfl, hentries.mpr hentered, (hlisted hentered false 0).2⟩

/-- The entry in the other graph has the number of the first block, and so the region is accepted.
It does not contain its entry, and its cluster leaves out the second block. -/
theorem accepted_enteredElsewhere : enteredElsewhere.Built ∧
    0 < enteredElsewhere.regions.size ∧ enteredElsewhere.parent? 0 = none ∧
    (enteredElsewhere.analyse 0 0).2 = .ok () ∧
    ¬ enteredElsewhere.HoldsEntries 0 ∧
    enteredElsewhere.blocksOf 0 = [⟨0, 0⟩, ⟨0, 1⟩] ∧
    Outline.read? (((enteredElsewhere.analyse 0 0).1.cluster false 0).listing 0).text =
      some [.mk 0 0 [] [0]] := by
  refine ⟨built_enteredElsewhere, by decide, rfl, rfl, ?_, rfl, rfl⟩
  unfold HoldsEntries
  decide

end Workspace

end FlowRegions

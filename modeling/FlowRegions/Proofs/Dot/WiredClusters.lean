import FlowRegions.Proofs.Dot.Statements
import FlowRegions.Proofs.Region.Wiring

/-!
# Clusters of regions that are attached without restraint

The clusters of a drawing are written by the same walk along the children that numbers the regions.
So where an accepted analysis visits every region once, every cluster gets a name of its own.
-/

namespace FlowRegions

open Dot

namespace Dot.Cluster

/-- The cluster is complete, and the numbers in it are those listed, wherever it is written. -/
def Numbers (cluster : Cluster) (numbers : List Int) : Prop :=
  cluster.Complete ∧ ∀ depth,
    (cluster.outline depth).numbers.map (fun n : Nat => (n : Int)) = numbers

end Dot.Cluster

namespace Workspace

variable {ws ws' : Workspace} {root : RegionRef}

theorem numbers_clusterAround {onlySimple : Bool} {r : RegionRef} (hnumber : 0 ≤ ws.number r)
    (hmembers : (ws.members? r).isSome) {below : List RegionRef} {cluster : RegionRef → Cluster}
    {numbers : RegionRef → List Int}
    (hbelow : ∀ child ∈ below, (cluster child).Numbers (numbers child)) :
    (ws.clusterAround onlySimple r (below.map cluster)).Numbers
      (ws.number r :: below.flatMap numbers) := by
  refine ⟨?_, fun depth => ?_⟩
  · rw [clusterAround, Cluster.Complete, Cluster.allComplete_iff, List.forall_mem_map]
    exact ⟨hnumber, hmembers, fun child hchild => (hbelow child hchild).1⟩
  · rw [clusterAround, Cluster.outline, Cluster.innerOutlines_eq_map, Outline.numbers_mk,
      List.map_cons, Int.toNat_of_nonneg hnumber, List.map_map, List.flatMap_map, List.map_flatMap]
    apply congrArg (ws.number r :: ·)
    apply List.flatMap_congr
    intro child hchild
    exact (hbelow child hchild).2 _

/-- Clusters are numbered like the regions of a walk, if these have numbers and known members. -/
theorem numbers_clusterWithin (onlySimple : Bool) {limit : Nat} {r : RegionRef}
    (h : ∀ x ∈ ws.walkWithin (limit + 1) r, 0 ≤ ws.number x ∧ (ws.members? x).isSome) :
    (ws.clusterWithin onlySimple limit r).Numbers
      ((ws.walkWithin (limit + 1) r).map ws.number) := by
  induction limit generalizing r with
  | zero =>
      have hr := h r List.mem_cons_self
      have hwalk : ws.walkWithin 1 r = [r] := by simp [walkWithin]
      rw [hwalk, List.map_singleton]
      have hnone : ∀ child ∈ ([] : List RegionRef),
          (ws.cluster onlySimple child).Numbers [] := by simp
      exact numbers_clusterAround hr.1 hr.2 hnone
  | succ limit ih =>
      rw [walkWithin, List.forall_mem_cons] at h
      rw [walkWithin, clusterWithin, List.map_cons, List.map_flatMap]
      apply numbers_clusterAround h.1.1 h.1.2
      intro child hchild
      apply ih
      intro x hx
      exact h.2 x (List.mem_flatMap.mpr ⟨child, hchild, hx⟩)

namespace WalksFrom

variable (h : ws.WalksFrom root)

include h

theorem numbers_cluster {g : GraphRef} (hnodup : (ws.walk root).Nodup) (onlySimple : Bool) :
    ((ws.index g root).cluster onlySimple root).Numbers
      ((List.range (ws.walk root).length).map (fun n : Nat => (n : Int))) := by
  have hwalk : (ws.index g root).walkWithin ((ws.index g root).regions.size + 1) root =
      ws.walk root := by
    rw [walkWithin_congr (children_index ws g root), size_regions_index]
    exact h.walkWithin_eq_walk .refl (Nat.le_succ _)
  rw [← h.map_number_index hnodup (g := g), ← hwalk]
  apply numbers_clusterWithin
  rw [hwalk]
  intro r hr
  obtain ⟨i, hi⟩ := List.mem_iff_getElem?.mp hr
  rw [h.number_index hnodup hi, members?, analysis?_index ws g root hr (h.lt_of_mem_walk hr)]
  exact ⟨Int.natCast_nonneg i, rfl⟩

theorem exists_outline_index {g : GraphRef} (hnodup : (ws.walk root).Nodup) (look : Look)
    (title : String) :
    ∃ drawing clusters outline,
      (ws.index g root).draw ws.analyses.size look title = .ok drawing ∧
      drawing.features = "\tcolorscheme = \"paired12\"\n" ++ clusters ∧
      Outline.read? clusters = some [outline] ∧
      outline.numbers = List.range (ws.walk root).length := by
  obtain ⟨hcomplete, hnumbers⟩ := h.numbers_cluster (g := g) hnodup look.onlySimple
  refine ⟨_, _, _, draw_eq_ok getElem?_analyses_index hcomplete title, rfl,
    Cluster.read?_text_listing 4 hcomplete, ?_⟩
  exact List.map_injective_iff.mpr Int.ofNat_injective (hnumbers 4)

end WalksFrom

/-- However regions were attached to each other, an accepted analysis of regions whose children
never lead back visits each of them once and numbers them in this order. If climbing from them ends
as well, no climb is cut off, and every drawing gives the clusters these numbers. -/
theorem Wired.walk_of_analyse (h : ws.Wired) (hroot : root < ws.regions.size)
    (hacyclic : ws.AcyclicFrom root) {g : GraphRef}
    (hok : ws.analyse g root = (ws', .ok ())) :
    (ws'.walk root).Nodup ∧
    (∀ r, r ∈ ws'.walk root ↔ ws.Reaches root r) ∧
    (ws'.walk root).map ws'.number =
      (List.range (ws'.walk root).length).map (fun n : Nat => (n : Int)) ∧
    ((∀ r ∈ ws'.walk root, ∃ chain, ws'.IsLineage r chain) →
      (∀ r ∈ ws'.walk root, ws'.IsLineage r (ws'.lineage r)) ∧
      ∀ look title, ∃ drawing clusters outline,
        ws'.draw ws.analyses.size look title = .ok drawing ∧
        drawing.features = "\tcolorscheme = \"paired12\"\n" ++ clusters ∧
        Outline.read? clusters = some [outline] ∧
        outline.numbers = List.range (ws'.walk root).length) := by
  have hwalks : ws.WalksFrom root := ⟨h.linksBack, hroot, hacyclic⟩
  obtain rfl : ws.index g root = ws' := congrArg Prod.fst hok
  have hnodup := hwalks.nodup_walk (congrArg Prod.snd hok)
  have hlinks : (ws.index g root).LinksBack := (h.index g root).linksBack
  rw [walk_index]
  refine ⟨hnodup, fun r => hwalks.mem_walk_iff .refl, hwalks.map_number_index hnodup,
    fun hends => ⟨fun r hr => ?_, fun look title => hwalks.exists_outline_index hnodup look title⟩⟩
  obtain ⟨chain, hchain⟩ := hends r hr
  have hlt := hwalks.lt_of_mem_walk hr
  rw [← size_regions_index ws g root] at hlt
  exact hlinks.isLineage_lineage hlt hchain

/-- Three regions, the second of which was first attached to the third one and then to the first,
and the first of which lies in the third one as well. -/
def attachedTwice : Workspace where
  graphs := #[{ name := "f", blocks := #[{}, { id := 1 }] }]
  regions := #[
    { entry := ⟨0, 0⟩, owned := [⟨0, 0⟩], parent? := some 2, children := [1] },
    { entry := ⟨0, 1⟩, owned := [⟨0, 1⟩], parent? := some 0 },
    { entry := ⟨0, 0⟩, children := [1, 0] }]

theorem wired_attachedTwice : attachedTwice.Wired := by
  have hgraph : Wired { graphs := #[{ name := "f" }] } := Wired.empty.addGraph "f"
  have hfirst : Wired { graphs := #[{ name := "f", blocks := #[{}] }] } :=
    hgraph.addBlock (show addBlock _ 0 none [] = _ by rfl)
  have hsecond : Wired { graphs := #[{ name := "f", blocks := #[{}, { id := 1 }] }] } :=
    hfirst.addBlock (show addBlock _ 0 none [] = _ by rfl)
  have hregions := ((hsecond.addRegion ⟨0, 0⟩ none [⟨0, 0⟩] none).addRegion ⟨0, 1⟩ none
    [⟨0, 1⟩] none).addRegion ⟨0, 0⟩ none [] none
  exact ((hregions.attach (show 2 < 3 by decide) (show 1 < 3 by decide)).attach
    (show 0 < 3 by decide) (show 1 < 3 by decide)).attach (show 2 < 3 by decide)
      (show 0 < 3 by decide)

theorem acyclicFrom_attachedTwice : attachedTwice.AcyclicFrom 0 := by
  have hfalls : ∀ r < 3, ∀ child ∈ attachedTwice.children r,
      [1, 0, 2].getD child 0 < [1, 0, 2].getD r 0 := by decide
  refine acyclicFrom_of_height ([1, 0, 2].getD · 0) (fun r child hchild => ?_) 0
  have hlt : r < attachedTwice.regions.size := lt_of_mem_children hchild
  exact hfalls r hlt child hchild

theorem exists_isLineage_attachedTwice : ∀ r ∈ (attachedTwice.index 0 0).walk 0,
    ∃ chain, (attachedTwice.index 0 0).IsLineage r chain := by
  have houter : (attachedTwice.index 0 0).IsLineage 2 [2] := .top rfl
  have hfirst : (attachedTwice.index 0 0).IsLineage 0 [0, 2] := .inside rfl houter
  have hsecond : (attachedTwice.index 0 0).IsLineage 1 [1, 0, 2] := .inside rfl hfirst
  have hwalk : (attachedTwice.index 0 0).walk 0 = [0, 1] := rfl
  simpa [hwalk] using And.intro ⟨_, hfirst⟩ ⟨_, hsecond⟩

theorem walk_of_analyse_attachedTwice :
    attachedTwice.Wired ∧ 0 < attachedTwice.regions.size ∧ attachedTwice.AcyclicFrom 0 ∧
    ∃ ws', attachedTwice.analyse 0 0 = (ws', .ok ()) ∧ ws'.walk 0 = [0, 1] ∧
      (ws'.walk 0).Nodup ∧ (ws'.walk 0).map ws'.number = [0, 1] ∧
      (∀ r ∈ ws'.walk 0, ws'.IsLineage r (ws'.lineage r)) ∧
      ∀ look title, ∃ drawing clusters outline,
        ws'.draw 0 look title = .ok drawing ∧
        drawing.features = "\tcolorscheme = \"paired12\"\n" ++ clusters ∧
        Outline.read? clusters = some [outline] ∧ outline.numbers = [0, 1] := by
  have hroot : 0 < attachedTwice.regions.size := by decide
  obtain ⟨hnodup, _, hnumber, hends⟩ := wired_attachedTwice.walk_of_analyse hroot
    acyclicFrom_attachedTwice (show attachedTwice.analyse 0 0 = (attachedTwice.index 0 0, .ok ()) by
      rfl)
  obtain ⟨hlineage, hdraw⟩ := hends exists_isLineage_attachedTwice
  exact ⟨wired_attachedTwice, hroot, acyclicFrom_attachedTwice, _, rfl, rfl, hnodup, hnumber,
    hlineage, hdraw⟩

/-- Attached to the first region once more, the second one would be drawn twice. -/
example : ((attachedTwice.attach 0 1).analyse 0 0).2 = .error ⟨"f", .ownedTwice ["%1"]⟩ := by
  rfl

end Workspace

end FlowRegions

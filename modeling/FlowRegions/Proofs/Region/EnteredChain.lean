import FlowRegions.Proofs.Region.Walk
import Mathlib.Logic.Relation

/-!
# Regions entered at one block

From a region one can climb on as long as the next region outwards is entered at a given block. In a
tree the regions met on the way form a chain that ends at one outermost region, and the climb from
any of them ends there as well. An edge leads back if the end of the chain that starts at the owner
of its target is entered at the target and contains its source.
-/

namespace FlowRegions.Workspace

variable {ws : Workspace} {t : RefTree} {b : BlockRef} {r s parent : RegionRef}

/-- Climbing through parents that are entered at the block leads from one region to another. -/
abbrev ClimbsAt (ws : Workspace) (b : BlockRef) : RegionRef → RegionRef → Prop :=
  Relation.ReflTransGen fun inner outer =>
    ws.parent? inner = some outer ∧ ws.isEntry outer b = true

/-- The region at which climbing through parents that are entered at the block ends. -/
def outermostAt (ws : Workspace) (b : BlockRef) (r : RegionRef) : RegionRef :=
  (((ws.lineage r).drop 1).takeWhile (ws.isEntry · b)).getLastD r

theorem isBackEdge_of_regionFor {a : AnalysisRef} {target : BlockRef}
    (h : ws.regionFor a target = some r) (source : BlockRef) :
    ws.isBackEdge a source target = (ws.isEntry (ws.outermostAt target r) target &&
      ws.contains (ws.outermostAt target r) source) := by
  rw [isBackEdge, h]
  rfl

theorem getLastD_takeWhile_cons {α : Type*} (p : α → Bool) (x : α) (xs : List α) (d : α) :
    ((x :: xs).takeWhile p).getLastD d = if p x then (xs.takeWhile p).getLastD x else d := by
  rw [List.takeWhile_cons]
  split
  · exact List.getLastD_cons ..
  · rfl

namespace IsTree

theorem mem_of_parent? (h : ws.IsTree t) (hr : r ∈ t.preorder)
    (hlink : ws.parent? r = some parent) :
    parent ∈ t.preorder ∧ ws.lineage r = r :: ws.lineage parent := by
  obtain ⟨⟨above, u⟩, hu, rfl⟩ := RefTree.exists_place_of_mem hr []
  rw [(h.linked_of_mem_places hu).parent_root] at hlink
  obtain ⟨rest, rfl⟩ := List.head?_eq_some_iff.mp hlink
  rcases RefTree.exists_place_of_suffix hu (List.suffix_cons u.root _) with hnil | hplace
  · cases List.suffix_nil.mp hnil
  · obtain ⟨v, hv, rfl, _⟩ := hplace
    exact ⟨RefTree.root_mem_of_mem_places hv, by rw [h.lineage_eq hu, h.lineage_eq hv]⟩

theorem lineage_of_parent?_eq_none (h : ws.IsTree t) (hr : r ∈ t.preorder)
    (hnone : ws.parent? r = none) : ws.lineage r = [r] := by
  obtain ⟨⟨above, u⟩, hu, rfl⟩ := RefTree.exists_place_of_mem hr []
  rw [(h.linked_of_mem_places hu).parent_root, List.head?_eq_none_iff] at hnone
  rw [h.lineage_eq hu, hnone]

theorem outermostAt_of_parent? (h : ws.IsTree t) (hr : r ∈ t.preorder)
    (hlink : ws.parent? r = some parent) :
    ws.outermostAt b r = if ws.isEntry parent b then ws.outermostAt b parent else r := by
  obtain ⟨hparent, hlineage⟩ := h.mem_of_parent? hr hlink
  obtain ⟨above, habove⟩ := h.exists_lineage_eq_cons hparent
  rw [outermostAt, outermostAt, hlineage, habove]
  exact getLastD_takeWhile_cons _ parent above r

theorem outermostAt_of_parent?_eq_none (h : ws.IsTree t) (hr : r ∈ t.preorder)
    (hnone : ws.parent? r = none) : ws.outermostAt b r = r := by
  rw [outermostAt, h.lineage_of_parent?_eq_none hr hnone]
  rfl

theorem mem_lineage_of_climbsAt (h : ws.IsTree t) (hr : r ∈ t.preorder)
    (hclimb : ws.ClimbsAt b r s) : s ∈ t.preorder ∧ s ∈ ws.lineage r := by
  induction hclimb with
  | refl => exact ⟨hr, h.mem_lineage_self hr⟩
  | @tail middle outer _ hstep ih =>
      obtain ⟨hmiddle, hmem⟩ := ih
      obtain ⟨houter, hlineage⟩ := h.mem_of_parent? hmiddle hstep.1
      refine ⟨houter, (h.lineage_suffix hr hmem).subset ?_⟩
      rw [hlineage]
      exact List.mem_cons_of_mem _ (h.mem_lineage_self houter)

/-- Wherever the climb is taken up again, it ends at the same region. -/
theorem outermostAt_eq_of_climbsAt (h : ws.IsTree t) (hr : r ∈ t.preorder)
    (hclimb : ws.ClimbsAt b r s) : ws.outermostAt b s = ws.outermostAt b r := by
  induction hclimb with
  | refl => rfl
  | tail hbefore hstep ih =>
      have hmiddle := (h.mem_lineage_of_climbsAt hr hbefore).1
      rw [← ih, h.outermostAt_of_parent? hmiddle hstep.1, if_pos hstep.2]

/-- The climb reaches its end, and the parent of the region there is entered elsewhere. -/
theorem climbsAt_outermostAt (h : ws.IsTree t) (b : BlockRef) (hr : r ∈ t.preorder) :
    ws.ClimbsAt b r (ws.outermostAt b r) ∧
      ∀ outer, ws.parent? (ws.outermostAt b r) = some outer → ws.isEntry outer b = false := by
  -- Each step outwards shortens the lineage that is left.
  induction hlength : (ws.lineage r).length generalizing r with
  | zero =>
      obtain ⟨above, habove⟩ := h.exists_lineage_eq_cons hr
      simp [habove] at hlength
  | succ length ih =>
      cases hlink : ws.parent? r with
      | none =>
          rw [h.outermostAt_of_parent?_eq_none hr hlink, hlink]
          exact ⟨.refl, fun _ hnone => nomatch hnone⟩
      | some parent =>
          obtain ⟨hparent, hlineage⟩ := h.mem_of_parent? hr hlink
          rw [h.outermostAt_of_parent? hr hlink]
          cases hentry : ws.isEntry parent b with
          | true =>
              rw [hlineage, List.length_cons, Nat.add_right_cancel_iff] at hlength
              obtain ⟨hclimb, hend⟩ := ih hparent hlength
              exact ⟨hclimb.head ⟨hlink, hentry⟩, hend⟩
          | false =>
              refine ⟨.refl, fun outer houter => ?_⟩
              obtain rfl : parent = outer := Option.some.inj (hlink.symm.trans houter)
              exact hentry

end IsTree

end FlowRegions.Workspace

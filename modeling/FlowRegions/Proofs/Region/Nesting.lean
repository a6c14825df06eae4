import FlowRegions.Proofs.Region.Wiring

/-!
# Walks in a forest

In a forest the walk from a region visits exactly the regions that lead back to it by climbing, each
of them once, and climbing agrees with containment. Two walks are disjoint unless one of them visits
the first region of the other. All of this holds below any region, attached or not.
-/

namespace FlowRegions.Workspace

/-- A walk stays the same if its regions keep their children, whatever is added elsewhere. -/
theorem WalksFrom.walk_congr {ws ws' : Workspace} {root : RegionRef} (h : ws.WalksFrom root)
    (hsize : ws.regions.size ≤ ws'.regions.size)
    (hchildren : ∀ r ∈ ws.walk root, ws'.children r = ws.children r) :
    ws'.walk root = ws.walk root := by
  have hwithin : ∀ (limit : Nat) {r : RegionRef}, ws.Reaches root r →
      ws'.walkWithin limit r = ws.walkWithin limit r := by
    intro limit
    induction limit with
    | zero => exact fun _ => rfl
    | succ limit ih =>
        intro r hr
        rw [walkWithin, walkWithin, hchildren r ((h.mem_walk_iff .refl).mpr hr)]
        apply congrArg (r :: ·)
        apply List.flatMap_congr
        intro child hchild
        exact ih (hr.tail hchild)
  calc ws'.walk root = ws.walkWithin ws'.regions.size root := hwithin _ .refl
    _ = ws.walk root := h.walkWithin_eq_walk .refl hsize

namespace IsForest

variable {ws : Workspace} {r s x : RegionRef}

theorem linksBack (h : ws.IsForest) : ws.LinksBack where
  mem_children r parent hlink := (h.mem_children_iff parent r).mpr hlink
  child_lt r child hchild := lt_of_parent?_eq_some ((h.mem_children_iff r child).mp hchild)

theorem reaches_iff_climbs (h : ws.IsForest) : ws.Reaches r x ↔ ws.Climbs x r := by
  have hlinks : (fun outer inner => inner ∈ ws.children outer) =
      Function.swap fun inner outer : RegionRef => ws.parent? inner = some outer := by
    funext outer inner
    exact propext (h.mem_children_iff outer inner)
  rw [Reaches, hlinks]
  exact Relation.reflTransGen_swap

theorem walksFrom (h : ws.IsForest) (hr : r < ws.regions.size) : ws.WalksFrom r where
  links := h.linksBack
  root_lt := hr
  acyclic := by
    obtain ⟨height, hheight⟩ := h.exists_height
    apply acyclicFrom_of_height height
    intro r child hchild
    exact hheight r child ((h.mem_children_iff r child).mp hchild)

theorem climbs_of_mem_walkWithin (h : ws.IsForest) {limit : Nat}
    (hx : x ∈ ws.walkWithin limit r) : ws.Climbs x r :=
  h.reaches_iff_climbs.mp (reaches_of_mem_walkWithin hx)

theorem mem_walk_iff (h : ws.IsForest) (hr : r < ws.regions.size) :
    x ∈ ws.walk r ↔ ws.Climbs x r := by
  rw [(h.walksFrom hr).mem_walk_iff .refl, h.reaches_iff_climbs]

theorem mem_walk_self (h : ws.IsForest) (hr : r < ws.regions.size) : r ∈ ws.walk r :=
  (h.mem_walk_iff hr).mpr .refl

theorem lt_of_mem_walk (h : ws.IsForest) (hr : r < ws.regions.size) (hx : x ∈ ws.walk r) :
    x < ws.regions.size :=
  (h.walksFrom hr).lt_of_mem_walk hx

theorem containsRegion_iff (h : ws.IsForest) (hr : r < ws.regions.size)
    (hx : x < ws.regions.size) : ws.containsRegion r x = true ↔ x ∈ ws.walk r := by
  rw [containsRegion, List.contains_iff_mem, h.mem_walk_iff hr]
  exact ⟨climbs_of_mem_lineageWithin, h.mem_lineage_of_climbs hx⟩

theorem walk_subset (h : ws.IsForest) (hr : r < ws.regions.size) (hs : s ∈ ws.walk r) :
    ws.walk s ⊆ ws.walk r := by
  intro x hx
  have hclimb := (h.mem_walk_iff (h.lt_of_mem_walk hr hs)).mp hx
  exact (h.mem_walk_iff hr).mpr (hclimb.trans ((h.mem_walk_iff hr).mp hs))

theorem ownedBelow_subset (h : ws.IsForest) (hr : r < ws.regions.size) (hs : s ∈ ws.walk r) :
    ws.ownedBelow s ⊆ ws.ownedBelow r := by
  intro b hb
  obtain ⟨inner, hinner, howned⟩ := mem_ownedBelow.mp hb
  exact mem_ownedBelow.mpr ⟨inner, h.walk_subset hr hs hinner, howned⟩

theorem nodup_walk (h : ws.IsForest) (hr : r < ws.regions.size) : (ws.walk r).Nodup := by
  obtain ⟨t, rfl, hlinked⟩ := h.exists_linked hr
  have hnodup := hlinked.nodup_preorder h
  have hsub : t.preorder ⊆ List.range ws.regions.size := by
    intro x hx
    exact List.mem_range.mpr (hlinked.lt_of_mem hx)
  have hlength := (hnodup.subperm hsub).length_le
  rw [List.length_range] at hlength
  rwa [walk, hlinked.walkWithin_eq hlength]

/-- What two walks share lies on one climb, so the outer of the two first regions is on it too. -/
theorem mem_walk_or_disjoint (h : ws.IsForest) (hr : r < ws.regions.size)
    (hs : s < ws.regions.size) :
    s ∈ ws.walk r ∨ r ∈ ws.walk s ∨ (ws.walk r).Disjoint (ws.walk s) := by
  by_cases hdisjoint : (ws.walk r).Disjoint (ws.walk s)
  · exact Or.inr (Or.inr hdisjoint)
  · obtain ⟨x, hxr, hxs⟩ : ∃ x, x ∈ ws.walk r ∧ x ∈ ws.walk s := by
      simpa [List.Disjoint] using hdisjoint
    rw [h.mem_walk_iff hr] at hxr
    rw [h.mem_walk_iff hs] at hxs
    rcases Relation.ReflTransGen.total_of_right_unique rightUnique_parent? hxr hxs with hup | hup
    · exact Or.inr (Or.inl ((h.mem_walk_iff hs).mpr hup))
    · exact Or.inl ((h.mem_walk_iff hr).mpr hup)

theorem getElem?_walk_zero (h : ws.IsForest) (hr : r < ws.regions.size) :
    (ws.walk r)[0]? = some r := by
  rw [(h.walksFrom hr).walk_eq_cons .refl]
  rfl

end IsForest

end FlowRegions.Workspace

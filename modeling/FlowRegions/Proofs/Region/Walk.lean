import FlowRegions.Proofs.Region.RefTree
import Mathlib.Data.List.Perm.Subperm

/-!
# Region trees in a workspace

If the children and the parents recorded in a workspace are those of one tree, then the walk from a
region lists its subtree, its lineage lists what lies above it, and one region contains another if
the walk from the first reaches the second.
-/

namespace FlowRegions.Workspace

variable {ws : Workspace}

/-! ### Frame -/

theorem walkWithin_congr {ws ws' : Workspace} (h : ∀ r, ws'.children r = ws.children r)
    (limit : Nat) (r : RegionRef) : ws'.walkWithin limit r = ws.walkWithin limit r := by
  induction limit generalizing r with
  | zero => rfl
  | succ limit ih =>
      rw [walkWithin, walkWithin, h r]
      apply congrArg (r :: ·)
      apply List.flatMap_congr
      intro child _
      exact ih child

theorem walk_congr {ws ws' : Workspace} (hsize : ws'.regions.size = ws.regions.size)
    (h : ∀ r, ws'.children r = ws.children r) (r : RegionRef) : ws'.walk r = ws.walk r := by
  rw [walk, walk, hsize, walkWithin_congr h]

theorem lineageWithin_succ (limit : Nat) (r : RegionRef) :
    ws.lineageWithin (limit + 1) r =
      r :: (ws.parent? r).elim [] (ws.lineageWithin limit) := by
  rw [lineageWithin]
  cases ws.parent? r <;> rfl

theorem lineageWithin_congr {ws ws' : Workspace} (h : ∀ r, ws'.parent? r = ws.parent? r)
    (limit : Nat) (r : RegionRef) : ws'.lineageWithin limit r = ws.lineageWithin limit r := by
  induction limit generalizing r with
  | zero => rfl
  | succ limit ih =>
      rw [lineageWithin_succ, lineageWithin_succ, h r, funext ih]

theorem lineage_congr {ws ws' : Workspace} (hsize : ws'.regions.size = ws.regions.size)
    (h : ∀ r, ws'.parent? r = ws.parent? r) (r : RegionRef) : ws'.lineage r = ws.lineage r := by
  rw [lineage, lineage, hsize, lineageWithin_congr h]

/-! ### Recorded trees -/

/-- The workspace records the tree, whose root has the given parent. -/
inductive Linked (ws : Workspace) : Option RegionRef → RefTree → Prop
  | node {parent? : Option RegionRef} {r : RegionRef} {children : List RefTree}
      (inside : r < ws.regions.size) (parent : ws.parent? r = parent?)
      (children_eq : ws.children r = children.map RefTree.root)
      (below : ∀ child ∈ children, Linked ws (some r) child) :
      Linked ws parent? (.node r children)

/-- The workspace records the whole tree `t`, and no region takes two places in it. -/
structure IsTree (ws : Workspace) (t : RefTree) : Prop where
  linked : ws.Linked none t
  nodup : t.preorder.Nodup

namespace Linked

theorem congr {ws ws' : Workspace} {parent? : Option RegionRef} {t : RefTree}
    (h : ws.Linked parent? t) (hsize : ws'.regions.size = ws.regions.size)
    (hparent : ∀ r, ws'.parent? r = ws.parent? r)
    (hchildren : ∀ r, ws'.children r = ws.children r) : ws'.Linked parent? t := by
  induction h with
  | node inside parent children_eq below ih =>
      exact .node (hsize ▸ inside) ((hparent _).trans parent) ((hchildren _).trans children_eq) ih

theorem root_lt {parent? : Option RegionRef} {t : RefTree} (h : ws.Linked parent? t) :
    t.root < ws.regions.size := by
  cases h with
  | node inside _ _ _ => exact inside

theorem parent_root {parent? : Option RegionRef} {t : RefTree} (h : ws.Linked parent? t) :
    ws.parent? t.root = parent? := by
  cases h with
  | node _ parent _ _ => exact parent

theorem eq_of_map_root_eq {xs ys : List RefTree} (h : xs.map RefTree.root = ys.map RefTree.root)
    (hinj : ∀ x ∈ xs, ∀ y ∈ ys, x.root = y.root → x = y) : xs = ys := by
  induction xs generalizing ys with
  | nil =>
      cases ys with
      | nil => rfl
      | cons => cases h
  | cons x xs ih =>
      cases ys with
      | nil => cases h
      | cons y ys =>
          obtain ⟨hroot, hrest⟩ := List.cons.inj h
          have htail : xs = ys := by
            apply ih hrest
            intro x hx y hy
            exact hinj x (List.mem_cons_of_mem _ hx) y (List.mem_cons_of_mem _ hy)
          rw [hinj x List.mem_cons_self y List.mem_cons_self hroot, htail]

/-- A tree is determined by its root and the recorded children. -/
theorem eq_of_children {ws ws' : Workspace} {parent? parent?' : Option RegionRef} {t t' : RefTree}
    (h : ws.Linked parent? t) (h' : ws'.Linked parent?' t') (hroot : t'.root = t.root)
    (hchildren : ∀ r ∈ t.preorder, ws'.children r = ws.children r) : t' = t := by
  induction h generalizing parent?' t' with
  | @node parent? r children inside parent children_eq below ih =>
      cases h' with
      | @node _ r' children' _ _ children_eq' below' =>
          obtain rfl : r' = r := hroot
          have hroots : children'.map RefTree.root = children.map RefTree.root := by
            rw [← children_eq, ← children_eq', hchildren r' (by simp)]
          rw [eq_of_map_root_eq hroots fun child' hchild' child hchild hsame => ?_]
          refine ih child hchild (below' child' hchild') hsame fun r hr => hchildren r ?_
          rw [RefTree.preorder_node]
          exact List.mem_cons_of_mem _ (List.mem_flatMap.mpr ⟨child, hchild, hr⟩)

theorem of_mem_places {parent? : Option RegionRef} {t u : RefTree} {above b : List RegionRef}
    (h : ws.Linked parent? t) (habove : above.head? = parent?) (hu : (b, u) ∈ t.places above) :
    ws.Linked b.head? u := by
  induction h generalizing above with
  | @node parent? r children inside parent children_eq below ih =>
      rw [RefTree.places_node, List.mem_cons] at hu
      rcases hu with hu | hu
      · obtain ⟨rfl, rfl⟩ := Prod.mk.injEq .. ▸ hu
        rw [habove]
        exact .node inside parent children_eq below
      · obtain ⟨child, hchild, hu⟩ := List.mem_flatMap.mp hu
        exact ih child hchild rfl hu

theorem lt_of_mem {parent? : Option RegionRef} {t : RefTree} (h : ws.Linked parent? t)
    {r : RegionRef} (hr : r ∈ t.preorder) : r < ws.regions.size := by
  obtain ⟨⟨b, u⟩, hu, rfl⟩ := RefTree.exists_place_of_mem hr parent?.toList
  have hlinked := h.of_mem_places (by cases parent? <;> rfl) hu
  exact hlinked.root_lt

theorem walkWithin_eq {parent? : Option RegionRef} {t : RefTree} (h : ws.Linked parent? t)
    {limit : Nat} (hlimit : t.preorder.length ≤ limit) :
    ws.walkWithin limit t.root = t.preorder := by
  induction h generalizing limit with
  | @node parent? r children inside parent children_eq below ih =>
      rw [RefTree.preorder_node, List.length_cons] at hlimit
      obtain ⟨limit, rfl⟩ : ∃ k, limit = k + 1 := ⟨limit - 1, by omega⟩
      rw [RefTree.root_node, walkWithin, children_eq, List.flatMap_map, RefTree.preorder_node]
      apply congrArg (r :: ·)
      apply List.flatMap_congr
      intro child hchild
      have hlen := RefTree.length_preorder_le_of_mem hchild
      exact ih child hchild (by omega)

/-- Climbing from a subtree meets the references above it, if the climb from the parent of the whole
tree meets those above the tree. -/
theorem lineageWithin_eq {parent? : Option RegionRef} {t u : RefTree} {above b : List RegionRef}
    (h : ws.Linked parent? t)
    (habove : ∀ limit, above.length ≤ limit →
      parent?.elim [] (ws.lineageWithin limit) = above)
    (hu : (b, u) ∈ t.places above) {limit : Nat} (hlimit : b.length < limit) :
    ws.lineageWithin limit u.root = u.root :: b := by
  induction h generalizing above with
  | @node parent? r children inside parent children_eq below ih =>
      have hself : ∀ limit, above.length < limit → ws.lineageWithin limit r = r :: above := by
        intro limit hlt
        obtain ⟨limit, rfl⟩ : ∃ k, limit = k + 1 := ⟨limit - 1, by omega⟩
        rw [lineageWithin_succ, parent]
        exact congrArg (r :: ·) (habove limit (by omega))
      rw [RefTree.places_node, List.mem_cons] at hu
      rcases hu with hu | hu
      · obtain ⟨rfl, rfl⟩ := Prod.mk.injEq .. ▸ hu
        exact hself limit hlimit
      · obtain ⟨child, hchild, hu⟩ := List.mem_flatMap.mp hu
        exact ih child hchild (fun limit hle => hself limit hle) hu

end Linked

namespace IsTree

variable {t : RefTree}

theorem lt_of_mem (h : ws.IsTree t) {r : RegionRef} (hr : r ∈ t.preorder) :
    r < ws.regions.size :=
  h.linked.lt_of_mem hr

theorem length_preorder_le (h : ws.IsTree t) : t.preorder.length ≤ ws.regions.size := by
  -- So the bounds on walks and lineages suffice.
  have hsub : t.preorder ⊆ List.range ws.regions.size := by
    intro r hr
    exact List.mem_range.mpr (h.lt_of_mem hr)
  simpa using (h.nodup.subperm hsub).length_le

theorem linked_of_mem_places (h : ws.IsTree t) {u : RefTree} {b : List RegionRef}
    (hu : (b, u) ∈ t.places []) : ws.Linked b.head? u :=
  h.linked.of_mem_places rfl hu

theorem walk_eq (h : ws.IsTree t) {u : RefTree} {b : List RegionRef}
    (hu : (b, u) ∈ t.places []) : ws.walk u.root = u.preorder := by
  have hlen := RefTree.length_add_length_le_of_mem_places hu
  have hsize := h.length_preorder_le
  rw [List.length_nil] at hlen
  exact (h.linked_of_mem_places hu).walkWithin_eq (by omega)

theorem walk_root (h : ws.IsTree t) : ws.walk t.root = t.preorder :=
  h.walk_eq (t.self_mem_places [])

theorem lineage_eq (h : ws.IsTree t) {u : RefTree} {b : List RegionRef}
    (hu : (b, u) ∈ t.places []) : ws.lineage u.root = u.root :: b := by
  have hlen := RefTree.length_add_length_le_of_mem_places hu
  have hpos := List.length_pos_of_mem u.root_mem_preorder
  have hsize := h.length_preorder_le
  rw [List.length_nil] at hlen
  exact h.linked.lineageWithin_eq (fun _ _ => rfl) hu (by omega)

theorem depth_eq (h : ws.IsTree t) {u : RefTree} {b : List RegionRef}
    (hu : (b, u) ∈ t.places []) : ws.depth u.root = b.length := by
  rw [depth, h.lineage_eq hu, List.length_cons, Nat.add_sub_cancel]

theorem mem_walk_self (h : ws.IsTree t) {r : RegionRef} (hr : r ∈ t.preorder) :
    r ∈ ws.walk r := by
  obtain ⟨⟨b, u⟩, hu, rfl⟩ := RefTree.exists_place_of_mem hr []
  rw [h.walk_eq hu]
  exact u.root_mem_preorder

theorem walk_subset (h : ws.IsTree t) {r : RegionRef} (hr : r ∈ t.preorder) :
    ws.walk r ⊆ t.preorder := by
  obtain ⟨⟨b, u⟩, hu, rfl⟩ := RefTree.exists_place_of_mem hr []
  rw [h.walk_eq hu]
  exact RefTree.preorder_subset_of_mem_places hu

theorem children_eq (h : ws.IsTree t) {r : RegionRef} {children : List RefTree}
    {b : List RegionRef} (hu : (b, .node r children) ∈ t.places []) :
    ws.children r = children.map RefTree.root := by
  cases h.linked_of_mem_places hu with
  | node _ _ children_eq _ => exact children_eq

theorem mem_of_mem_children (h : ws.IsTree t) {r child : RegionRef} (hr : r ∈ t.preorder)
    (hchild : child ∈ ws.children r) : child ∈ t.preorder := by
  obtain ⟨⟨b, u⟩, hu, rfl⟩ := RefTree.exists_place_of_mem hr []
  obtain ⟨r, children⟩ := u
  rw [RefTree.root_node, h.children_eq hu] at hchild
  obtain ⟨c, hc, rfl⟩ := List.mem_map.mp hchild
  exact RefTree.root_mem_of_mem_places (RefTree.child_mem_places hu hc)

theorem depth_child (h : ws.IsTree t) {r child : RegionRef} (hr : r ∈ t.preorder)
    (hchild : child ∈ ws.children r) : ws.depth child = ws.depth r + 1 := by
  obtain ⟨⟨b, u⟩, hu, rfl⟩ := RefTree.exists_place_of_mem hr []
  obtain ⟨r, children⟩ := u
  rw [RefTree.root_node, h.children_eq hu] at hchild
  obtain ⟨c, hc, rfl⟩ := List.mem_map.mp hchild
  rw [h.depth_eq (RefTree.child_mem_places hu hc), h.depth_eq hu, List.length_cons]

theorem walk_eq_cons (h : ws.IsTree t) {r : RegionRef} (hr : r ∈ t.preorder) :
    ws.walk r = r :: (ws.children r).flatMap ws.walk := by
  obtain ⟨⟨b, u⟩, hu, rfl⟩ := RefTree.exists_place_of_mem hr []
  obtain ⟨r, children⟩ := u
  rw [h.walk_eq hu, RefTree.root_node, h.children_eq hu, RefTree.preorder_node, List.flatMap_map]
  apply congrArg (r :: ·)
  apply List.flatMap_congr
  intro child hchild
  exact (h.walk_eq (RefTree.child_mem_places hu hchild)).symm

/-! ### Lineages -/

theorem exists_lineage_eq_cons (h : ws.IsTree t) {r : RegionRef} (hr : r ∈ t.preorder) :
    ∃ above, ws.lineage r = r :: above := by
  obtain ⟨⟨b, u⟩, hu, rfl⟩ := RefTree.exists_place_of_mem hr []
  exact ⟨b, h.lineage_eq hu⟩

theorem mem_lineage_self (h : ws.IsTree t) {r : RegionRef} (hr : r ∈ t.preorder) :
    r ∈ ws.lineage r := by
  obtain ⟨above, habove⟩ := h.exists_lineage_eq_cons hr
  rw [habove]
  exact List.mem_cons_self

theorem mem_of_mem_lineage (h : ws.IsTree t) {r x : RegionRef} (hx : x ∈ t.preorder)
    (hr : r ∈ ws.lineage x) : r ∈ t.preorder := by
  obtain ⟨⟨b, u⟩, hu, rfl⟩ := RefTree.exists_place_of_mem hx []
  rw [h.lineage_eq hu] at hr
  obtain ⟨c, v, hv, rfl, _⟩ := RefTree.exists_place_of_mem_above hu hr
  exact RefTree.root_mem_of_mem_places hv

/-- The lineage of a region around another one is the end of the lineage of that one. -/
theorem lineage_suffix (h : ws.IsTree t) {r x : RegionRef} (hx : x ∈ t.preorder)
    (hr : r ∈ ws.lineage x) : ws.lineage r <:+ ws.lineage x := by
  obtain ⟨⟨b, u⟩, hu, rfl⟩ := RefTree.exists_place_of_mem hx []
  rw [h.lineage_eq hu] at hr ⊢
  obtain ⟨c, v, hv, rfl, _, hsuffix⟩ := RefTree.exists_place_of_mem_above hu hr
  rwa [h.lineage_eq hv]

theorem nested_of_mem_lineage (h : ws.IsTree t) {r s x : RegionRef} (hx : x ∈ t.preorder)
    (hr : r ∈ ws.lineage x) (hs : s ∈ ws.lineage x) : r ∈ ws.lineage s ∨ s ∈ ws.lineage r := by
  have hrself := h.mem_lineage_self (h.mem_of_mem_lineage hx hr)
  have hsself := h.mem_lineage_self (h.mem_of_mem_lineage hx hs)
  rcases List.suffix_or_suffix_of_suffix (h.lineage_suffix hx hr) (h.lineage_suffix hx hs) with
    hsuffix | hsuffix
  · exact Or.inl (hsuffix.subset hrself)
  · exact Or.inr (hsuffix.subset hsself)

/-- Every step outwards along a lineage lowers the depth by one. -/
theorem depth_add_of_getElem?_lineage (h : ws.IsTree t) {r s : RegionRef} {i : Nat}
    (hr : r ∈ t.preorder) (hs : (ws.lineage r)[i]? = some s) : ws.depth s + i = ws.depth r := by
  obtain ⟨⟨b, u⟩, hu, rfl⟩ := RefTree.exists_place_of_mem hr []
  rw [h.lineage_eq hu] at hs
  obtain ⟨hi, rfl⟩ := List.getElem?_eq_some_iff.mp hs
  have hdrop := List.drop_eq_getElem_cons hi
  have hsuffix : (u.root :: b)[i] :: (u.root :: b).drop (i + 1) <:+ u.root :: b := by
    rw [← hdrop]
    exact List.drop_suffix i _
  rcases RefTree.exists_place_of_suffix hu hsuffix with hnil | ⟨v, hv, hroot, _⟩
  · cases List.suffix_nil.mp hnil
  · have hlength := congrArg List.length hdrop
    rw [List.length_drop, List.length_cons, List.length_cons] at hlength
    rw [List.length_cons] at hi
    rw [← hroot, h.depth_eq hv, h.depth_eq hu]
    omega

theorem depth_of_mem_take_lineage (h : ws.IsTree t) {r s : RegionRef} {n : Nat}
    (hr : r ∈ t.preorder) (hs : s ∈ ((ws.lineage r).drop 1).take n) :
    ws.depth s < ws.depth r ∧ ws.depth r ≤ ws.depth s + n := by
  obtain ⟨i, hi⟩ := List.mem_iff_getElem?.mp hs
  rw [List.getElem?_take, List.getElem?_drop] at hi
  split at hi
  · next hlt =>
      have hdepth := h.depth_add_of_getElem?_lineage hr hi
      omega
  · cases hi

theorem depth_lt_of_mem_lineage (h : ws.IsTree t) {r x : RegionRef} (hx : x ∈ t.preorder)
    (hr : r ∈ ws.lineage x) (hne : r ≠ x) : ws.depth r < ws.depth x := by
  obtain ⟨i, hi⟩ := List.mem_iff_getElem?.mp hr
  have hdepth := h.depth_add_of_getElem?_lineage hx hi
  cases i with
  | zero =>
      obtain ⟨above, habove⟩ := h.exists_lineage_eq_cons hx
      rw [habove] at hi
      exact absurd (Option.some.inj hi).symm hne
  | succ i => omega

/-! ### Containment -/

/-- Climbing from the inner region meets the outer one exactly if walking from the outer region
meets the inner one. -/
theorem containsRegion_iff (h : ws.IsTree t) {outer inner : RegionRef}
    (houter : outer ∈ t.preorder) (hinner : inner ∈ t.preorder) :
    ws.containsRegion outer inner = true ↔ inner ∈ ws.walk outer := by
  rw [containsRegion, List.contains_iff_mem]
  constructor
  · intro hmem
    obtain ⟨⟨b, u⟩, hu, rfl⟩ := RefTree.exists_place_of_mem hinner []
    rw [h.lineage_eq hu] at hmem
    obtain ⟨c, v, hv, rfl, hmem, _⟩ := RefTree.exists_place_of_mem_above hu hmem
    rwa [h.walk_eq hv]
  · intro hmem
    obtain ⟨⟨b, u⟩, hu, rfl⟩ := RefTree.exists_place_of_mem houter []
    rw [h.walk_eq hu] at hmem
    obtain ⟨⟨c, v⟩, hv, rfl⟩ := RefTree.exists_place_of_mem hmem b
    rw [h.lineage_eq (RefTree.mem_places_trans hu hv)]
    exact RefTree.root_mem_of_mem_places_cons hv

end IsTree

end FlowRegions.Workspace

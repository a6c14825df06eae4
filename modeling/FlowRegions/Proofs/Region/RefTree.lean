import FlowRegions.Region.Query
import Mathlib.Data.List.Nodup
import Mathlib.Algebra.Order.BigOperators.Group.List
import Mathlib.Algebra.Order.Ring.Nat

/-!
# Trees of references

A workspace stores a region tree twice, through the children and through the parents of its
regions. Here the same tree is data. Where a workspace holds such a tree, walking downwards and
climbing outwards are its two traversals, and the bounds on both never cut them short.
-/

namespace FlowRegions

/-- The references of the regions of a tree, nested as the regions nest. -/
inductive RefTree where
  | node (root : RegionRef) (children : List RefTree)

namespace RefTree

@[elab_as_elim, induction_eliminator]
theorem induct {motive : RefTree → Prop}
    (node : ∀ r children, (∀ child ∈ children, motive child) → motive (.node r children)) :
    ∀ t, motive t
  | .node r children => node r children fun child _ => induct node child

def root : RefTree → RegionRef
  | node r _ => r

@[simp] theorem root_node (r : RegionRef) (children : List RefTree) :
    (node r children).root = r := rfl

/-- The references of a tree, each before those below it. -/
def preorder : RefTree → List RegionRef
  | node r children => r :: children.flatMap preorder

@[simp] theorem preorder_node (r : RegionRef) (children : List RefTree) :
    (node r children).preorder = r :: children.flatMap preorder := by
  rw [preorder]

/-- The subtrees of a tree in the order of their roots. Each comes with the references above it,
the nearest first. -/
def places (above : List RegionRef) : RefTree → List (List RegionRef × RefTree)
  | node r children => (above, node r children) :: children.flatMap (places (r :: above))

@[simp] theorem places_node (above : List RegionRef) (r : RegionRef) (children : List RefTree) :
    (node r children).places above =
      (above, node r children) :: children.flatMap (places (r :: above)) := by
  rw [places]

theorem root_mem_preorder (t : RefTree) : t.root ∈ t.preorder := by
  cases t
  simp

theorem self_mem_places (t : RefTree) (above : List RegionRef) :
    (above, t) ∈ t.places above := by
  cases t
  simp

theorem length_preorder_le_of_mem {children : List RefTree} {child : RefTree}
    (h : child ∈ children) :
    child.preorder.length ≤ (children.flatMap preorder).length := by
  rw [List.length_flatMap]
  exact List.le_sum_of_mem (List.mem_map.mpr ⟨child, h, rfl⟩)

@[simp] theorem map_root_places (t : RefTree) (above : List RegionRef) :
    (t.places above).map (·.2.root) = t.preorder := by
  induction t generalizing above with
  | node r children ih =>
      rw [places_node, preorder_node, List.map_cons, List.map_flatMap]
      exact congrArg (r :: ·) (List.flatMap_congr fun child hchild => ih child hchild _)

theorem exists_place_of_mem {t : RefTree} {r : RegionRef} (h : r ∈ t.preorder)
    (above : List RegionRef) : ∃ place ∈ t.places above, place.2.root = r := by
  rw [← map_root_places t above] at h
  exact List.mem_map.mp h

theorem root_mem_of_mem_places {t u : RefTree} {above b : List RegionRef}
    (h : (b, u) ∈ t.places above) : u.root ∈ t.preorder := by
  rw [← map_root_places t above]
  exact List.mem_map.mpr ⟨_, h, rfl⟩

theorem mem_places_trans {t u v : RefTree} {above b c : List RegionRef}
    (hu : (b, u) ∈ t.places above) (hv : (c, v) ∈ u.places b) : (c, v) ∈ t.places above := by
  induction t generalizing above with
  | node r children ih =>
      rw [places_node, List.mem_cons] at hu
      rcases hu with hu | hu
      · obtain ⟨rfl, rfl⟩ := Prod.mk.injEq .. ▸ hu
        exact hv
      · obtain ⟨child, hchild, hu⟩ := List.mem_flatMap.mp hu
        rw [places_node]
        exact List.mem_cons_of_mem _ (List.mem_flatMap.mpr ⟨child, hchild, ih child hchild hu⟩)

theorem child_mem_places {t child : RefTree} {r : RegionRef} {children : List RefTree}
    {above b : List RegionRef} (h : (b, node r children) ∈ t.places above)
    (hchild : child ∈ children) : (r :: b, child) ∈ t.places above := by
  apply mem_places_trans h
  rw [places_node]
  apply List.mem_cons_of_mem
  exact List.mem_flatMap.mpr ⟨child, hchild, child.self_mem_places _⟩

theorem preorder_subset_of_mem_places {t u : RefTree} {above b : List RegionRef}
    (h : (b, u) ∈ t.places above) : u.preorder ⊆ t.preorder := by
  intro r hr
  obtain ⟨⟨c, v⟩, hv, rfl⟩ := exists_place_of_mem hr b
  exact root_mem_of_mem_places (mem_places_trans h hv)

/-- A subtree and the references above it are together no longer than the whole tree. -/
theorem length_add_length_le_of_mem_places {t u : RefTree} {above b : List RegionRef}
    (h : (b, u) ∈ t.places above) :
    b.length + u.preorder.length ≤ above.length + t.preorder.length := by
  induction t generalizing above with
  | node r children ih =>
      rw [places_node, List.mem_cons] at h
      rcases h with h | h
      · obtain ⟨rfl, rfl⟩ := Prod.mk.injEq .. ▸ h
        exact le_refl _
      · obtain ⟨child, hchild, h⟩ := List.mem_flatMap.mp h
        have hle := ih child hchild h
        have hlen := length_preorder_le_of_mem hchild
        simp only [preorder_node, List.length_cons] at hle ⊢
        omega

theorem above_suffix_of_mem_places {t u : RefTree} {above b : List RegionRef}
    (h : (b, u) ∈ t.places above) : above <:+ b := by
  induction t generalizing above with
  | node r children ih =>
      rw [places_node, List.mem_cons] at h
      rcases h with h | h
      · obtain ⟨rfl, rfl⟩ := Prod.mk.injEq .. ▸ h
        exact List.suffix_refl b
      · obtain ⟨child, hchild, h⟩ := List.mem_flatMap.mp h
        exact (List.suffix_cons r above).trans (ih child hchild h)

theorem root_mem_of_mem_places_cons {t u : RefTree} {above b : List RegionRef}
    (h : (b, u) ∈ t.places above) : t.root ∈ u.root :: b := by
  cases t with
  | node r children =>
      rw [places_node, List.mem_cons] at h
      rcases h with h | h
      · obtain ⟨rfl, rfl⟩ := Prod.mk.injEq .. ▸ h
        exact List.mem_cons_self
      · obtain ⟨child, hchild, h⟩ := List.mem_flatMap.mp h
        exact List.mem_cons_of_mem _ ((above_suffix_of_mem_places h).subset List.mem_cons_self)

/-- What begins the references at and above a subtree, or an end of them, is the root of a subtree
around it, or lies above the whole tree. -/
theorem exists_place_of_suffix {t u : RefTree} {above b c : List RegionRef} {r : RegionRef}
    (h : (b, u) ∈ t.places above) (hr : r :: c <:+ u.root :: b) :
    r :: c <:+ above ∨ ∃ v, (c, v) ∈ t.places above ∧ v.root = r ∧ u.root ∈ v.preorder := by
  induction t generalizing above with
  | node s children ih =>
      have hself := self_mem_places (node s children) above
      have hbelow := root_mem_of_mem_places h
      have hhere : r :: c <:+ s :: above → r :: c <:+ above ∨
          ∃ v, (c, v) ∈ (node s children).places above ∧ v.root = r ∧ u.root ∈ v.preorder := by
        intro hsuffix
        rcases List.suffix_cons_iff.mp hsuffix with heq | hsuffix
        · obtain ⟨rfl, rfl⟩ := List.cons.inj heq
          exact Or.inr ⟨_, hself, rfl, hbelow⟩
        · exact Or.inl hsuffix
      rw [places_node, List.mem_cons] at h
      rcases h with h | h
      · obtain ⟨rfl, rfl⟩ := Prod.mk.injEq .. ▸ h
        exact hhere hr
      · obtain ⟨child, hchild, h⟩ := List.mem_flatMap.mp h
        rcases ih child hchild h with hsuffix | ⟨v, hv, hroot, hu⟩
        · exact hhere hsuffix
        · refine Or.inr ⟨v, ?_, hroot, hu⟩
          rw [places_node]
          exact List.mem_cons_of_mem _ (List.mem_flatMap.mpr ⟨child, hchild, hv⟩)

theorem exists_place_of_mem_above {t u : RefTree} {b : List RegionRef} {r : RegionRef}
    (h : (b, u) ∈ t.places []) (hr : r ∈ u.root :: b) :
    ∃ c v, (c, v) ∈ t.places [] ∧ v.root = r ∧ u.root ∈ v.preorder ∧ r :: c <:+ u.root :: b := by
  obtain ⟨front, c, hsplit⟩ := List.append_of_mem hr
  have hsuffix : r :: c <:+ u.root :: b := ⟨front, hsplit.symm⟩
  rcases exists_place_of_suffix h hsuffix with hnil | ⟨v, hv, hroot, hu⟩
  · cases List.suffix_nil.mp hnil
  · exact ⟨c, v, hv, hroot, hu, hsuffix⟩

end RefTree

end FlowRegions

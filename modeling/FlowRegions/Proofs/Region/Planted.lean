import FlowRegions.Proofs.Region.Planting
import FlowRegions.Proofs.Region.Partition

/-!
# Workspaces that hold a planted tree

Where the regions of a workspace from some position on are those of a table, the queries on them can
be read off the planted tree: what a region says about itself, the walk from it, what its subtree
owns, and how deep it lies.
-/

namespace FlowRegions

/-- A region apart from what analyses write into it. -/
def Region.core (region : Region) : Region :=
  { region with number := -1, analysis? := none }

/-- The regions of the workspace from `base` on are the given ones, whatever analyses have written
into them. -/
def Workspace.Holds (ws : Workspace) (base : RegionRef) (regions : List Region) : Prop :=
  ∀ i < regions.length, ws.regions[base + i]?.map Region.core = regions[i]?.map Region.core

namespace Workspace.Holds

variable {ws : Workspace} {base : RegionRef}

theorem left {xs ys : List Region} (h : ws.Holds base (xs ++ ys)) : ws.Holds base xs := by
  intro i hi
  rw [h i (by rw [List.length_append]; omega), List.getElem?_append_left hi]

theorem right {xs ys : List Region} (h : ws.Holds base (xs ++ ys)) :
    ws.Holds (base + xs.length) ys := by
  intro i hi
  rw [Nat.add_assoc, h (xs.length + i) (by rw [List.length_append]; omega),
    List.getElem?_append_right (by omega), Nat.add_sub_cancel_left]

theorem head {region : Region} {rest : List Region} (h : ws.Holds base (region :: rest)) :
    ws.regions[base]?.map Region.core = some region.core :=
  h 0 (by simp)

theorem tail {region : Region} {rest : List Region} (h : ws.Holds base (region :: rest)) :
    ws.Holds (base + 1) rest := by
  have hsplit : ws.Holds base ([region] ++ rest) := h
  exact hsplit.right

theorem of_regions_eq {regions : List Region} (h : ws.regions = regions.toArray) :
    ws.Holds 0 regions := by
  intro i _
  rw [h, Nat.zero_add, List.getElem?_toArray]

theorem index {regions : List Region} (h : ws.Holds base regions) (g : GraphRef)
    (root : RegionRef) : (ws.index g root).Holds base regions := by
  intro i hi
  rw [map_getElem?_index ws g root Region.core fun _ _ _ => rfl]
  exact h i hi

theorem map_head {β : Type*} (view : Region → β) (hview : ∀ region, view region.core = view region)
    {region : Region} {rest : List Region} (h : ws.Holds base (region :: rest)) :
    ws.regions[base]?.map view = some (view region) := by
  have hhead := congrArg (Option.map view) h.head
  rw [Option.map_map, Option.map_some, hview] at hhead
  rw [← hhead]
  exact congrArg (Option.map · _) (funext fun found => (hview found).symm)

theorem flatMap_owned {regions : List Region}
    (h : ws.Holds base regions) :
    (List.range' base regions.length).flatMap ws.owned = regions.flatMap (·.owned) := by
  induction regions generalizing base with
  | nil => rfl
  | cons region rest ih =>
      have howned : ws.owned base = region.owned := by
        rw [Workspace.owned, h.map_head (·.owned) fun _ => rfl]
        rfl
      rw [List.length_cons, List.range'_succ, List.flatMap_cons, List.flatMap_cons, ih h.tail,
        howned]

end Workspace.Holds

/-- The blocks that a header mentions have numbers below `count`. -/
structure RegionHeader.Within (count : Nat) (header : RegionHeader) : Prop where
  entry_lt : header.entry < count
  exit_lt : ∀ exit ∈ header.exit?, exit < count
  owned_lt : ∀ index ∈ header.owned, index < count

namespace RegionTree

variable {ws : Workspace} {g : GraphRef}

/-! ### References -/

mutual

/-- The references of a tree whose outermost region gets the reference `base`. -/
def refs (base : RegionRef) : RegionTree → RefTree
  | .node _ children => .node base (refsChildren (base + 1) children)

def refsChildren (base : RegionRef) : List RegionTree → List RefTree
  | [] => []
  | child :: rest => refs base child :: refsChildren (base + child.size) rest

end

@[simp] theorem root_refs (base : RegionRef) (t : RegionTree) : (t.refs base).root = base := by
  cases t
  rfl

theorem map_root_refsChildren (base : RegionRef) (children : List RegionTree) :
    (refsChildren base children).map RefTree.root = roots base children := by
  induction children generalizing base with
  | nil => rfl
  | cons child rest ih =>
      rw [refsChildren, roots, List.map_cons, root_refs, ih]

mutual

theorem preorder_refs (base : RegionRef) :
    ∀ t : RegionTree, (t.refs base).preorder = List.range' base t.size
  | .node header children => by
    rw [refs, RefTree.preorder_node, flatMap_preorder_refsChildren, size, List.range'_succ]

theorem flatMap_preorder_refsChildren (base : RegionRef) :
    ∀ children : List RegionTree, (refsChildren base children).flatMap RefTree.preorder =
      List.range' base (sizeChildren children)
  | [] => rfl
  | child :: rest => by
    rw [refsChildren, List.flatMap_cons, preorder_refs, flatMap_preorder_refsChildren, sizeChildren,
      ← List.range'_append_1]

end

mutual

theorem linked_refs {parent? : Option RegionRef} {base : RegionRef} :
    ∀ t : RegionTree, ws.Holds base (t.table g parent? base) → ws.Linked parent? (t.refs base)
  | .node header children, h => by
    rw [table] at h
    have hparent := h.map_head (·.parent?) fun _ => rfl
    have hchildren := h.map_head (·.children) fun _ => rfl
    refine .node ?_ ?_ ?_ (linked_refsChildren children h.tail)
    · obtain ⟨region, hregion, _⟩ := Option.map_eq_some_iff.mp hparent
      exact (Array.getElem?_eq_some_iff.mp hregion).1
    · rw [Workspace.parent?, Workspace.bind_getElem?_eq_map_join, hparent]
      rfl
    · rw [Workspace.children, hchildren, map_root_refsChildren]
      rfl

theorem linked_refsChildren {parent base : RegionRef} :
    ∀ children : List RegionTree, ws.Holds base (tableChildren g parent base children) →
      ∀ child ∈ refsChildren base children, ws.Linked (some parent) child
  | [], _ => by simp [refsChildren]
  | child :: rest, h => by
    rw [tableChildren] at h
    have hrest := h.right
    rw [length_table] at hrest
    rw [refsChildren, List.forall_mem_cons]
    exact ⟨linked_refs child h.left, linked_refsChildren rest hrest⟩

end

theorem isTree_refs {t : RegionTree} (h : ws.Holds 0 (t.table g none 0)) :
    ws.IsTree (t.refs 0) where
  linked := linked_refs t h
  nodup := by
    rw [preorder_refs]
    exact List.nodup_range'

/-! ### Places -/

mutual

/-- The subtrees of a planted tree, each with its reference and the references above it, the nearest
first. -/
def places (base : RegionRef) (above : List RegionRef) :
    RegionTree → List (RegionRef × List RegionRef × RegionTree)
  | .node header children =>
    (base, above, .node header children) :: placesChildren (base + 1) (base :: above) children

def placesChildren (base : RegionRef) (above : List RegionRef) :
    List RegionTree → List (RegionRef × List RegionRef × RegionTree)
  | [] => []
  | child :: rest => places base above child ++ placesChildren (base + child.size) above rest

end

mutual

theorem map_fst_places (base : RegionRef) (above : List RegionRef) :
    ∀ t : RegionTree, (t.places base above).map (·.1) = List.range' base t.size
  | .node header children => by
    rw [places, List.map_cons, map_fst_placesChildren, size, List.range'_succ]

theorem map_fst_placesChildren (base : RegionRef) (above : List RegionRef) :
    ∀ children : List RegionTree, (placesChildren base above children).map (·.1) =
      List.range' base (sizeChildren children)
  | [] => rfl
  | child :: rest => by
    rw [placesChildren, List.map_append, map_fst_places, map_fst_placesChildren, sizeChildren,
      ← List.range'_append_1]

end

mutual

theorem map_subtree_places (base : RegionRef) (above : List RegionRef) :
    ∀ t : RegionTree, (t.places base above).map (·.2.2) = t.subtrees
  | .node header children => by
    rw [places, List.map_cons, map_subtree_placesChildren, subtrees_node]

theorem map_subtree_placesChildren (base : RegionRef) (above : List RegionRef) :
    ∀ children : List RegionTree, (placesChildren base above children).map (·.2.2) =
      children.flatMap subtrees
  | [] => rfl
  | child :: rest => by
    rw [placesChildren, List.map_append, map_subtree_places, map_subtree_placesChildren,
      List.flatMap_cons]

end

mutual

theorem mem_places_refs {base r : RegionRef} {above b : List RegionRef} {s : RegionTree} :
    ∀ t : RegionTree, (r, b, s) ∈ t.places base above →
      (b, s.refs r) ∈ (t.refs base).places above
  | .node header children, h => by
    rw [places, List.mem_cons] at h
    rw [refs, RefTree.places_node, List.mem_cons]
    rcases h with h | h
    · obtain ⟨rfl, rfl, rfl⟩ := by simpa only [Prod.mk.injEq] using h
      exact Or.inl rfl
    · exact Or.inr (mem_places_refsChildren children h)

theorem mem_places_refsChildren {base r : RegionRef} {above b : List RegionRef} {s : RegionTree} :
    ∀ children : List RegionTree, (r, b, s) ∈ placesChildren base above children →
      (b, s.refs r) ∈ (refsChildren base children).flatMap (RefTree.places above)
  | [], h => by simp [placesChildren] at h
  | child :: rest, h => by
    rw [placesChildren, List.mem_append] at h
    rw [refsChildren, List.flatMap_cons, List.mem_append]
    exact h.imp (mem_places_refs child) (mem_places_refsChildren rest)

end

mutual

/-- What holds the table of a tree holds the table of each subtree. -/
theorem holds_of_mem_places {base r : RegionRef} {above b : List RegionRef} {s : RegionTree} :
    ∀ t : RegionTree, ws.Holds base (t.table g above.head? base) → (r, b, s) ∈ t.places base above →
      ws.Holds r (s.table g b.head? r)
  | .node header children, hholds, h => by
    rw [places, List.mem_cons] at h
    rcases h with h | h
    · obtain ⟨rfl, rfl, rfl⟩ := by simpa only [Prod.mk.injEq] using h
      exact hholds
    · rw [table] at hholds
      have hhead : (base :: above).head? = some base := rfl
      exact holds_of_mem_placesChildren children hhead hholds.tail h

theorem holds_of_mem_placesChildren {base parent r : RegionRef} {above b : List RegionRef}
    {s : RegionTree} :
    ∀ children : List RegionTree, above.head? = some parent →
      ws.Holds base (tableChildren g parent base children) →
      (r, b, s) ∈ placesChildren base above children → ws.Holds r (s.table g b.head? r)
  | [], _, _, h => by simp [placesChildren] at h
  | child :: rest, habove, hholds, h => by
    rw [tableChildren] at hholds
    have hrest := hholds.right
    rw [length_table] at hrest
    rw [placesChildren, List.mem_append] at h
    rcases h with h | h
    · exact holds_of_mem_places child (habove ▸ hholds.left) h
    · exact holds_of_mem_placesChildren rest habove hrest h

end

theorem lt_of_mem_places {t s : RegionTree} {r : RegionRef} {b : List RegionRef}
    (h : (r, b, s) ∈ t.places 0 []) : r < t.size := by
  have hmem : r ∈ (t.places 0 []).map (·.1) := List.mem_map.mpr ⟨_, h, rfl⟩
  rw [map_fst_places, List.mem_range'_1, Nat.zero_add] at hmem
  exact hmem.2

theorem mem_subtrees_of_mem_places {t s : RegionTree} {r : RegionRef} {b : List RegionRef}
    (h : (r, b, s) ∈ t.places 0 []) : s ∈ t.subtrees := by
  rw [← map_subtree_places 0 []]
  exact List.mem_map.mpr ⟨_, h, rfl⟩

theorem exists_place {t : RegionTree} {r : RegionRef} (hr : r < t.size) :
    ∃ b s, (r, b, s) ∈ t.places 0 [] := by
  have hmem : r ∈ (t.places 0 []).map (·.1) := by
    rw [map_fst_places, List.mem_range'_1, Nat.zero_add]
    exact ⟨Nat.zero_le r, hr⟩
  obtain ⟨⟨r, b, s⟩, hplace, rfl⟩ := List.mem_map.mp hmem
  exact ⟨b, s, hplace⟩

/-! ### Queries -/

mutual

theorem flatMap_owned_table (parent? : Option RegionRef) (base : RegionRef) :
    ∀ t : RegionTree, (t.table g parent? base).flatMap (·.owned) = t.allOwned.map (⟨g, ·⟩)
  | .node header children => by
    rw [table, List.flatMap_cons, flatMap_owned_tableChildren, allOwned_node, List.map_append]
    rfl

theorem flatMap_owned_tableChildren (parent base : RegionRef) :
    ∀ children : List RegionTree, (tableChildren g parent base children).flatMap (·.owned) =
      (children.flatMap allOwned).map (⟨g, ·⟩)
  | [] => rfl
  | child :: rest => by
    rw [tableChildren, List.flatMap_append, flatMap_owned_table, flatMap_owned_tableChildren,
      List.flatMap_cons, List.map_append]

end

section

variable {t s : RegionTree} {r : RegionRef} {b : List RegionRef}

theorem holds_subtree (h : ws.Holds 0 (t.table g none 0)) (hplace : (r, b, s) ∈ t.places 0 []) :
    ws.Holds r (s.table g b.head? r) := by
  have hhead : ws.Holds 0 (t.table g ([] : List RegionRef).head? 0) := h
  exact holds_of_mem_places t hhead hplace

theorem map_getElem?_of_mem_places {β : Type*} (view : Region → β)
    (hview : ∀ region, view region.core = view region)
    (h : ws.Holds 0 (t.table g none 0)) (hplace : (r, b, s) ∈ t.places 0 []) :
    ∃ children, ws.regions[r]?.map view =
      some (view { s.header.toRegion g with parent? := b.head?, children }) := by
  have hholds := holds_subtree h hplace
  cases s with
  | node header children =>
      rw [table] at hholds
      exact ⟨_, hholds.map_head view hview⟩

theorem walk_of_mem_places (h : ws.Holds 0 (t.table g none 0))
    (hplace : (r, b, s) ∈ t.places 0 []) : ws.walk r = List.range' r s.size := by
  have hwalk := (isTree_refs h).walk_eq (mem_places_refs t hplace)
  rwa [root_refs, preorder_refs] at hwalk

theorem depth_of_mem_places (h : ws.Holds 0 (t.table g none 0))
    (hplace : (r, b, s) ∈ t.places 0 []) : ws.depth r = b.length := by
  have hdepth := (isTree_refs h).depth_eq (mem_places_refs t hplace)
  rwa [root_refs] at hdepth

theorem ownedBelow_of_mem_places (h : ws.Holds 0 (t.table g none 0))
    (hplace : (r, b, s) ∈ t.places 0 []) : ws.ownedBelow r = s.allOwned.map (⟨g, ·⟩) := by
  have howned := (holds_subtree h hplace).flatMap_owned
  rwa [length_table, flatMap_owned_table, ← walk_of_mem_places h hplace] at howned

theorem self_mem_places (t : RegionTree) : (0, [], t) ∈ t.places 0 [] := by
  cases t
  rw [places]
  exact List.mem_cons_self

end

/-! ### Acceptance -/

/-- The blocks that a tree mentions have numbers below `count`. -/
def Within (count : Nat) (t : RegionTree) : Prop :=
  ∀ s ∈ t.subtrees, s.header.Within count

theorem within_node {count : Nat} {header : RegionHeader} {children : List RegionTree} :
    (node header children).Within count ↔
      header.Within count ∧ ∀ child ∈ children, child.Within count := by
  simp only [Within, subtrees_node, List.forall_mem_cons, List.mem_flatMap]
  exact and_congr_right' ⟨fun h child hchild s hs => h s ⟨child, hchild, hs⟩,
    fun h s ⟨child, hchild, hs⟩ => h child hchild s hs⟩

/-- The regions of a tree own each of `count` blocks once, and each contains its entry. -/
structure Sound (count : Nat) (t : RegionTree) : Prop where
  perm : t.allOwned.Perm (List.range count)
  entry_mem : ∀ s ∈ t.subtrees, s.header.entry ∈ s.allOwned

theorem blocksOf_eq {count : Nat} (hcount : ws.graphs[g]?.map (·.blocks.size) = some count) :
    ws.blocksOf g = (List.range count).map (⟨g, ·⟩) := by
  rw [Workspace.blocksOf, hcount]
  rfl

theorem map_blockRef_perm_iff {xs ys : List Nat} :
    (xs.map (BlockRef.mk g)).Perm (ys.map (BlockRef.mk g)) ↔ xs.Perm ys :=
  List.map_perm_map_iff fun _ _ h => (BlockRef.mk.inj h).2

/-- The region at a place contains a block with the number of its entry exactly if the subtree owns
its entry. -/
theorem contains_entry_iff {t s : RegionTree} {r : RegionRef} {b : List RegionRef}
    (h : ws.Holds 0 (t.table g none 0)) (hplace : (r, b, s) ∈ t.places 0 []) :
    (∀ region, ws.regions[r]? = some region →
      ∃ owned ∈ ws.ownedBelow r, owned.index = region.entry.index) ↔
      s.header.entry ∈ s.allOwned := by
  obtain ⟨children, hentry⟩ := map_getElem?_of_mem_places (·.entry) (fun _ => rfl) h hplace
  obtain ⟨region, hregion, hentry⟩ := Option.map_eq_some_iff.mp hentry
  have hindex : region.entry.index = s.header.entry := congrArg BlockRef.index hentry
  rw [ownedBelow_of_mem_places h hplace, hregion]
  simp [hindex]

/-- A planted tree over the blocks of its graph is accepted exactly if it is sound. -/
theorem analyse_eq_ok_iff {t : RegionTree} {count : Nat} (h : ws.Holds 0 (t.table g none 0))
    (hcount : ws.graphs[g]?.map (·.blocks.size) = some count) (hwithin : t.Within count) :
    (ws.analyse g 0).2 = .ok () ↔ t.Sound count := by
  have htree := isTree_refs h
  have hroot : ws.ownedBelow 0 = t.allOwned.map (⟨g, ·⟩) :=
    ownedBelow_of_mem_places h t.self_mem_places
  have hreal : ∀ b ∈ ws.ownedBelow (t.refs 0).root, b.graph = g → b ∈ ws.blocksOf g := by
    rw [root_refs, hroot, blocksOf_eq hcount]
    intro b hb _
    obtain ⟨index, hindex, rfl⟩ := List.mem_map.mp hb
    obtain ⟨s, hs, howned⟩ := List.mem_flatMap.mp hindex
    exact List.mem_map.mpr ⟨index, List.mem_range.mpr ((hwithin s hs).owned_lt index howned), rfl⟩
  have hiff := htree.analyse_eq_ok_iff hreal
  rw [root_refs, hroot, blocksOf_eq hcount, map_blockRef_perm_iff, preorder_refs,
    ← map_fst_places 0 [], List.forall_mem_map] at hiff
  have hentries : (∀ place ∈ t.places 0 [], ∀ region, ws.regions[place.1]? = some region →
      ∃ owned ∈ ws.ownedBelow place.1, owned.index = region.entry.index) ↔
      ∀ s ∈ t.subtrees, s.header.entry ∈ s.allOwned := by
    rw [← map_subtree_places 0 [], List.forall_mem_map]
    apply forall₂_congr
    intro place hplace
    exact contains_entry_iff h hplace
  rw [hiff, hentries]
  constructor
  · rintro ⟨hperm, hentry⟩
    exact ⟨hperm, hentry⟩
  · intro hsound
    exact ⟨hsound.perm, hsound.entry_mem⟩

end RegionTree

end FlowRegions

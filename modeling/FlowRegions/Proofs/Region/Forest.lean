import FlowRegions.Proofs.Region.Walk
import Mathlib.Logic.Relation

/-!
# Forests of regions

A region that is attached gets a parent, and its parent gets it as a child. As long as every region
is attached once and never inside itself, the regions of a workspace are a forest, and below each
region without a parent the workspace holds one tree.
-/

namespace FlowRegions.Workspace

variable {ws ws' : Workspace}

/-! ### Attaching -/

theorem lt_of_parent?_eq_some {r parent : RegionRef} (h : ws.parent? r = some parent) :
    r < ws.regions.size := by
  obtain ⟨region, hregion, _⟩ := Option.bind_eq_some_iff.mp h
  exact (Array.getElem?_eq_some_iff.mp hregion).1

theorem lt_of_mem_children {r child : RegionRef} (h : child ∈ ws.children r) :
    r < ws.regions.size := by
  by_contra hlt
  rw [children, Array.getElem?_eq_none (Nat.le_of_not_lt hlt)] at h
  exact List.not_mem_nil h

/-- Attaching keeps whatever does not depend on the parent and the children of a region. -/
theorem map_getElem?_attach {β : Type*} (view : Region → β)
    (hview : ∀ region parent? children,
      view { region with parent? := parent?, children := children } = view region)
    (parent child r : RegionRef) :
    (ws.attach parent child).regions[r]?.map view = ws.regions[r]?.map view := by
  have hmodify : ∀ (regions : Array Region) (i : RegionRef) (f : Region → Region),
      (∀ region, view (f region) = view region) →
        (regions.modify i f)[r]?.map view = regions[r]?.map view := by
    intro regions i f hf
    rw [Array.getElem?_modify]
    split
    · rw [Option.map_map]
      exact congrArg (Option.map · _) (funext hf)
    · rfl
  rw [attach, modifyRegion, modifyRegion,
    hmodify _ parent _ fun region => hview region region.parent? _,
    hmodify _ child _ fun region => hview region _ region.children]

theorem parent?_attach {child : RegionRef} (hchild : child < ws.regions.size)
    (parent r : RegionRef) :
    (ws.attach parent child).parent? r = if r = child then some parent else ws.parent? r := by
  have hlast : ∀ region? : Option Region,
      (if parent = r then region?.map fun region =>
        { region with children := region.children ++ [child] } else region?).bind (·.parent?) =
          region?.bind (·.parent?) := by
    intro region?
    split
    · cases region? <;> rfl
    · rfl
  rw [Workspace.parent?, attach, modifyRegion, modifyRegion, Array.getElem?_modify, hlast,
    Array.getElem?_modify]
  by_cases hr : r = child
  · subst hr
    rw [if_pos rfl, if_pos rfl, Array.getElem?_eq_getElem hchild]
    rfl
  · rw [if_neg (Ne.symm hr), if_neg hr, Workspace.parent?]

theorem children_attach {parent : RegionRef} (hparent : parent < ws.regions.size)
    (child r : RegionRef) :
    (ws.attach parent child).children r =
      if r = parent then ws.children r ++ [child] else ws.children r := by
  have hfirst : ((ws.regions.modify child fun region =>
      { region with parent? := some parent })[r]?.map (·.children)).getD [] = ws.children r := by
    rw [Array.getElem?_modify, children]
    split
    · cases ws.regions[r]? <;> rfl
    · rfl
  rw [← hfirst, children, attach, modifyRegion, modifyRegion, Array.getElem?_modify]
  by_cases hr : r = parent
  · subst hr
    have hlt : r < (ws.regions.modify child fun region =>
        { region with parent? := some r }).size := by
      rwa [Array.size_modify]
    rw [if_pos rfl, if_pos rfl, Array.getElem?_eq_getElem hlt]
    rfl
  · rw [if_neg (Ne.symm hr), if_neg hr]

/-! ### Climbing -/

/-- Climbing from parent to parent leads from one region to another. -/
abbrev Climbs (ws : Workspace) : RegionRef → RegionRef → Prop :=
  Relation.ReflTransGen fun inner outer => ws.parent? inner = some outer

/-- Children and parents record the same links and none twice, and no climb comes back. -/
structure IsForest (ws : Workspace) : Prop where
  mem_children_iff : ∀ r child, child ∈ ws.children r ↔ ws.parent? child = some r
  nodup_children : ∀ r, (ws.children r).Nodup
  exists_height : ∃ height : RegionRef → Nat,
    ∀ r child, ws.parent? child = some r → height child < height r

theorem height_le_of_climbs {height : RegionRef → Nat}
    (hheight : ∀ r child, ws.parent? child = some r → height child < height r)
    {inner outer : RegionRef} (h : ws.Climbs inner outer) : height inner ≤ height outer := by
  induction h with
  | refl => exact le_refl _
  | @tail middle outer _ hlink ih =>
      have hlt := hheight outer middle hlink
      omega

theorem rightUnique_parent? :
    Relator.RightUnique fun inner outer : RegionRef => ws.parent? inner = some outer := by
  intro inner outer outer' h h'
  exact Option.some.inj (h.symm.trans h')

theorem climbs_of_mem_lineageWithin {limit : Nat} {r x : RegionRef}
    (h : x ∈ ws.lineageWithin limit r) : ws.Climbs r x := by
  induction limit generalizing r with
  | zero => exact absurd h List.not_mem_nil
  | succ limit ih =>
      rw [lineageWithin_succ] at h
      rcases List.mem_cons.mp h with rfl | h
      · exact .refl
      · cases hparent : ws.parent? r with
        | none => simp [hparent] at h
        | some parent =>
            rw [hparent] at h
            exact .head hparent (ih h)

/-- The regions that climbing from one region meets, up to the first without a parent. A climb that
comes back never ends and has no such list. -/
inductive IsLineage (ws : Workspace) : RegionRef → List RegionRef → Prop
  | top {r : RegionRef} (h : ws.parent? r = none) : IsLineage ws r [r]
  | inside {r parent : RegionRef} {rest : List RegionRef} (hlink : ws.parent? r = some parent)
      (hrest : IsLineage ws parent rest) : IsLineage ws r (r :: rest)

namespace IsLineage

variable {r x : RegionRef} {chain chain' : List RegionRef}

theorem unique (h : ws.IsLineage r chain) (h' : ws.IsLineage r chain') : chain = chain' := by
  induction h generalizing chain' with
  | top hnone =>
      cases h' with
      | top => rfl
      | inside hlink _ => exact absurd (hnone.symm.trans hlink) (by simp)
  | inside hlink _ ih =>
      cases h' with
      | top hnone => exact absurd (hnone.symm.trans hlink) (by simp)
      | inside hlink' hrest' =>
          obtain rfl := Option.some.inj (hlink.symm.trans hlink')
          rw [ih hrest']

theorem exists_of_mem (h : ws.IsLineage r chain) (hx : x ∈ chain) :
    ∃ rest, ws.IsLineage x rest ∧ rest.length ≤ chain.length := by
  induction h with
  | top hnone =>
      obtain rfl := List.mem_singleton.mp hx
      exact ⟨_, .top hnone, le_refl _⟩
  | inside hlink hrest ih =>
      rcases List.mem_cons.mp hx with rfl | hx
      · exact ⟨_, .inside hlink hrest, le_refl _⟩
      · obtain ⟨rest, hx, hlength⟩ := ih hx
        exact ⟨rest, hx, hlength.trans (Nat.le_succ _)⟩

/-- A region that is met twice would have a lineage that is longer than itself. -/
theorem nodup (h : ws.IsLineage r chain) : chain.Nodup := by
  induction h with
  | top => exact List.nodup_singleton _
  | inside hlink hrest ih =>
      refine List.nodup_cons.mpr ⟨fun hmem => ?_, ih⟩
      obtain ⟨again, hagain, hlength⟩ := hrest.exists_of_mem hmem
      rw [← (inside hlink hrest).unique hagain, List.length_cons] at hlength
      exact Nat.not_succ_le_self _ hlength

theorem mem_of_climbs (h : ws.IsLineage r chain) (hclimb : ws.Climbs r x) : x ∈ chain := by
  induction h with
  | top hnone =>
      rcases hclimb.cases_head with rfl | ⟨parent, hlink, _⟩
      · exact List.mem_cons_self
      · exact absurd (hnone.symm.trans hlink) (by simp)
  | inside hlink _ ih =>
      rcases hclimb.cases_head with rfl | ⟨parent, hlink', hrest⟩
      · exact List.mem_cons_self
      · obtain rfl := Option.some.inj (hlink.symm.trans hlink')
        exact List.mem_cons_of_mem _ (ih hrest)

theorem climbs_of_mem (h : ws.IsLineage r chain) (hx : x ∈ chain) : ws.Climbs r x := by
  induction h with
  | top =>
      obtain rfl := List.mem_singleton.mp hx
      exact .refl
  | inside hlink _ ih =>
      rcases List.mem_cons.mp hx with rfl | hx
      · exact .refl
      · exact .head hlink (ih hx)

theorem lineageWithin_eq_take (h : ws.IsLineage r chain) (limit : Nat) :
    ws.lineageWithin limit r = chain.take limit := by
  induction h generalizing limit with
  | top hnone =>
      cases limit with
      | zero => rfl
      | succ limit => rw [lineageWithin_succ, hnone, List.take_succ_cons, List.take_nil]; rfl
  | inside hlink _ ih =>
      cases limit with
      | zero => rfl
      | succ limit => rw [lineageWithin_succ, hlink, Option.elim_some, ih, List.take_succ_cons]

/-- A climb that ends meets every region once at most, so their count does not cut it off. -/
theorem lineage_eq (h : ws.IsLineage r chain) (hinside : ∀ x ∈ chain, x < ws.regions.size) :
    ws.lineage r = chain := by
  have hsub : chain ⊆ List.range ws.regions.size :=
    fun x hx => List.mem_range.mpr (hinside x hx)
  have hle := (h.nodup.subperm hsub).length_le
  rw [List.length_range] at hle
  rw [lineage, h.lineageWithin_eq_take, List.take_of_length_le hle]

end IsLineage

/-- A climb that takes fewer steps than it may has come to its end. -/
theorem isLineage_lineageWithin {limit : Nat} {r : RegionRef}
    (h : (ws.lineageWithin limit r).length < limit) :
    ws.IsLineage r (ws.lineageWithin limit r) := by
  induction limit generalizing r with
  | zero => exact absurd h (Nat.not_lt_zero _)
  | succ limit ih =>
      rw [lineageWithin_succ] at h ⊢
      cases hparent : ws.parent? r with
      | none => exact .top hparent
      | some parent =>
          rw [hparent, Option.elim_some, List.length_cons] at h
          exact .inside hparent (ih (Nat.lt_of_succ_lt_succ h))

namespace IsForest

theorem congr (h : ws.IsForest) (hparent : ∀ r, ws'.parent? r = ws.parent? r)
    (hchildren : ∀ r, ws'.children r = ws.children r) : ws'.IsForest where
  mem_children_iff r child := by
    rw [hchildren, hparent]
    exact h.mem_children_iff r child
  nodup_children r := by
    rw [hchildren]
    exact h.nodup_children r
  exists_height := by
    obtain ⟨height, hheight⟩ := h.exists_height
    refine ⟨height, fun r child hlink => hheight r child ?_⟩
    rwa [← hparent]

theorem lt_of_parent? (h : ws.IsForest) {r parent : RegionRef}
    (hlink : ws.parent? r = some parent) : parent < ws.regions.size :=
  lt_of_mem_children ((h.mem_children_iff parent r).mpr hlink)

theorem nodup_lineageWithin (h : ws.IsForest) (limit : Nat) (r : RegionRef) :
    (ws.lineageWithin limit r).Nodup := by
  obtain ⟨height, hheight⟩ := h.exists_height
  induction limit generalizing r with
  | zero => exact List.nodup_nil
  | succ limit ih =>
      rw [lineageWithin_succ]
      cases hparent : ws.parent? r with
      | none => exact List.nodup_singleton r
      | some parent =>
          refine List.nodup_cons.mpr ⟨?_, ih parent⟩
          intro hmem
          have hlt := hheight parent r hparent
          have hle := height_le_of_climbs hheight (climbs_of_mem_lineageWithin hmem)
          omega

theorem lt_of_climbs (h : ws.IsForest) {r x : RegionRef} (hr : r < ws.regions.size)
    (hx : ws.Climbs r x) : x < ws.regions.size := by
  cases hx with
  | refl => exact hr
  | tail _ hlink => exact h.lt_of_parent? hlink

/-- In a forest every climb ends, and a lineage is all of it. -/
theorem isLineage_lineage (h : ws.IsForest) {r : RegionRef} (hr : r < ws.regions.size) :
    ws.IsLineage r (ws.lineage r) := by
  have hinside : ∀ x ∈ ws.lineageWithin (ws.regions.size + 1) r, x < ws.regions.size :=
    fun x hx => h.lt_of_climbs hr (climbs_of_mem_lineageWithin hx)
  have hsub : ws.lineageWithin (ws.regions.size + 1) r ⊆ List.range ws.regions.size :=
    fun x hx => List.mem_range.mpr (hinside x hx)
  have hle := ((h.nodup_lineageWithin _ r).subperm hsub).length_le
  rw [List.length_range] at hle
  have hchain := isLineage_lineageWithin (Nat.lt_succ_of_le hle)
  rwa [hchain.lineage_eq hinside]

theorem mem_lineage_of_climbs (h : ws.IsForest) {r x : RegionRef} (hr : r < ws.regions.size)
    (hx : ws.Climbs r x) : x ∈ ws.lineage r :=
  (h.isLineage_lineage hr).mem_of_climbs hx

/-- Attaching a region without a parent inside a region that it does not contain keeps a forest. -/
theorem attach (h : ws.IsForest) {parent child : RegionRef} (hparent : parent < ws.regions.size)
    (hchild : child < ws.regions.size) (hfree : ws.parent? child = none)
    (hapart : ws.containsRegion child parent = false) : (ws.attach parent child).IsForest where
  mem_children_iff r c := by
    rw [children_attach hparent, parent?_attach hchild]
    have hold := h.mem_children_iff r c
    by_cases hc : c = child
    · have hnew : c ∉ ws.children r := by
        rw [hold, hc, hfree]
        exact Option.some_ne_none r ∘ Eq.symm
      rw [if_pos hc, Option.some_inj]
      by_cases hr : r = parent
      · simp [hr, hc]
      · simp [hr, hnew, Ne.symm hr]
    · rw [if_neg hc, ← hold]
      by_cases hr : r = parent <;> simp [hr, hc]
  nodup_children r := by
    rw [children_attach hparent]
    split
    · refine List.nodup_append'.mpr ⟨h.nodup_children r, List.nodup_singleton child, ?_⟩
      rw [List.disjoint_singleton]
      intro hmem
      rw [h.mem_children_iff, hfree] at hmem
      cases hmem
    · exact h.nodup_children r
  exists_height := by
    classical
    obtain ⟨height, hheight⟩ := h.exists_height
    have houtside : ¬ ws.Climbs parent child := by
      intro hclimb
      have hmem := h.mem_lineage_of_climbs hparent hclimb
      rw [containsRegion, ← Bool.not_eq_true, List.contains_iff_mem] at hapart
      exact hapart hmem
    -- The parent and everything around it is raised above the child.
    refine ⟨fun x => height x + if ws.Climbs parent x then height child + 1 else 0, ?_⟩
    intro r c hlink
    rw [parent?_attach hchild] at hlink
    split at hlink
    · next hc =>
        obtain rfl : parent = r := Option.some.inj hlink
        subst hc
        dsimp only
        rw [if_neg houtside, if_pos .refl]
        omega
    · have hlt := hheight r c hlink
      by_cases hc : ws.Climbs parent c
      · have hr : ws.Climbs parent r := hc.tail hlink
        simp only [hc, hr, if_true]
        omega
      · simp only [hc, if_false]
        omega

/-! ### Trees -/

theorem exists_linked (h : ws.IsForest) {r : RegionRef} (hr : r < ws.regions.size) :
    ∃ t : RefTree, t.root = r ∧ ws.Linked (ws.parent? r) t := by
  obtain ⟨height, hheight⟩ := h.exists_height
  induction hn : height r using Nat.strong_induction_on generalizing r with
  | _ n ih =>
      have hbelow : ∀ child ∈ ws.children r, ∃ t : RefTree, t.root = child ∧
          ws.Linked (some r) t := by
        intro child hchild
        have hlink := (h.mem_children_iff r child).mp hchild
        have hlt := hheight r child hlink
        rw [← hlink]
        exact ih (height child) (hn ▸ hlt) (lt_of_parent?_eq_some hlink) rfl
      have : Nonempty RefTree := ⟨.node r []⟩
      choose! subtree hroot hlinked using hbelow
      refine ⟨.node r ((ws.children r).map subtree), rfl, .node hr rfl ?_ ?_⟩
      · rw [List.map_map]
        exact ((List.map_congr_left hroot).trans (List.map_id _)).symm
      · rw [List.forall_mem_map]
        exact hlinked

/-- Children of one region around the same region are the same. -/
theorem eq_of_climbs_of_climbs (h : ws.IsForest) {r x c c' : RegionRef}
    (hlink : ws.parent? c = some r) (hlink' : ws.parent? c' = some r) (hc : ws.Climbs x c)
    (hc' : ws.Climbs x c') : c = c' := by
  obtain ⟨height, hheight⟩ := h.exists_height
  have hnever : ∀ {inner outer}, ws.parent? inner = some r → ws.parent? outer = some r →
      ws.Climbs inner outer → inner = outer := by
    intro inner outer hinner houter hclimb
    rcases hclimb.cases_head with heq | ⟨next, hnext, hrest⟩
    · exact heq
    · obtain rfl : r = next := Option.some.inj (hinner.symm.trans hnext)
      have hlt := hheight r outer houter
      have hle := height_le_of_climbs hheight hrest
      omega
  rcases Relation.ReflTransGen.total_of_right_unique rightUnique_parent? hc hc' with hup | hup
  · exact hnever hlink hlink' hup
  · exact (hnever hlink' hlink hup).symm

end IsForest

theorem Linked.climbs_of_mem {parent? : Option RegionRef} {t : RefTree} (h : ws.Linked parent? t)
    {x : RegionRef} (hx : x ∈ t.preorder) : ws.Climbs x t.root := by
  induction h with
  | @node parent? r children inside parent children_eq below ih =>
      rw [RefTree.preorder_node] at hx
      rcases List.mem_cons.mp hx with rfl | hx
      · exact .refl
      · obtain ⟨child, hchild, hx⟩ := List.mem_flatMap.mp hx
        exact (ih child hchild hx).tail (below child hchild).parent_root

theorem Linked.nodup_preorder {parent? : Option RegionRef} {t : RefTree} (hforest : ws.IsForest)
    (h : ws.Linked parent? t) : t.preorder.Nodup := by
  induction h with
  | @node parent? r children inside parent children_eq below ih =>
      rw [RefTree.preorder_node, List.nodup_cons, List.nodup_flatMap]
      refine ⟨?_, ih, ?_⟩
      · intro hr
        obtain ⟨child, hchild, hr⟩ := List.mem_flatMap.mp hr
        obtain ⟨height, hheight⟩ := hforest.exists_height
        have hle := height_le_of_climbs hheight ((below child hchild).climbs_of_mem hr)
        have hlt := hheight r child.root (below child hchild).parent_root
        omega
      · have hnodup := hforest.nodup_children r
        rw [children_eq, List.Nodup, List.pairwise_map] at hnodup
        apply hnodup.imp_of_mem
        intro child child' hchild hchild' hne x hx hx'
        exact hne (hforest.eq_of_climbs_of_climbs (below child hchild).parent_root
          (below child' hchild').parent_root ((below child hchild).climbs_of_mem hx)
          ((below child' hchild').climbs_of_mem hx'))

/-- Below a region without a parent a forest holds one tree. -/
theorem IsForest.exists_isTree (h : ws.IsForest) {root : RegionRef}
    (hroot : root < ws.regions.size) (htop : ws.parent? root = none) :
    ∃ t : RefTree, t.root = root ∧ ws.IsTree t := by
  obtain ⟨t, hteq, hlinked⟩ := h.exists_linked hroot
  rw [htop] at hlinked
  exact ⟨t, hteq, hlinked, hlinked.nodup_preorder h⟩

end FlowRegions.Workspace

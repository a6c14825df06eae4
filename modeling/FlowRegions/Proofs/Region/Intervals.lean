import FlowRegions.Proofs.Region.EnteredChain
import FlowRegions.Proofs.Region.Laminar
import FlowRegions.Proofs.Region.Wiring

/-!
# Preorder numbers

A walk can be made with a stack: the region on top is taken off and visited, and its children are
put there instead, the first of them on top. Below a tree this visits the regions in preorder. So
the numbers of a region and its descendants are an interval that begins with the number of the
region, and a region lies inside another one exactly if its number is in the interval of the other.
-/

namespace FlowRegions

namespace Workspace

variable {ws : Workspace} {t : RefTree} {stack visited : List RegionRef} {r s : RegionRef}

/-- Emptying the stack, whose top is its last entry, visits the regions in this order. -/
inductive Visits (ws : Workspace) : List RegionRef → List RegionRef → Prop
  | done : ws.Visits [] []
  | visit {stack rest : List RegionRef} {r : RegionRef}
      (next : ws.Visits (stack ++ (ws.children r).reverse) rest) :
      ws.Visits (stack ++ [r]) (r :: rest)

theorem visits_nil_iff : ws.Visits [] visited ↔ visited = [] := by
  constructor
  · intro h
    generalize hstack : ([] : List RegionRef) = stack at h
    cases h with
    | done => rfl
    | visit => simp at hstack
  · rintro rfl
    exact .done

theorem visits_concat_iff : ws.Visits (stack ++ [r]) visited ↔
    ∃ rest, visited = r :: rest ∧ ws.Visits (stack ++ (ws.children r).reverse) rest := by
  constructor
  · intro h
    generalize hstack : stack ++ [r] = whole at h
    cases h with
    | done => simp at hstack
    | visit next =>
        obtain ⟨rfl, htop⟩ := List.append_inj' hstack rfl
        obtain rfl := List.singleton_inj.mp htop
        exact ⟨_, rfl, next⟩
  · rintro ⟨rest, rfl, next⟩
    exact .visit next

/-- What lies on the stack below the children waits until all of their trees are visited. -/
theorem visits_roots_iff {children : List RefTree}
    (h : ∀ child ∈ children, ∀ stack visited, ws.Visits (stack ++ [child.root]) visited ↔
      ∃ rest, visited = child.preorder ++ rest ∧ ws.Visits stack rest) :
    ws.Visits (stack ++ (children.map RefTree.root).reverse) visited ↔
      ∃ rest, visited = children.flatMap RefTree.preorder ++ rest ∧ ws.Visits stack rest := by
  induction children generalizing visited with
  | nil => simp
  | cons child children ih =>
      rw [List.forall_mem_cons] at h
      rw [List.map_cons, List.reverse_cons, ← List.append_assoc, h.1, List.flatMap_cons]
      simp only [ih h.2]
      constructor
      · rintro ⟨_, rfl, rest, rfl, hrest⟩
        exact ⟨rest, (List.append_assoc ..).symm, hrest⟩
      · rintro ⟨rest, rfl, hrest⟩
        exact ⟨_, List.append_assoc .., rest, rfl, hrest⟩

theorem Linked.visits_iff {parent? : Option RegionRef} (h : ws.Linked parent? t) :
    ws.Visits (stack ++ [t.root]) visited ↔
      ∃ rest, visited = t.preorder ++ rest ∧ ws.Visits stack rest := by
  induction h generalizing stack visited with
  | @node _ r children _ _ children_eq _ ih =>
      rw [RefTree.root_node, visits_concat_iff, children_eq, RefTree.preorder_node]
      simp only [visits_roots_iff fun child hchild _ _ => ih child hchild]
      constructor
      · rintro ⟨_, rfl, rest, rfl, hrest⟩
        exact ⟨rest, rfl, hrest⟩
      · rintro ⟨rest, rfl, hrest⟩
        exact ⟨_, rfl, rest, rfl, hrest⟩

namespace IsTree

variable (h : ws.IsTree t)

include h

theorem visits_iff (hr : r ∈ t.preorder) : ws.Visits [r] visited ↔ visited = ws.walk r := by
  obtain ⟨⟨b, u⟩, hu, rfl⟩ := RefTree.exists_place_of_mem hr []
  have hvisits : ws.Visits ([] ++ [u.root]) visited ↔ _ := (h.linked_of_mem_places hu).visits_iff
  rw [List.nil_append] at hvisits
  simp [hvisits, visits_nil_iff, h.walk_eq hu]

theorem mem_walk_iff (hr : r ∈ t.preorder) : s ∈ ws.walk r ↔ ws.Reaches r s := by
  constructor
  · exact reaches_of_mem_walkWithin
  · intro hreach
    induction hreach using Relation.ReflTransGen.head_induction_on with
    | refl => exact h.mem_walk_self hr
    | @head r child hchild _ ih =>
        rw [h.walk_eq_cons hr, List.mem_cons, List.mem_flatMap]
        exact Or.inr ⟨child, hchild, ih (h.mem_of_mem_children hr hchild)⟩

theorem mem_lineage_iff (hs : s ∈ t.preorder) : r ∈ ws.lineage s ↔ ws.Climbs s r := by
  constructor
  · exact climbs_of_mem_lineageWithin
  · intro hclimb
    induction hclimb using Relation.ReflTransGen.head_induction_on with
    | refl => exact h.mem_lineage_self hs
    | @head s parent hlink _ ih =>
        obtain ⟨hparent, hlineage⟩ := h.mem_of_parent? hs hlink
        rw [hlineage]
        exact List.mem_cons_of_mem _ (ih hparent)

end IsTree

/-- The regions are numbered in preorder. Walking from one of them visits its descendants, and they
are those whose numbers are in an interval that begins with its own. -/
structure IsPreordered (ws : Workspace) (regions : List RegionRef) : Prop where
  numbers : regions.map ws.number = (List.range regions.length).map (fun n : Nat => (n : Int))
  visits_iff : ∀ r ∈ regions, ∀ visited, ws.Visits [r] visited ↔ visited = ws.walk r
  walk_eq : ∀ r ∈ regions, ws.walk r = r :: (ws.children r).flatMap ws.walk
  walk_nodup : ∀ r ∈ regions, (ws.walk r).Nodup
  mem_walk_iff : ∀ r ∈ regions, ∀ s, s ∈ ws.walk r ↔ ws.Reaches r s
  containsRegion_iff_climbs : ∀ r ∈ regions, ∀ s ∈ regions,
    ws.containsRegion r s = true ↔ ws.Climbs s r
  containsRegion_iff_number : ∀ r ∈ regions, ∀ s ∈ regions,
    ws.containsRegion r s = true ↔
      ws.number r ≤ ws.number s ∧ ws.number s < ws.number r + (ws.walk r).length

end Workspace

namespace RegionGraph

variable {graph : Cfg} {t : RegionTree} {r s : RegionRef}

theorem containsRegion_ofTree_iff (hr : r < t.size) (hs : s < t.size) :
    (ofTree graph t).workspace.containsRegion r s = true ↔
      r ≤ s ∧ s < r + ((ofTree graph t).workspace.walk r).length := by
  obtain ⟨above, u, hplace⟩ := RegionTree.exists_place hr
  rw [(isTree_ofTree graph t).containsRegion_iff (mem_preorder_refs hr) (mem_preorder_refs hs),
    RegionTree.walk_of_mem_places (holds_ofTree graph t) hplace, List.mem_range'_1,
    List.length_range']

theorem isPreordered_ofTree (graph : Cfg) (t : RegionTree) :
    (ofTree graph t).workspace.IsPreordered (List.range t.size) := by
  have htree := isTree_ofTree graph t
  refine ⟨?_, ?_, ?_, ?_, ?_, ?_, ?_⟩
  · rw [List.length_range]
    exact List.map_congr_left fun r hr => number_ofTree (List.mem_range.mp hr)
  · intro r hr visited
    exact htree.visits_iff (mem_preorder_refs (List.mem_range.mp hr))
  · intro r hr
    exact htree.walk_eq_cons (mem_preorder_refs (List.mem_range.mp hr))
  · intro r hr
    exact nodup_walk_ofTree (List.mem_range.mp hr)
  · intro r hr s
    exact htree.mem_walk_iff (mem_preorder_refs (List.mem_range.mp hr))
  · intro r _ s hs
    rw [Workspace.containsRegion, List.contains_iff_mem]
    exact htree.mem_lineage_iff (mem_preorder_refs (List.mem_range.mp hs))
  · intro r hr s hs
    have hrlt := List.mem_range.mp hr
    have hslt := List.mem_range.mp hs
    rw [containsRegion_ofTree_iff hrlt hslt, number_ofTree hrlt, number_ofTree hslt]
    exact_mod_cast Iff.rfl

/-- The regions of a loaded function are numbered in the order of a walk from the outermost one. A
region lies inside another one exactly if its number is in the interval that the walk from the other
one takes up. -/
theorem IsLoaded.isPreordered_regions {rg : RegionGraph} (h : rg.IsLoaded) :
    ∃ analysis, rg.workspace.analyses[rg.analysis]? = some analysis ∧
      rg.regions = rg.workspace.walk analysis.root ∧
      rg.workspace.IsPreordered rg.regions := by
  obtain ⟨graph, t, _, rfl⟩ := h.exists_eq_ofTree
  obtain ⟨ownership, hanalysis⟩ := getElem?_analyses_ofTree graph t
  refine ⟨_, hanalysis, ?_, ?_⟩
  · rw [regions, analysis_ofTree, hanalysis]
  · rw [regions_ofTree]
    exact isPreordered_ofTree graph t

/-- A stack that holds the outermost region is emptied in the order of the numbers. The region
numbered 1 takes up two of them, so it has the region numbered 2 inside but not the one numbered
3. -/
theorem isPreordered_regions_nested : ∃ rg,
    Document.load .sexp "(function f (block a) (block b) (block c) (block d)
      (region :entry b (blocks b) (region :entry d (blocks d) (region :entry a (blocks a)))
        (region :entry c (blocks c))))" none = .ok [rg] ∧
    rg.regions = [0, 1, 2, 3] ∧ rg.workspace.Visits [0] [0, 1, 2, 3] ∧
    rg.workspace.walk 1 = [1, 2] ∧
    rg.workspace.containsRegion 1 2 = true ∧ rg.workspace.containsRegion 1 3 = false := by
  obtain ⟨rg, hload, hview⟩ := exists_eq_ok_singleton (by decide +kernel :
    (Document.load .sexp "(function f (block a) (block b) (block c) (block d)
      (region :entry b (blocks b) (region :entry d (blocks d) (region :entry a (blocks a)))
        (region :entry c (blocks c))))" none).toOption.map
          (List.map fun rg => (rg.regions, rg.workspace.walk 0, rg.workspace.walk 1,
            [1, 2, 3].map rg.workspace.number)) =
      some [([0, 1, 2, 3], [0, 1, 2, 3], [1, 2], [1, 2, 3])])
  simp only [Prod.mk.injEq, List.map_cons, List.map_nil, List.cons.injEq, and_true] at hview
  obtain ⟨hregions, hwalk, hinner, hone, htwo, hthree⟩ := hview
  obtain ⟨_, _, _, hpreordered⟩ :=
    IsLoaded.isPreordered_regions ⟨_, _, _, _, hload, List.mem_singleton_self rg⟩
  rw [hregions] at hpreordered
  have hnested := hpreordered.containsRegion_iff_number 1 (by decide) 2 (by decide)
  have hapart := hpreordered.containsRegion_iff_number 1 (by decide) 3 (by decide)
  rw [hinner, hone, htwo] at hnested
  rw [hinner, hone, hthree] at hapart
  refine ⟨rg, hload, hregions, ?_, hinner, hnested.mpr (by decide), ?_⟩
  · rw [hpreordered.visits_iff 0 (by decide), hwalk]
  · exact Bool.eq_false_iff.mpr fun hcontains => absurd (hapart.mp hcontains) (by decide)

end RegionGraph

end FlowRegions

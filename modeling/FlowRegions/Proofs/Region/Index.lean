import FlowRegions.Region.Verify
import Mathlib.Data.List.Nodup

/-!
# What an analysis records

The owner of a block is the first region that enters its number, and every later entry is kept as a
repetition. Numbering the regions of a walk changes nothing about the tree itself.
-/

namespace FlowRegions

namespace Ownership

theorem lookup_owners_enter (o : Ownership) (b : BlockRef) (r : RegionRef) (index : Nat) :
    (o.enter b r).owners.lookup index =
      (o.owners.lookup index).or (if index == b.index then some r else none) := by
  unfold enter
  cases hb : o.owners.lookup b.index with
  | none =>
      rw [List.lookup_append, List.lookup_cons, List.lookup_nil]
      split <;> simp_all
  | some owner =>
      by_cases h : index = b.index
      · subst h
        simp [hb]
      · simp [h]

theorem repeated_enter_eq_nil_iff (o : Ownership) (b : BlockRef) (r : RegionRef) :
    (o.enter b r).repeated = [] ↔ o.repeated = [] ∧ o.owners.lookup b.index = none := by
  unfold enter
  cases o.owners.lookup b.index <;> simp

theorem lookup_owners_foldl (pairs : List (BlockRef × RegionRef)) (o : Ownership) (index : Nat) :
    (pairs.foldl (fun o pair => o.enter pair.1 pair.2) o).owners.lookup index =
      (o.owners.lookup index).or ((pairs.find? (index == ·.1.index)).map (·.2)) := by
  induction pairs generalizing o with
  | nil => simp
  | cons pair pairs ih =>
      rw [List.foldl_cons, ih, lookup_owners_enter, Option.or_assoc, List.find?_cons]
      cases index == pair.1.index <;> simp

/-- The owner of a number is the first region paired with a block of that number. -/
theorem lookup_owners_ofPairs (pairs : List (BlockRef × RegionRef)) (index : Nat) :
    (ofPairs pairs).owners.lookup index =
      (pairs.find? (index == ·.1.index)).map (·.2) := by
  rw [ofPairs, lookup_owners_foldl]
  rfl

theorem repeated_foldl_eq_nil_iff (pairs : List (BlockRef × RegionRef)) (o : Ownership) :
    (pairs.foldl (fun o pair => o.enter pair.1 pair.2) o).repeated = [] ↔
      o.repeated = [] ∧ (pairs.map (·.1.index)).Nodup ∧
        ∀ pair ∈ pairs, o.owners.lookup pair.1.index = none := by
  induction pairs generalizing o with
  | nil => simp
  | cons pair pairs ih =>
      rw [List.foldl_cons, ih, repeated_enter_eq_nil_iff, List.map_cons, List.nodup_cons,
        List.forall_mem_cons]
      simp only [lookup_owners_enter, Option.or_eq_none_iff, List.mem_map, not_exists, not_and,
        ite_eq_right_iff, reduceCtorEq, imp_false, beq_iff_eq]
      constructor
      · rintro ⟨⟨hrepeated, hpair⟩, hnodup, hrest⟩
        exact ⟨hrepeated, ⟨fun other hmem => (hrest other hmem).2, hnodup⟩, hpair,
          fun other hmem => (hrest other hmem).1⟩
      · rintro ⟨hrepeated, ⟨hne, hnodup⟩, hpair, hrest⟩
        exact ⟨⟨hrepeated, hpair⟩, hnodup, fun other hmem => ⟨hrest other hmem, hne other hmem⟩⟩

theorem repeated_ofPairs_eq_nil_iff (pairs : List (BlockRef × RegionRef)) :
    (ofPairs pairs).repeated = [] ↔ (pairs.map (·.1.index)).Nodup := by
  rw [ofPairs, repeated_foldl_eq_nil_iff]
  simp

end Ownership

namespace Workspace

variable (ws : Workspace) (g : GraphRef) (root : RegionRef)

/-! ### Numbering -/

/-- Numbers regions for the analysis `a`, each by the number it is listed with. -/
def numbered (a : AnalysisRef) (regions : Array Region) (places : List (RegionRef × Nat)) :
    Array Region :=
  places.foldl (fun regions place => regions.modify place.1 fun region =>
    { region with number := place.2, analysis? := some a }) regions

theorem regions_index :
    (ws.index g root).regions = numbered ws.analyses.size ws.regions (ws.walk root).zipIdx := rfl

/-- Numbering keeps whatever does not depend on the number and the analysis of a region. -/
theorem map_getElem?_numbered {β : Type*} (view : Region → β)
    (hview : ∀ region number analysis?, view { region with number, analysis? } = view region)
    (a : AnalysisRef) (regions : Array Region) (places : List (RegionRef × Nat)) (r : RegionRef) :
    (numbered a regions places)[r]?.map view = regions[r]?.map view := by
  induction places generalizing regions with
  | nil => rfl
  | cons place places ih =>
      rw [numbered, List.foldl_cons]
      refine (ih _).trans ?_
      rw [Array.getElem?_modify]
      split
      · rw [Option.map_map]
        exact congrArg (Option.map · _) (funext fun region => hview region _ _)
      · rfl

theorem getElem?_numbered_of_not_mem (a : AnalysisRef) (regions : Array Region)
    {places : List (RegionRef × Nat)} {r : RegionRef} (h : r ∉ places.map (·.1)) :
    (numbered a regions places)[r]? = regions[r]? := by
  induction places generalizing regions with
  | nil => rfl
  | cons place places ih =>
      rw [List.map_cons, List.mem_cons, not_or] at h
      rw [numbered, List.foldl_cons]
      refine (ih _ h.2).trans ?_
      rw [Array.getElem?_modify, if_neg (Ne.symm h.1)]

theorem getElem?_numbered_of_mem (a : AnalysisRef) (regions : Array Region)
    {places : List (RegionRef × Nat)} (hnodup : (places.map (·.1)).Nodup)
    {r : RegionRef} {number : Nat} (h : (r, number) ∈ places) :
    (numbered a regions places)[r]? = regions[r]?.map fun region =>
      { region with number := number, analysis? := some a } := by
  induction places generalizing regions with
  | nil => exact absurd h List.not_mem_nil
  | cons place places ih =>
      rw [List.map_cons, List.nodup_cons] at hnodup
      rw [numbered, List.foldl_cons]
      rcases List.mem_cons.mp h with rfl | h
      · refine (getElem?_numbered_of_not_mem a _ hnodup.1).trans ?_
        rw [Array.getElem?_modify, if_pos rfl]
      · have hne : place.1 ≠ r := by
          rintro rfl
          exact hnodup.1 (List.mem_map.mpr ⟨_, h, rfl⟩)
        refine (ih _ hnodup.2 h).trans ?_
        rw [Array.getElem?_modify, if_neg hne]

/-- Every numbered region remembers the analysis, however often it is numbered. -/
theorem map_analysis?_numbered_of_mem (a : AnalysisRef) (regions : Array Region)
    {places : List (RegionRef × Nat)} {r : RegionRef} (h : r ∈ places.map (·.1)) :
    (numbered a regions places)[r]?.map (·.analysis?) = regions[r]?.map fun _ => some a := by
  induction places generalizing regions with
  | nil => exact absurd h List.not_mem_nil
  | cons place places ih =>
      rw [numbered, List.foldl_cons]
      by_cases hrest : r ∈ places.map (·.1)
      · refine (ih _ hrest).trans ?_
        rw [Array.getElem?_modify]
        split
        · rw [Option.map_map]
          rfl
        · rfl
      · obtain rfl : r = place.1 := (List.mem_cons.mp h).resolve_right hrest
        refine (congrArg _ (getElem?_numbered_of_not_mem a _ hrest)).trans ?_
        rw [Array.getElem?_modify, if_pos rfl, Option.map_map]
        rfl

theorem map_getElem?_index {β : Type*} (view : Region → β)
    (hview : ∀ region number analysis?, view { region with number, analysis? } = view region)
    (r : RegionRef) : (ws.index g root).regions[r]?.map view = ws.regions[r]?.map view := by
  rw [regions_index]
  exact map_getElem?_numbered view hview _ _ _ r

@[simp] theorem size_regions_index : (ws.index g root).regions.size = ws.regions.size := by
  rw [regions_index]
  generalize (ws.walk root).zipIdx = places
  generalize ws.regions = regions
  induction places generalizing regions with
  | nil => rfl
  | cons place places ih =>
      rw [numbered, List.foldl_cons]
      exact (ih _).trans Array.size_modify

@[simp] theorem graphs_index : (ws.index g root).graphs = ws.graphs := rfl

@[simp] theorem owned_index (r : RegionRef) : (ws.index g root).owned r = ws.owned r := by
  rw [owned, owned, map_getElem?_index ws g root (·.owned) (fun _ _ _ => rfl)]

@[simp] theorem children_index (r : RegionRef) :
    (ws.index g root).children r = ws.children r := by
  rw [children, children, map_getElem?_index ws g root (·.children) (fun _ _ _ => rfl)]

theorem bind_getElem?_eq_map_join {α : Type*} (view : Region → Option α) (region? : Option Region) :
    region?.bind view = (region?.map view).join := by
  cases region? <;> rfl

@[simp] theorem parent?_index (r : RegionRef) :
    (ws.index g root).parent? r = ws.parent? r := by
  rw [parent?, parent?, bind_getElem?_eq_map_join, bind_getElem?_eq_map_join,
    map_getElem?_index ws g root (·.parent?) (fun _ _ _ => rfl)]

theorem analysis?_index {r : RegionRef} (hr : r ∈ ws.walk root) (hlt : r < ws.regions.size) :
    (ws.index g root).regions[r]?.bind (·.analysis?) = some ws.analyses.size := by
  rw [bind_getElem?_eq_map_join, regions_index, map_analysis?_numbered_of_mem]
  · rw [Array.getElem?_eq_getElem hlt]
    rfl
  · rwa [List.zipIdx_map_fst]

theorem getElem?_regions_index (hnodup : (ws.walk root).Nodup) {r : RegionRef} {number : Nat}
    (hr : (ws.walk root)[number]? = some r) :
    (ws.index g root).regions[r]? = ws.regions[r]?.map fun region =>
      { region with number := number, analysis? := some ws.analyses.size } := by
  rw [regions_index]
  apply getElem?_numbered_of_mem
  · rwa [List.zipIdx_map_fst]
  · exact List.mem_zipIdx_iff_getElem?.mpr hr

@[simp] theorem blocksOf_index (k : GraphRef) : (ws.index g root).blocksOf k = ws.blocksOf k := rfl

end Workspace

end FlowRegions

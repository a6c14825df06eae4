import FlowRegions.Proofs.Region.Building
import Mathlib.Data.Finset.Card

/-!
# Regions that are attached without restraint

Nothing keeps a region from being attached again, to the same region or to another one. Its parent
is then the region it was attached to last, but every region that it was attached to keeps it as a
child. As long as no children lead back, an analysis that is accepted finds no such region: one that
is reached twice is visited twice, and then the block that it is entered at has two entries as well.
-/

namespace FlowRegions.Workspace

variable {ws ws' : Workspace} {root : RegionRef}

/-- The workspaces that come about when any region may be attached to any other at any time. -/
inductive Wired : Workspace → Prop
  | empty : Wired {}
  | addGraph {ws : Workspace} (h : Wired ws) (name : String) : Wired (ws.addGraph name)
  | addBlock {ws ws' : Workspace} {g : GraphRef} {name? : Option String}
      {instructions : List String} (h : Wired ws)
      (hadd : ws.addBlock g name? instructions = .ok ws') : Wired ws'
  | addEdge {ws : Workspace} (h : Wired ws) (g : GraphRef) (source target : BlockRef) :
      Wired (ws.addEdge g source target)
  | addRegion {ws : Workspace} (h : Wired ws) (entry : BlockRef) (exit? : Option BlockRef)
      (owned : List BlockRef) (simple? : Option Bool) :
      Wired (ws.addRegion { entry, exit?, owned, simple? })
  | attach {ws : Workspace} {parent child : RegionRef} (h : Wired ws)
      (hparent : parent < ws.regions.size) (hchild : child < ws.regions.size) :
      Wired (ws.attach parent child)
  | own {ws : Workspace} (h : Wired ws) (r : RegionRef) (b : BlockRef) : Wired (ws.own r b)
  | index {ws : Workspace} (h : Wired ws) (g : GraphRef) (root : RegionRef) :
      Wired (ws.index g root)

/-! ### Links -/

/-- A parent has the region among its children, and children exist. -/
structure LinksBack (ws : Workspace) : Prop where
  mem_children : ∀ r parent, ws.parent? r = some parent → r ∈ ws.children parent
  child_lt : ∀ r child, child ∈ ws.children r → child < ws.regions.size

@[simp] theorem size_regions_attach (parent child : RegionRef) :
    (ws.attach parent child).regions.size = ws.regions.size := by
  simp [Workspace.attach, modifyRegion]

namespace LinksBack

theorem congr (h : ws.LinksBack) (hsize : ws.regions.size ≤ ws'.regions.size)
    (hparent : ∀ r, ws'.parent? r = ws.parent? r)
    (hchildren : ∀ r, ws'.children r = ws.children r) : ws'.LinksBack where
  mem_children r parent hlink := by
    rw [hchildren]
    exact h.mem_children r parent (hparent r ▸ hlink)
  child_lt r child hchild := by
    rw [hchildren] at hchild
    exact Nat.lt_of_lt_of_le (h.child_lt r child hchild) hsize

theorem attach (h : ws.LinksBack) {parent child : RegionRef} (hparent : parent < ws.regions.size)
    (hchild : child < ws.regions.size) : (ws.attach parent child).LinksBack where
  mem_children r p hlink := by
    rw [parent?_attach hchild] at hlink
    rw [children_attach hparent]
    split at hlink
    · next hr =>
        rw [if_pos (Option.some.inj hlink).symm, hr]
        exact List.mem_append_right _ List.mem_cons_self
    · have hold := h.mem_children r p hlink
      split
      · exact List.mem_append_left _ hold
      · exact hold
  child_lt r c hc := by
    rw [children_attach hparent] at hc
    rw [size_regions_attach]
    split at hc
    · rcases List.mem_append.mp hc with hc | hc
      · exact h.child_lt r c hc
      · rwa [List.mem_singleton.mp hc]
    · exact h.child_lt r c hc

end LinksBack

theorem Wired.linksBack (h : ws.Wired) : ws.LinksBack := by
  induction h with
  | empty => exact ⟨by simp [parent?], by simp [children]⟩
  | addGraph _ name ih => exact ih.congr (le_refl _) (fun _ => rfl) (fun _ => rfl)
  | addBlock _ hadd ih =>
      have hregions := regions_addBlock hadd
      refine ih.congr (by rw [hregions]) (fun r => ?_) (fun r => ?_)
      · rw [parent?, parent?, hregions]
      · rw [children, children, hregions]
  | addEdge _ g source target ih => exact ih.congr (le_refl _) (fun _ => rfl) (fun _ => rfl)
  | addRegion _ entry exit? owned simple? ih =>
      refine ih.congr ?_ (parent?_addRegion rfl) (children_addRegion rfl)
      rw [Workspace.addRegion, Array.size_push]
      exact Nat.le_succ _
  | attach _ hparent hchild ih => exact ih.attach hparent hchild
  | own _ r b ih =>
      refine ih.congr ?_ (parent?_own r b) (children_own r b)
      rw [Workspace.own, modifyRegion, Array.size_modify]
  | index _ g root ih =>
      exact ih.congr (size_regions_index _ g root).ge (parent?_index _ g root)
        (children_index _ g root)

/-! ### Reaching -/

/-- Going from child to child leads from one region to another. -/
abbrev Reaches (ws : Workspace) : RegionRef → RegionRef → Prop :=
  Relation.ReflTransGen fun outer inner => inner ∈ ws.children outer

/-- From `root` onwards no region is reached from one of its own children. -/
def AcyclicFrom (ws : Workspace) (root : RegionRef) : Prop :=
  ∀ r, ws.Reaches root r → ∀ child ∈ ws.children r, ¬ ws.Reaches child r

theorem acyclicFrom_of_height (height : RegionRef → Nat)
    (h : ∀ r, ∀ child ∈ ws.children r, height child < height r) (root : RegionRef) :
    ws.AcyclicFrom root := by
  have hle : ∀ {outer inner}, ws.Reaches outer inner → height inner ≤ height outer := by
    intro outer inner hreach
    induction hreach with
    | refl => exact le_refl _
    | @tail middle inner _ hchild ih => exact (h middle inner hchild).le.trans ih
  intro r _ child hchild hback
  exact Nat.not_le_of_lt (h r child hchild) (hle hback)

namespace LinksBack

theorem lt_of_reaches (h : ws.LinksBack) {r x : RegionRef} (hr : r < ws.regions.size)
    (hx : ws.Reaches r x) : x < ws.regions.size := by
  cases hx with
  | refl => exact hr
  | tail _ hchild => exact h.child_lt _ _ hchild

/-- Whatever climbing from parent to parent leads to also leads back. -/
theorem reaches_of_climbs (h : ws.LinksBack) {inner outer : RegionRef}
    (hclimb : ws.Climbs inner outer) : ws.Reaches outer inner := by
  induction hclimb with
  | refl => exact .refl
  | tail _ hlink ih => exact .head (h.mem_children _ _ hlink) ih

theorem lt_of_climbs (h : ws.LinksBack) {r x : RegionRef} (hr : r < ws.regions.size)
    (hclimb : ws.Climbs r x) : x < ws.regions.size := by
  cases hclimb with
  | refl => exact hr
  | tail _ hlink => exact lt_of_mem_children (h.mem_children _ _ hlink)

/-- Wherever a climb ends, a lineage is all of it. -/
theorem isLineage_lineage (h : ws.LinksBack) {r : RegionRef} (hr : r < ws.regions.size)
    {chain : List RegionRef} (hchain : ws.IsLineage r chain) : ws.IsLineage r (ws.lineage r) := by
  have hinside : ∀ x ∈ chain, x < ws.regions.size :=
    fun x hx => h.lt_of_climbs hr (hchain.climbs_of_mem hx)
  rwa [hchain.lineage_eq hinside]

/-- The count of the regions that are reached from the children of a region falls from a region to
its children. -/
theorem exists_height (h : ws.LinksBack) (hroot : root < ws.regions.size)
    (hacyclic : ws.AcyclicFrom root) :
    ∃ height : RegionRef → Nat, ∀ r, ws.Reaches root r → height r < ws.regions.size ∧
      ∀ child ∈ ws.children r, height child < height r := by
  classical
  let below (r : RegionRef) : Finset RegionRef :=
    (Finset.range ws.regions.size).filter fun x => ∃ child ∈ ws.children r, ws.Reaches child x
  have hself : ∀ r, ws.Reaches root r → r ∉ below r := by
    intro r hr hmem
    obtain ⟨child, hchild, hback⟩ := (Finset.mem_filter.mp hmem).2
    exact hacyclic r hr child hchild hback
  refine ⟨fun r => (below r).card, fun r hr => ⟨?_, fun child hchild => ?_⟩⟩
  · rw [← Finset.card_range ws.regions.size]
    apply Finset.card_lt_card
    rw [Finset.ssubset_iff_of_subset (Finset.filter_subset _ _)]
    exact ⟨r, Finset.mem_range.mpr (h.lt_of_reaches hroot hr), hself r hr⟩
  · have hsub : below child ⊆ below r := by
      intro x hx
      obtain ⟨hlt, grandchild, hgrandchild, hreach⟩ := Finset.mem_filter.mp hx
      exact Finset.mem_filter.mpr ⟨hlt, child, hchild, .head hgrandchild hreach⟩
    apply Finset.card_lt_card
    rw [Finset.ssubset_iff_of_subset hsub]
    have hmem : child ∈ below r := Finset.mem_filter.mpr
      ⟨Finset.mem_range.mpr (h.child_lt r child hchild), child, hchild, .refl⟩
    exact ⟨child, hmem, hself child (hr.tail hchild)⟩

end LinksBack

/-! ### Walking -/

theorem reaches_of_mem_walkWithin {limit : Nat} {r x : RegionRef}
    (hx : x ∈ ws.walkWithin limit r) : ws.Reaches r x := by
  induction limit generalizing r with
  | zero => exact absurd hx List.not_mem_nil
  | succ limit ih =>
      rw [walkWithin] at hx
      rcases List.mem_cons.mp hx with rfl | hx
      · exact .refl
      · obtain ⟨child, hchild, hx⟩ := List.mem_flatMap.mp hx
        exact .head hchild (ih hx)

theorem walkWithin_eq_of_height {height : RegionRef → Nat}
    (hheight : ∀ r, ws.Reaches root r → ∀ child ∈ ws.children r, height child < height r)
    {limit limit' : Nat} {r : RegionRef} (hr : ws.Reaches root r) (hlimit : height r < limit)
    (hlimit' : height r < limit') : ws.walkWithin limit r = ws.walkWithin limit' r := by
  induction limit generalizing limit' r with
  | zero => exact absurd hlimit (Nat.not_lt_zero _)
  | succ limit ih =>
      obtain ⟨limit', rfl⟩ := Nat.exists_eq_add_one_of_ne_zero (Nat.ne_zero_of_lt hlimit')
      rw [walkWithin, walkWithin]
      apply congrArg (r :: ·)
      apply List.flatMap_congr
      intro child hchild
      have hlt := hheight r hr child hchild
      exact ih (hr.tail hchild) (by omega) (by omega)

theorem count_le_count_flatMap {α β : Type*} [BEq α] [LawfulBEq α] [BEq β] [LawfulBEq β] {a : α}
    {b : β} {f : α → List β} (h : b ∈ f a) (xs : List α) :
    xs.count a ≤ (xs.flatMap f).count b := by
  induction xs with
  | nil => exact le_refl _
  | cons x xs ih =>
      rw [List.flatMap_cons, List.count_append, List.count_cons]
      by_cases hx : x = a
      · subst hx
        have hpos := List.count_pos_iff.mpr h
        simp only [BEq.refl, if_true]
        omega
      · simp only [beq_iff_eq, hx, if_false]
        omega

/-- Where no children lead back, the bound on walks never cuts one short. -/
structure WalksFrom (ws : Workspace) (root : RegionRef) : Prop where
  links : ws.LinksBack
  root_lt : root < ws.regions.size
  acyclic : ws.AcyclicFrom root

namespace WalksFrom

variable (h : ws.WalksFrom root)

include h

/-- What holds of a region if it holds of its children holds of every region that is reached. -/
@[elab_as_elim]
theorem induction_on {motive : RegionRef → Prop}
    (step : ∀ r, ws.Reaches root r → (∀ child ∈ ws.children r, motive child) → motive r)
    {r : RegionRef} (hr : ws.Reaches root r) : motive r := by
  obtain ⟨height, hheight⟩ := h.links.exists_height h.root_lt h.acyclic
  induction hn : height r using Nat.strong_induction_on generalizing r with
  | _ n ih =>
      apply step r hr
      intro child hchild
      have hlt := (hheight r hr).2 child hchild
      exact ih (height child) (hn ▸ hlt) (hr.tail hchild) rfl

theorem walkWithin_eq_walk {limit : Nat} {r : RegionRef} (hr : ws.Reaches root r)
    (hlimit : ws.regions.size ≤ limit) : ws.walkWithin limit r = ws.walk r := by
  obtain ⟨height, hheight⟩ := h.links.exists_height h.root_lt h.acyclic
  have hlt := (hheight r hr).1
  exact walkWithin_eq_of_height (fun r hr => (hheight r hr).2) hr (by omega) hlt

theorem walk_eq_cons {r : RegionRef} (hr : ws.Reaches root r) :
    ws.walk r = r :: (ws.children r).flatMap ws.walk := by
  rw [← h.walkWithin_eq_walk hr (Nat.le_succ _), walkWithin]
  rfl

theorem mem_walk_iff {r x : RegionRef} (hr : ws.Reaches root r) :
    x ∈ ws.walk r ↔ ws.Reaches r x := by
  refine h.induction_on (fun r hr ih => ?_) hr
  rw [h.walk_eq_cons hr, List.mem_cons, List.mem_flatMap, eq_comm]
  refine Iff.trans ?_ Relation.ReflTransGen.cases_head_iff.symm
  apply or_congr_right
  apply exists_congr
  intro child
  exact and_congr_right (ih child)

theorem lt_of_mem_walk {r : RegionRef} (hr : r ∈ ws.walk root) : r < ws.regions.size :=
  h.links.lt_of_reaches h.root_lt ((h.mem_walk_iff .refl).mp hr)

/-- A walk visits its first region and the children of every region that it visits, as often as it
visits that region. -/
theorem walk_perm {r : RegionRef} (hr : ws.Reaches root r) :
    (ws.walk r).Perm (r :: (ws.walk r).flatMap ws.children) := by
  refine h.induction_on (fun r hr ih => ?_) hr
  have hbelow : ((ws.children r).flatMap ws.walk).Perm
      ((ws.children r).flatMap fun child => [child] ++ (ws.walk child).flatMap ws.children) :=
    List.Perm.flatMap_left _ ih
  rw [h.walk_eq_cons hr, List.flatMap_cons, List.flatMap_assoc]
  apply List.Perm.cons
  refine hbelow.trans ((List.flatMap_append_perm _ _ _).symm.trans ?_)
  rw [List.flatMap_singleton']

theorem count_le_count_of_reaches {r x y : RegionRef} (hr : ws.Reaches root r)
    (hxy : ws.Reaches x y) : (ws.walk r).count x ≤ (ws.walk r).count y := by
  induction hxy with
  | refl => exact le_refl _
  | @tail y z _ hchild ih =>
      rw [(h.walk_perm hr).count_eq z, List.count_cons]
      have hle := count_le_count_flatMap hchild (ws.walk r)
      omega

/-! ### Accepted analyses -/

theorem exists_owner_of_contains_index {g : GraphRef} {r : RegionRef} {b : BlockRef}
    (hr : r ∈ ws.walk root)
    (hcontains : (ws.index g root).contains r b = true) :
    ∃ owner, (ws.index g root).regionFor ws.analyses.size b = some owner ∧
      ws.Reaches r owner := by
  rw [contains, analysis?_index ws g root hr (h.lt_of_mem_walk hr)] at hcontains
  cases howner : (ws.index g root).regionFor ws.analyses.size b with
  | none => simp [howner] at hcontains
  | some owner =>
      simp only [howner] at hcontains
      rw [containsRegion, List.contains_iff_mem,
        lineage_congr (size_regions_index ws g root) (parent?_index ws g root)] at hcontains
      exact ⟨owner, rfl, h.links.reaches_of_climbs (climbs_of_mem_lineageWithin hcontains)⟩

/-- A walk below an accepted analysis visits no region twice. -/
theorem nodup_walk {g : GraphRef} (hok : (ws.analyse g root).2 = .ok ()) :
    (ws.walk root).Nodup := by
  rw [snd_analyse, verify_eq_ok_iff getElem?_analyses_index] at hok
  obtain ⟨hrepeated, _, _, hentries⟩ := hok
  rw [Ownership.repeated_ofPairs_eq_nil_iff, map_index_ownedPairs] at hrepeated
  rw [List.nodup_iff_count_le_one]
  intro r
  by_cases hr : r ∈ ws.walk root
  · have hlt := h.lt_of_mem_walk hr
    obtain ⟨region, hregion⟩ : ∃ region, (ws.index g root).regions[r]? = some region := by
      rw [← size_regions_index ws g root] at hlt
      exact ⟨_, Array.getElem?_eq_getElem hlt⟩
    have hcontains := hentries r (by rwa [walk_index]) region hregion
    obtain ⟨owner, howner, hreach⟩ := h.exists_owner_of_contains_index hr hcontains
    obtain ⟨_, b, hb, _⟩ := (regionFor_index_eq_some_iff hrepeated).mp howner
    -- Every visit of the region leads to a visit of the owner, and that to an entry of its block.
    calc (ws.walk root).count r ≤ (ws.walk root).count owner :=
          h.count_le_count_of_reaches .refl hreach
      _ ≤ (ws.ownedBelow root).count b := count_le_count_flatMap hb _
      _ ≤ 1 := List.nodup_iff_count_le_one.mp hrepeated.of_map b
  · rw [List.count_eq_zero_of_not_mem hr]
    exact Nat.zero_le 1

theorem number_index {g : GraphRef} (hnodup : (ws.walk root).Nodup) {r : RegionRef} {i : Nat}
    (hr : (ws.walk root)[i]? = some r) : (ws.index g root).number r = i := by
  have hlt := h.lt_of_mem_walk (List.mem_of_getElem? hr)
  rw [number, getElem?_regions_index ws g root hnodup hr, Array.getElem?_eq_getElem hlt]
  rfl

theorem map_number_index {g : GraphRef} (hnodup : (ws.walk root).Nodup) :
    (ws.walk root).map (ws.index g root).number =
      (List.range (ws.walk root).length).map (fun n : Nat => (n : Int)) := by
  apply List.ext_getElem?
  intro i
  rw [List.getElem?_map, List.getElem?_map]
  cases hr : (ws.walk root)[i]? with
  | none =>
      have hlen := List.getElem?_eq_none_iff.mp hr
      rw [List.getElem?_eq_none (by simpa using hlen)]
      rfl
  | some r =>
      obtain ⟨hi, _⟩ := List.getElem?_eq_some_iff.mp hr
      rw [List.getElem?_range hi, Option.map_some, Option.map_some, h.number_index hnodup hr]

end WalksFrom

end FlowRegions.Workspace

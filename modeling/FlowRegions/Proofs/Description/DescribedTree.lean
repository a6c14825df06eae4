import FlowRegions.Proofs.Description.DescribedGraph
import Mathlib.Data.List.Nodup

/-!
# Described region trees

A region tree that is described by known names is a tree over the places of these names. It is
sound exactly if every name is owned once and every region owns its entry, or contains a region that
does.
-/

namespace FlowRegions

namespace RegionDescription

def entry : RegionDescription → String
  | node entry _ _ _ _ => entry

def exit? : RegionDescription → Option String
  | node _ exit? _ _ _ => exit?

def owned : RegionDescription → List String
  | node _ _ _ owned _ => owned

/-- The regions of a description, each before those inside it. -/
def subtrees : RegionDescription → List RegionDescription
  | node entry exit? simple? owned children =>
    node entry exit? simple? owned children :: children.flatMap subtrees

@[simp] theorem subtrees_node (entry : String) (exit? : Option String) (simple? : Option Bool)
    (owned : List String) (children : List RegionDescription) :
    (node entry exit? simple? owned children).subtrees =
      node entry exit? simple? owned children :: children.flatMap subtrees := by
  rw [subtrees]

/-- The names that the regions of a description own. -/
def allOwned (t : RegionDescription) : List String :=
  t.subtrees.flatMap owned

/-- The names in a region are those of blocks. -/
structure NamesIn (names : List String) (t : RegionDescription) : Prop where
  entry_mem : t.entry ∈ names
  exit_mem : ∀ exit ∈ t.exit?, exit ∈ names
  owned_mem : ∀ name ∈ t.owned, name ∈ names

/-- The names in all regions are those of blocks. -/
def Known (names : List String) (t : RegionDescription) : Prop :=
  ∀ s ∈ t.subtrees, s.NamesIn names

mutual

/-- The tree with every name replaced by its place among the names. -/
def numbered (names : List String) : RegionDescription → RegionTree
  | .node entry exit? simple? owned children => .node
    { entry := names.idxOf entry
      exit? := exit?.map names.idxOf
      owned := owned.map names.idxOf
      simple? } (numberedItems names children)

def numberedItems (names : List String) : List RegionDescription → List RegionTree
  | [] => []
  | child :: rest => numbered names child :: numberedItems names rest

end

variable {names : List String} {g : Cfg}

theorem numberedItems_eq_map (children : List RegionDescription) :
    numberedItems names children = children.map (numbered names) := by
  induction children with
  | nil => rfl
  | cons child rest ih => rw [numberedItems, ih, List.map_cons]

theorem known_node {entry : String} {exit? : Option String} {simple? : Option Bool}
    {owned : List String} {children : List RegionDescription} :
    (node entry exit? simple? owned children).Known names ↔
      (node entry exit? simple? owned children).NamesIn names ∧
        ∀ child ∈ children, child.Known names := by
  simp only [Known, subtrees_node, List.forall_mem_cons, List.mem_flatMap]
  exact and_congr_right' ⟨fun h child hchild s hs => h s ⟨child, hchild, hs⟩,
    fun h s ⟨child, hchild, hs⟩ => h child hchild s hs⟩

/-! ### Resolving -/

theorem mapM_find?_eq_some_iff (h : g.Named names) {owned : List String} {indices : List Nat} :
    owned.mapM g.find? = some indices ↔
      (∀ name ∈ owned, name ∈ names) ∧ indices = owned.map names.idxOf := by
  induction owned generalizing indices with
  | nil => simp [eq_comm]
  | cons name rest ih =>
      simp only [List.mapM_cons, Option.bind_eq_bind, Option.bind_eq_some_iff, ih,
        h.find?_eq_some_iff, List.forall_mem_cons, List.map_cons]
      constructor
      · rintro ⟨_, ⟨hname, rfl⟩, _, ⟨hrest, rfl⟩, heq⟩
        exact ⟨⟨hname, hrest⟩, (Option.some.inj heq).symm⟩
      · rintro ⟨⟨hname, hrest⟩, rfl⟩
        exact ⟨_, ⟨hname, rfl⟩, _, ⟨hrest, rfl⟩, rfl⟩

theorem exitIn?_eq_some_iff (h : g.Named names) {exit? : Option String} {index? : Option Nat} :
    exitIn? g exit? = some index? ↔
      (∀ exit ∈ exit?, exit ∈ names) ∧ index? = exit?.map names.idxOf := by
  cases exit? with
  | none => simp [exitIn?, eq_comm]
  | some exit =>
      simp only [exitIn?, Option.map_eq_some_iff, h.find?_eq_some_iff, Option.mem_some_iff,
        forall_eq', Option.map_some]
      constructor
      · rintro ⟨_, ⟨hexit, rfl⟩, rfl⟩
        exact ⟨hexit, rfl⟩
      · rintro ⟨hexit, rfl⟩
        exact ⟨_, ⟨hexit, rfl⟩, rfl⟩

mutual

/-- A description resolves exactly if its names are known. -/
theorem resolve?_eq_some_iff (h : g.Named names) :
    ∀ {t : RegionDescription} {tree : RegionTree},
      t.resolve? g = some tree ↔ t.Known names ∧ tree = t.numbered names
  | .node entry exit? simple? owned children, tree => by
    rw [known_node, numbered]
    simp only [resolve?, headerIn?, Option.bind_eq_bind, Option.bind_eq_some_iff,
      h.find?_eq_some_iff, exitIn?_eq_some_iff h, mapM_find?_eq_some_iff h,
      resolveItems?_eq_some_iff h]
    constructor
    · rintro ⟨_, ⟨_, ⟨hentry, rfl⟩, _, ⟨hexit, rfl⟩, _, ⟨howned, rfl⟩, hheader⟩, _,
        ⟨hchildren, rfl⟩, heq⟩
      obtain rfl := Option.some.inj hheader
      exact ⟨⟨⟨hentry, hexit, howned⟩, hchildren⟩, (Option.some.inj heq).symm⟩
    · rintro ⟨⟨⟨hentry, hexit, howned⟩, hchildren⟩, rfl⟩
      exact ⟨_, ⟨_, ⟨hentry, rfl⟩, _, ⟨hexit, rfl⟩, _, ⟨howned, rfl⟩, rfl⟩,
        _, ⟨hchildren, rfl⟩, rfl⟩

theorem resolveItems?_eq_some_iff (h : g.Named names) :
    ∀ {children : List RegionDescription} {trees : List RegionTree},
      resolveItems? g children = some trees ↔
        (∀ child ∈ children, child.Known names) ∧ trees = numberedItems names children
  | [], trees => by simp [resolveItems?, numberedItems, eq_comm]
  | child :: rest, trees => by
    simp only [resolveItems?, numberedItems, Option.bind_eq_bind, Option.bind_eq_some_iff,
      resolve?_eq_some_iff h, resolveItems?_eq_some_iff h, List.forall_mem_cons]
    constructor
    · rintro ⟨_, ⟨hchild, rfl⟩, _, ⟨hrest, rfl⟩, heq⟩
      exact ⟨⟨hchild, hrest⟩, (Option.some.inj heq).symm⟩
    · rintro ⟨⟨hchild, hrest⟩, rfl⟩
      exact ⟨_, ⟨hchild, rfl⟩, _, ⟨hrest, rfl⟩, rfl⟩

end

/-! ### Soundness -/

theorem subtrees_numbered (t : RegionDescription) :
    (t.numbered names).subtrees = t.subtrees.map (numbered names) := by
  induction t with
  | node entry exit? simple? owned children ih =>
      rw [subtrees_node, numbered, RegionTree.subtrees_node, numberedItems_eq_map, List.map_cons,
        numbered, numberedItems_eq_map, List.flatMap_map, List.map_flatMap]
      apply congrArg
      apply List.flatMap_congr
      intro child hchild
      exact ih child hchild

theorem allOwned_numbered (t : RegionDescription) :
    (t.numbered names).allOwned = t.allOwned.map names.idxOf := by
  rw [RegionTree.allOwned, allOwned, subtrees_numbered, List.flatMap_map, List.map_flatMap]
  apply List.flatMap_congr
  intro s _
  cases s
  rfl

theorem entry_numbered (t : RegionDescription) :
    (t.numbered names).header.entry = names.idxOf t.entry := by
  cases t
  rfl

theorem subtrees_subset {t s : RegionDescription} (h : s ∈ t.subtrees) :
    s.subtrees ⊆ t.subtrees := by
  induction t with
  | node entry exit? simple? owned children ih =>
      rw [subtrees_node, List.mem_cons] at h
      rcases h with rfl | h
      · exact List.Subset.refl _
      · obtain ⟨child, hchild, hs⟩ := List.mem_flatMap.mp h
        intro u hu
        rw [subtrees_node]
        exact List.mem_cons_of_mem _ (List.mem_flatMap.mpr ⟨child, hchild, ih child hchild hs hu⟩)

theorem Known.subtree {t s : RegionDescription} (h : t.Known names) (hs : s ∈ t.subtrees) :
    s.Known names := fun u hu => h u (subtrees_subset hs hu)

theorem Known.allOwned_mem {t : RegionDescription} (h : t.Known names) {name : String}
    (hname : name ∈ t.allOwned) : name ∈ names := by
  obtain ⟨s, hs, howned⟩ := List.mem_flatMap.mp hname
  exact (h s hs).owned_mem name howned

theorem map_idxOf_self (h : names.Nodup) : names.map names.idxOf = List.range names.length := by
  refine List.ext_getElem (by simp) fun i hi hi' => ?_
  rw [List.getElem_map, List.getElem_range]
  exact h.idxOf_getElem i _

theorem map_getD_idxOf {owned : List String} (h : ∀ name ∈ owned, name ∈ names) :
    (owned.map names.idxOf).map (names.getD · "") = owned := by
  rw [List.map_map]
  apply Eq.trans _ (List.map_id owned)
  apply List.map_congr_left
  intro name hname
  have hlt := List.idxOf_lt_length_of_mem (h name hname)
  simp [List.getD, hlt]

/-- Distinct names are owned once each exactly if their places are. -/
theorem map_idxOf_perm_range_iff (h : names.Nodup) {owned : List String}
    (howned : ∀ name ∈ owned, name ∈ names) :
    (owned.map names.idxOf).Perm (List.range names.length) ↔
      ∀ name ∈ names, owned.count name = 1 := by
  rw [← map_idxOf_self h]
  have hback : (owned.map names.idxOf).Perm (names.map names.idxOf) ↔ owned.Perm names := by
    constructor
    · intro hperm
      have hmap := hperm.map (names.getD · "")
      rwa [map_getD_idxOf howned, map_getD_idxOf fun _ => id] at hmap
    · intro hperm
      exact hperm.map _
  rw [hback, List.perm_iff_count]
  constructor
  · intro hcount name hname
    rw [hcount, List.count_eq_one_of_mem h hname]
  · intro hcount name
    by_cases hname : name ∈ names
    · rw [hcount name hname, List.count_eq_one_of_mem h hname]
    · rw [List.count_eq_zero_of_not_mem hname,
        List.count_eq_zero_of_not_mem fun hmem => hname (howned name hmem)]

/-- A described tree is sound exactly if every name is owned once, and the entry of every region by
itself or by a region inside it. -/
theorem sound_numbered_iff (h : names.Nodup) {t : RegionDescription} (hknown : t.Known names) :
    (t.numbered names).Sound names.length ↔
      (∀ name ∈ names, t.allOwned.count name = 1) ∧ ∀ s ∈ t.subtrees, s.entry ∈ s.allOwned := by
  have hperm := map_idxOf_perm_range_iff h fun name hname => hknown.allOwned_mem hname
  have hentries : (∀ s ∈ (t.numbered names).subtrees, s.header.entry ∈ s.allOwned) ↔
      ∀ s ∈ t.subtrees, s.entry ∈ s.allOwned := by
    rw [subtrees_numbered, List.forall_mem_map]
    apply forall₂_congr
    intro s hs
    rw [entry_numbered, allOwned_numbered, List.mem_map]
    constructor
    · rintro ⟨name, hname, heq⟩
      have hmem := (hknown.subtree hs).allOwned_mem hname
      rwa [(List.idxOf_inj hmem).mp heq] at hname
    · intro hmem
      exact ⟨_, hmem, rfl⟩
  rw [← hentries, ← hperm, ← allOwned_numbered]
  constructor
  · intro hsound
    exact ⟨hsound.perm, hsound.entry_mem⟩
  · rintro ⟨hperm, hentry⟩
    exact ⟨hperm, hentry⟩

end RegionDescription

end FlowRegions

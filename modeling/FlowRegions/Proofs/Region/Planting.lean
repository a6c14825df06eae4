import FlowRegions.Region.Tree
import FlowRegions.Proofs.Region.Walk

/-!
# Planted trees

Planting a tree appends its regions to those of the workspace in the order of a walk, linked to each
other by position. The table of these regions is computed here from the tree alone; every subtree
occupies one consecutive part of it.
-/

namespace FlowRegions

namespace RegionTree

def header : RegionTree → RegionHeader
  | node header _ => header

/-- The subtrees of a tree, each before those below it. -/
def subtrees : RegionTree → List RegionTree
  | node header children => node header children :: children.flatMap subtrees

@[simp] theorem subtrees_node (header : RegionHeader) (children : List RegionTree) :
    (node header children).subtrees = node header children :: children.flatMap subtrees := by
  rw [subtrees]

/-- The blocks that the regions of a tree own, in the order of a walk. -/
def allOwned (t : RegionTree) : List Nat :=
  t.subtrees.flatMap (·.header.owned)

@[simp] theorem allOwned_node (header : RegionHeader) (children : List RegionTree) :
    (node header children).allOwned = header.owned ++ children.flatMap allOwned := by
  rw [allOwned, subtrees_node, List.flatMap_cons, List.flatMap_assoc]
  rfl

/-! ### Tables -/

/-- The references of the outermost regions of trees that are planted one after the other. -/
def roots (base : RegionRef) : List RegionTree → List RegionRef
  | [] => []
  | child :: rest => base :: roots (base + child.size) rest

mutual

/-- The regions of a tree whose outermost region gets the reference `base`. -/
def table (g : GraphRef) (parent? : Option RegionRef) (base : RegionRef) : RegionTree → List Region
  | .node header children =>
    { header.toRegion g with parent?, children := roots (base + 1) children } ::
      tableChildren g base (base + 1) children

def tableChildren (g : GraphRef) (parent base : RegionRef) : List RegionTree → List Region
  | [] => []
  | child :: rest =>
    table g (some parent) base child ++ tableChildren g parent (base + child.size) rest

end

mutual

@[simp] theorem length_table (g : GraphRef) (parent? : Option RegionRef) (base : RegionRef) :
    ∀ t : RegionTree, (t.table g parent? base).length = t.size
  | .node header children => by
    rw [table, List.length_cons, length_tableChildren, size]

@[simp] theorem length_tableChildren (g : GraphRef) (parent base : RegionRef) :
    ∀ children : List RegionTree, (tableChildren g parent base children).length =
      sizeChildren children
  | [] => rfl
  | child :: rest => by
    rw [tableChildren, List.length_append, length_table, length_tableChildren, sizeChildren]

end

/-- The parent of the outermost region stands in the first entry of a table and nowhere else. -/
theorem modify_zero_table (g : GraphRef) (parent : RegionRef) (base : RegionRef) (t : RegionTree) :
    (t.table g none base).modify 0 (fun region => { region with parent? := some parent }) =
      t.table g (some parent) base := by
  cases t
  rw [table, table, List.modify_zero_cons]

theorem modify_append_of_lt {α : Type*} (xs ys : Array α) {i : Nat} (h : i < xs.size)
    (f : α → α) : (xs ++ ys).modify i f = xs.modify i f ++ ys := by
  grind

theorem modify_append_size {α : Type*} (xs ys : Array α) (f : α → α) :
    (xs ++ ys).modify xs.size f = xs ++ ys.modify 0 f := by
  grind

theorem modify_modify {α : Type*} (xs : Array α) (i : Nat) (f h : α → α) :
    (xs.modify i f).modify i h = xs.modify i (h ∘ f) := by
  grind

theorem regions_attach (g : GraphRef) (ws : Workspace) (parent : RegionRef)
    (hparent : parent < ws.regions.size) (t : RegionTree) (planted : Workspace)
    (hplanted : planted.regions = ws.regions ++ (t.table g none ws.regions.size).toArray) :
    (planted.attach parent ws.regions.size).regions =
      (ws.regions.modify parent fun region =>
        { region with children := region.children ++ [ws.regions.size] }) ++
        (t.table g (some parent) ws.regions.size).toArray := by
  rw [Workspace.attach, ← modify_zero_table g parent, ← List.modify_toArray]
  simp only [Workspace.modifyRegion, hplanted]
  rw [modify_append_size, modify_append_of_lt _ _ hparent]

mutual

@[simp] theorem graphs_plant (g : GraphRef) (ws : Workspace) :
    ∀ t : RegionTree, (t.plant g ws).graphs = ws.graphs
  | .node header children => by
    rw [plant, graphs_plantChildren]
    rfl

@[simp] theorem graphs_plantChildren (g : GraphRef) (parent : RegionRef) (ws : Workspace) :
    ∀ children : List RegionTree, (plantChildren g parent ws children).graphs = ws.graphs
  | [] => rfl
  | child :: rest => by
    rw [plantChildren, graphs_plantChildren]
    exact graphs_plant g ws child

end

mutual

@[simp] theorem analyses_plant (g : GraphRef) (ws : Workspace) :
    ∀ t : RegionTree, (t.plant g ws).analyses = ws.analyses
  | .node header children => by
    rw [plant, analyses_plantChildren]
    rfl

@[simp] theorem analyses_plantChildren (g : GraphRef) (parent : RegionRef) (ws : Workspace) :
    ∀ children : List RegionTree, (plantChildren g parent ws children).analyses = ws.analyses
  | [] => rfl
  | child :: rest => by
    rw [plantChildren, analyses_plantChildren]
    exact analyses_plant g ws child

end

mutual

/-- Planting a tree appends its table. -/
theorem regions_plant (g : GraphRef) (ws : Workspace) :
    ∀ t : RegionTree, (t.plant g ws).regions =
      ws.regions ++ (t.table g none ws.regions.size).toArray
  | .node header children => by
    have hlt : ws.regions.size < (ws.addRegion (header.toRegion g)).regions.size := by
      simp [Workspace.addRegion]
    rw [plant, regions_plantChildren g _ _ hlt]
    simp only [Workspace.addRegion, Array.size_push, table]
    grind [RegionHeader.toRegion]

theorem regions_plantChildren (g : GraphRef) (parent : RegionRef) (ws : Workspace)
    (hparent : parent < ws.regions.size) :
    ∀ children : List RegionTree, (plantChildren g parent ws children).regions =
      (ws.regions.modify parent fun region =>
        { region with children := region.children ++ roots ws.regions.size children }) ++
        (tableChildren g parent ws.regions.size children).toArray
  | [] => by
    have hsame : (fun region : Region => { region with children := region.children ++ [] }) =
        id := by
      funext region
      rw [List.append_nil]
      rfl
    rw [plantChildren, roots, tableChildren, hsame]
    apply Array.ext
    · simp
    · intro i _ _
      simp [Array.getElem_modify]
  | child :: rest => by
    have hregions := regions_attach g ws parent hparent child (child.plant g ws)
      (regions_plant g ws child)
    have hsize : ((child.plant g ws).attach parent ws.regions.size).regions.size =
        ws.regions.size + child.size := by
      rw [hregions]
      simp
    have hlt : parent < ((child.plant g ws).attach parent ws.regions.size).regions.size :=
      hsize ▸ Nat.lt_add_right _ hparent
    rw [plantChildren, regions_plantChildren g parent _ hlt, hsize, hregions, roots, tableChildren,
      modify_append_of_lt _ _ (by simpa using hparent), modify_modify, Array.append_assoc]
    simp only [Function.comp_def, List.append_assoc, List.singleton_append, List.append_toArray]

end

end RegionTree

end FlowRegions

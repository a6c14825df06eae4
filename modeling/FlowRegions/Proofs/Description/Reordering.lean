import FlowRegions.Proofs.Description.Documents
import FlowRegions.Proofs.Description.RegionForms

/-!
# The order inside a function form

The reader of a function form sorts its items: blocks are added at once, edges and the region are
put aside until all blocks are known. So it makes no difference how the items of different kinds are
mixed, and the region can be written in any of its orders.
-/

namespace FlowRegions

namespace FunctionForm

/-- The two ends of an edge. -/
def ends? : List Sexp → Option (Sexp × Sexp)
  | [source, target] => some (source, target)
  | _ => none

def blocks (items : List Sexp) : List (List Sexp) :=
  items.filterMap (Sexp.itemsBehind? "block")

def edges (items : List Sexp) : List (Sexp × Sexp) :=
  (items.filterMap (Sexp.itemsBehind? "edge")).filterMap ends?

def regions (items : List Sexp) : List (List Sexp) :=
  items.filterMap (Sexp.itemsBehind? "region")

/-- Neither a block nor a region nor an edge with two ends. -/
def isStray (item : Sexp) : Bool :=
  (item.itemsBehind? "block").isNone && (item.itemsBehind? "region").isNone &&
    ((item.itemsBehind? "edge").bind ends?).isNone

theorem item_cases (item : Sexp) :
    (∃ block, item = .list (.symbol "block" :: block)) ∨
      (∃ source target, item = .list [.symbol "edge", source, target]) ∨
      (∃ region, item = .list (.symbol "region" :: region)) ∨ isStray item = true := by
  cases hblock : item.itemsBehind? "block" with
  | some block => exact Or.inl ⟨block, Sexp.itemsBehind?_eq_some_iff.mp hblock⟩
  | none =>
      cases hregion : item.itemsBehind? "region" with
      | some region =>
          exact Or.inr (Or.inr (Or.inl ⟨region, Sexp.itemsBehind?_eq_some_iff.mp hregion⟩))
      | none =>
          cases hends : (item.itemsBehind? "edge").bind ends? with
          | none => exact Or.inr (Or.inr (Or.inr (by simp [isStray, hblock, hregion, hends])))
          | some ends =>
              obtain ⟨items, hedge, hitems⟩ := Option.bind_eq_some_iff.mp hends
              unfold ends? at hitems
              split at hitems
              case h_2 => cases hitems
              case h_1 source target =>
                exact Or.inr (Or.inl ⟨source, target, Sexp.itemsBehind?_eq_some_iff.mp hedge⟩)

/-! ### What is read from the items -/

/-- Reads a block and adds it. -/
def readBlock (function : String) (ws : Workspace) : List Sexp → Except LoadFault Workspace
  | [] => .error (.blockFormWithoutName function)
  | name :: instructions => do
    let name ← name.asName
    let instructions ← instructions.mapM Sexp.asName
    Draft.addBlock ws name instructions

/-- What a list holds if it has one item at most. -/
def atMostOne? {α : Type} : List α → Option (Option α)
  | [] => some none
  | [a] => some (some a)
  | _ => none

def regionForm (items : List Sexp) : Sexp := .list (.symbol "region" :: items)

section

variable (function : String) (read : FunctionPieces)

theorem add_block (block : List Sexp) :
    read.add function (.list (.symbol "block" :: block)) =
      (fun workspace => { read with workspace }) <$> readBlock function read.workspace block := by
  cases block with
  | nil => rfl
  | cons name instructions =>
      rw [readBlock, map_bind]
      apply congrArg (name.asName >>= ·)
      funext name
      rw [map_bind]
      rfl

theorem toOption_add_of_isStray {item : Sexp} (h : isStray item = true) :
    (read.add function item).toOption = none := by
  unfold FunctionPieces.add
  split
  · cases h
  · split
    · cases h
    · rfl
  · cases h
  · rfl

/-- However the items are mixed, the blocks are added in order, the edges are put aside in order,
and there is one region at most. -/
theorem toOption_foldlM_add (items : List Sexp) :
    (items.foldlM (FunctionPieces.add function) read).toOption =
      if items.any isStray then none else
        ((blocks items).foldlM (fun ws block => (readBlock function ws block).toOption)
          read.workspace).bind fun workspace =>
        (atMostOne? (read.region?.toList ++ (regions items).map regionForm)).map fun region? =>
          ⟨workspace, read.edges ++ edges items, region?⟩ := by
  induction items generalizing read with
  | nil =>
      obtain ⟨workspace, edges, region?⟩ := read
      cases region? <;> simp [blocks, FunctionForm.edges, regions, atMostOne?, pure, Except.pure]
  | cons item items ih =>
      rw [List.foldlM_cons, toOption_bind]
      rcases item_cases item with ⟨block, rfl⟩ | ⟨source, target, rfl⟩ | ⟨region, rfl⟩ | hstray
      · have hblocks : blocks (.list (.symbol "block" :: block) :: items) =
            block :: blocks items := rfl
        have hstray : (Sexp.list (.symbol "block" :: block) :: items).any isStray =
            items.any isStray := rfl
        rw [add_block, toOption_map, hblocks, hstray, List.foldlM_cons]
        simp only [ih]
        cases (readBlock function read.workspace block).toOption with
        | none => split <;> rfl
        | some workspace => rfl
      · have hedges : read.edges ++ edges (.list [.symbol "edge", source, target] :: items) =
            read.edges ++ [(source, target)] ++ edges items := List.append_cons _ _ _
        rw [hedges]
        exact ih _
      · have hregions : regions (.list (.symbol "region" :: region) :: items) =
            region :: regions items := rfl
        obtain ⟨workspace, edges, region?⟩ := read
        cases region? with
        | none => exact ih _
        | some other =>
            rw [hregions]
            simp [FunctionPieces.add, atMostOne?]
      · rw [toOption_add_of_isStray function read hstray]
        simp [hstray]

end

/-- The tree of a function with at most one region. -/
def onlyTree? : List (Option RegionTree) → Option (Option RegionTree)
  | [] => some none
  | [tree?] => tree?.map some
  | _ => none

/-- A function is made of its blocks, then of its edges, then of its region, if nothing else is
among the items. -/
theorem toOption_ofSexp (name : Sexp) (items : List Sexp) :
    (Draft.ofSexp (.list (.symbol "function" :: name :: items))).toOption =
      name.asName.toOption.bind fun function => if items.any isStray then none else
        ((blocks items).foldlM (fun ws block => (readBlock function ws block).toOption)
          (.single function)).bind fun ws =>
        ((edges items).foldlM Draft.addSexpEdge ws).toOption.bind fun ws =>
        (onlyTree? ((regions items).map (RegionForm.tree? ws.onlyGraph))).bind fun tree? =>
          (Draft.ofParts ws tree?).toOption := by
  rw [Draft.ofSexp_function, toOption_bind]
  apply congrArg (Option.bind _)
  funext function
  rw [toOption_bind, toOption_foldlM_add]
  split
  · rfl
  rw [Option.bind_eq_bind, Option.bind_assoc]
  apply congrArg (Option.bind _)
  funext ws
  rw [Option.bind_map]
  rcases regions items with _ | ⟨region, _ | ⟨other, others⟩⟩
  · simp [atMostOne?, onlyTree?]
  · simp [atMostOne?, onlyTree?, regionForm, RegionForm.tree?]
  · simp [atMostOne?, onlyTree?]

theorem onlyTree?_perm {trees trees' : List (Option RegionTree)} (h : trees.Perm trees') :
    onlyTree? trees = onlyTree? trees' := by
  rcases trees with _ | ⟨tree?, _ | ⟨other, others⟩⟩
  · rw [List.nil_perm.mp h]
  · rw [List.singleton_perm.mp h]
  · have hlength := h.length_eq
    rcases trees' with _ | ⟨tree?', _ | ⟨other', others'⟩⟩
    · cases hlength
    · cases hlength
    · rfl

/-! ### Another order -/

/-- The items of a function form, written differently: in another order that keeps the blocks and
the edges in theirs, and with region forms that are written differently. -/
inductive Rearranged : List Sexp → List Sexp → Prop
  | reorder {items items' : List Sexp} (perm : items.Perm items')
    (blocks : items.filterMap (Sexp.itemsBehind? "block") =
      items'.filterMap (Sexp.itemsBehind? "block"))
    (edges : items.filterMap (Sexp.itemsBehind? "edge") =
      items'.filterMap (Sexp.itemsBehind? "edge")) : Rearranged items items'
  | inside {before after region region' : List Sexp}
    (rearranged : RegionForm.Rearranged region region') :
    Rearranged (before ++ .list (.symbol "region" :: region) :: after)
      (before ++ .list (.symbol "region" :: region') :: after)
  | symm {items items' : List Sexp} : Rearranged items items' → Rearranged items' items
  | trans {items mid items' : List Sexp} :
    Rearranged items mid → Rearranged mid items' → Rearranged items items'

theorem Rearranged.toOption_ofSexp_eq {items items' : List Sexp} (h : Rearranged items items')
    (name : Sexp) :
    (Draft.ofSexp (.list (.symbol "function" :: name :: items))).toOption =
      (Draft.ofSexp (.list (.symbol "function" :: name :: items'))).toOption := by
  induction h with
  | reorder perm blocks edges =>
      have hregions := fun g => onlyTree?_perm
        ((perm.filterMap (Sexp.itemsBehind? "region")).map (RegionForm.tree? g))
      rw [toOption_ofSexp, toOption_ofSexp, perm.any_eq, FunctionForm.blocks, FunctionForm.blocks,
        blocks, FunctionForm.edges, FunctionForm.edges, edges]
      simp only [regions, hregions]
  | @inside before after region region' rearranged =>
      -- Both forms differ in one of the trees only, and these two are equal.
      rw [toOption_ofSexp, toOption_ofSexp]
      simp [blocks, edges, regions, isStray, Sexp.itemsBehind?, rearranged.tree?_eq]
  | symm _ ih => exact ih.symm
  | trans _ _ ih ih' => exact ih.trans ih'

end FunctionForm

namespace Document

theorem finish_eq_ok_iff {source? : Option String} {reading : Except LoadFault Draft}
    {rg : RegionGraph} : finish source? reading = .ok rg ↔
      ∃ d, reading.toOption = some d ∧ d.toRegionGraph = .ok rg := by
  constructor
  · intro h
    obtain ⟨d, rfl, hd⟩ := finish_eq_ok h
    exact ⟨d, rfl, hd⟩
  · rintro ⟨d, hreading, hd⟩
    rw [toOption_eq_some_iff.mp hreading]
    exact mapError_eq_ok_iff.mpr hd

/-- The items of a function form can change places, as long as the blocks keep their order and the
edges theirs. The pieces of a region form can do so, however deep it lies, as long as the lists of
blocks, the regions, and the values behind one keyword keep theirs, and a list of blocks can be
divided. One form is accepted exactly if the other is, and both give the same region graph. -/
theorem finish_ofSexp_eq_ok_iff_of_rearranged {items items' : List Sexp}
    (h : FunctionForm.Rearranged items items') (name : Sexp) (source? : Option String)
    (rg : RegionGraph) :
    finish source? (Draft.ofSexp (.list (.symbol "function" :: name :: items))) = .ok rg ↔
      finish source? (Draft.ofSexp (.list (.symbol "function" :: name :: items'))) = .ok rg := by
  rw [finish_eq_ok_iff, finish_eq_ok_iff, h.toOption_ofSexp_eq]

/-- The region stands in front of the blocks and the edge, and both it and the one inside it are
written from the back. -/
theorem finish_ofSexp_from_the_back : ∃ rg,
    finish none (Draft.ofSexp (.list [.symbol "function", .symbol "f",
      .list [.symbol "block", .symbol "a"], .list [.symbol "block", .symbol "b"],
      .list [.symbol "edge", .symbol "a", .symbol "b"],
      .list [.symbol "region", .symbol ":entry", .symbol "a", .list [.symbol "blocks", .symbol "a"],
        .list [.symbol "region", .symbol ":entry", .symbol "b",
          .list [.symbol "blocks", .symbol "b"]]]])) = .ok rg ∧
    finish none (Draft.ofSexp (.list [.symbol "function", .symbol "f",
      .list [.symbol "region",
        .list [.symbol "region", .list [.symbol "blocks", .symbol "b"], .symbol ":entry",
          .symbol "b"],
        .list [.symbol "blocks", .symbol "a"], .symbol ":entry", .symbol "a"],
      .list [.symbol "block", .symbol "a"], .list [.symbol "block", .symbol "b"],
      .list [.symbol "edge", .symbol "a", .symbol "b"]])) = .ok rg ∧
    rg.graph.blocks.map (·.name?) = #[some "a", some "b"] ∧ rg.regions.length = 2 := by
  obtain ⟨rg, hrg, hview⟩ := Option.map_eq_some_iff.mp (by decide +kernel :
    (finish none (Draft.ofSexp (.list [.symbol "function", .symbol "f",
      .list [.symbol "block", .symbol "a"], .list [.symbol "block", .symbol "b"],
      .list [.symbol "edge", .symbol "a", .symbol "b"],
      .list [.symbol "region", .symbol ":entry", .symbol "a", .list [.symbol "blocks", .symbol "a"],
        .list [.symbol "region", .symbol ":entry", .symbol "b",
          .list [.symbol "blocks", .symbol "b"]]]]))).toOption.map
            (fun rg => (rg.graph.blocks.map (·.name?), rg.regions.length)) =
      some (#[some "a", some "b"], 2))
  obtain ⟨hblocks, hregions⟩ := Prod.mk.inj hview
  have hinner : RegionForm.Rearranged
      [.symbol ":entry", .symbol "b", .list [.symbol "blocks", .symbol "b"]]
      [.list [.symbol "blocks", .symbol "b"], .symbol ":entry", .symbol "b"] :=
    .reorder (.swap _ _ _) rfl rfl fun _ => rfl
  have houter : RegionForm.Rearranged
      [.symbol ":entry", .symbol "a", .list [.symbol "blocks", .symbol "a"],
        .list [.symbol "region", .symbol ":entry", .symbol "b",
          .list [.symbol "blocks", .symbol "b"]]]
      [.list [.symbol "region", .symbol ":entry", .symbol "b",
          .list [.symbol "blocks", .symbol "b"]],
        .list [.symbol "blocks", .symbol "a"], .symbol ":entry", .symbol "a"] :=
    .reorder (List.reverse_perm _).symm rfl rfl fun _ => rfl
  have hboth : RegionForm.Rearranged
      [.list [.symbol "region", .symbol ":entry", .symbol "b",
          .list [.symbol "blocks", .symbol "b"]],
        .list [.symbol "blocks", .symbol "a"], .symbol ":entry", .symbol "a"]
      [.list [.symbol "region", .list [.symbol "blocks", .symbol "b"], .symbol ":entry",
          .symbol "b"],
        .list [.symbol "blocks", .symbol "a"], .symbol ":entry", .symbol "a"] :=
    @RegionForm.Rearranged.inside _ _ _ _ [] _ rfl rfl hinner
  refine ⟨rg, toOption_eq_some_iff.mp hrg,
    (finish_ofSexp_eq_ok_iff_of_rearranged ?_ _ _ _).mp (toOption_eq_some_iff.mp hrg),
    hblocks, hregions⟩
  refine .trans (.reorder (@List.perm_append_singleton Sexp _
    [.list [.symbol "block", .symbol "a"], .list [.symbol "block", .symbol "b"],
      .list [.symbol "edge", .symbol "a", .symbol "b"]]) rfl rfl) ?_
  exact @FunctionForm.Rearranged.inside [] _ _ _ (houter.trans hboth)

end Document

end FlowRegions

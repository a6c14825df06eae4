import FlowRegions.Proofs.Description.Resolution

/-!
# The order inside a region form

A region form is a row of pieces: keywords, each with its value, and forms. What is read from it
depends on the last value behind each keyword, on the blocks of all the lists in order, and on the
regions in order. So the pieces can change places as long as these three stay what they are, and a
list of blocks can be divided into several.
-/

namespace FlowRegions

/-- The items behind a tag, if a form has this tag. -/
def Sexp.itemsBehind? (tag : String) : Sexp → Option (List Sexp)
  | .list (.symbol name :: items) => if name = tag then some items else none
  | _ => none

theorem Sexp.itemsBehind?_eq_some_iff {tag : String} {form : Sexp} {items : List Sexp} :
    form.itemsBehind? tag = some items ↔ form = .list (.symbol tag :: items) := by
  constructor
  · intro h
    unfold itemsBehind? at h
    split at h
    case h_2 => cases h
    case h_1 name items' =>
      split at h
      case isFalse => cases h
      case isTrue hname => rw [hname, Option.some.inj h]
  · rintro rfl
    exact if_pos rfl

namespace RegionForm

/-- A piece of a region form. -/
inductive Piece where
  | pair (keyword : String) (value : Sexp)
  | form (form : Sexp)

namespace Piece

/-- A keyword with its value. -/
def pair? : Piece → Option (String × Sexp)
  | pair keyword value => some (keyword, value)
  | form _ => none

/-- The value behind a keyword. -/
def value? (keyword : String) : Piece → Option Sexp
  | pair word value => if word = keyword then some value else none
  | form _ => none

/-- The items behind the tag of a form. -/
def itemsBehind? (tag : String) : Piece → Option (List Sexp)
  | pair _ _ => none
  | form f => f.itemsBehind? tag

/-- Neither a value nor a list of blocks nor a region. -/
def isStray : Piece → Bool
  | pair _ _ => false
  | form f => (f.itemsBehind? "blocks").isNone && (f.itemsBehind? "region").isNone

/-- The items that a piece is made of. -/
def items : Piece → List Sexp
  | pair keyword value => [.symbol (":" ++ keyword), value]
  | form f => [f]

end Piece

/-- The pieces of a region form behind its tag. A keyword at the end has no value and is a piece by
itself. -/
def pieces : List Sexp → List Piece
  | [] => []
  | item :: rest =>
    match item.keyword? with
    | none => .form item :: pieces rest
    | some keyword =>
      match rest with
      | [] => [.form item]
      | value :: rest => .pair keyword value :: pieces rest

theorem eq_symbol_of_keyword? {item : Sexp} {keyword : String} (h : item.keyword? = some keyword) :
    item = .symbol (":" ++ keyword) := by
  unfold Sexp.keyword? at h
  split at h
  case h_2 => cases h
  case h_1 name =>
    split at h
    case h_2 => cases h
    case h_1 rest hname =>
      obtain rfl := Option.some.inj h
      apply congrArg Sexp.symbol
      rw [← String.toList_inj, hname]
      simp

/-- The pieces leave nothing out. -/
theorem flatMap_items_pieces (items : List Sexp) : (pieces items).flatMap Piece.items = items := by
  fun_induction pieces items with
  | case1 => rfl
  | case2 item rest _ ih => rw [List.flatMap_cons, ih, Piece.items, List.singleton_append]
  | case3 => rw [List.flatMap_singleton, Piece.items]
  | case4 item keyword hkeyword value rest ih =>
      rw [List.flatMap_cons, ih, Piece.items, eq_symbol_of_keyword? hkeyword]
      rfl

/-! ### What is read from the pieces -/

/-- Some piece does not belong in a region form. -/
def hasStray (ps : List Piece) : Bool :=
  ps.any Piece.isStray

/-- The keywords with their values, in order. -/
def values (ps : List Piece) : List (String × Sexp) :=
  ps.filterMap Piece.pair?

/-- The last value behind a keyword. -/
def lastValue? (ps : List Piece) (keyword : String) : Option Sexp :=
  (ps.filterMap (Piece.value? keyword)).getLast?

/-- The names in the lists of blocks. -/
def blockNames (ps : List Piece) : List Sexp :=
  (ps.filterMap (Piece.itemsBehind? "blocks")).flatten

/-- The items of the regions inside. -/
def regions (ps : List Piece) : List (List Sexp) :=
  ps.filterMap (Piece.itemsBehind? "region")

theorem Piece.value?_eq (keyword : String) (p : Piece) : p.value? keyword =
    p.pair?.bind fun entry => if keyword == entry.1 then some entry.2 else none := by
  cases p with
  | form f => rfl
  | pair word value =>
      by_cases h : word = keyword
      · simp [value?, pair?, h]
      · simp [value?, pair?, h, Ne.symm h]

/-- The reader keeps the latest value in front. -/
theorem lookup_values (ps : List Piece) (keyword : String) :
    (values ps).reverse.lookup keyword = lastValue? ps keyword := by
  rw [List.lookup_eq_findSome?, ← List.head?_filterMap, List.filterMap_reverse, List.head?_reverse,
    values, List.filterMap_filterMap, lastValue?]
  simp only [Piece.value?_eq]

section

variable (ps : List Piece)

@[simp] theorem hasStray_pair (keyword : String) (value : Sexp) :
    hasStray (.pair keyword value :: ps) = hasStray ps := rfl

@[simp] theorem hasStray_blocks (names : List Sexp) :
    hasStray (.form (.list (.symbol "blocks" :: names)) :: ps) = hasStray ps := rfl

@[simp] theorem values_pair (keyword : String) (value : Sexp) :
    values (.pair keyword value :: ps) = (keyword, value) :: values ps := rfl

@[simp] theorem values_form (f : Sexp) : values (.form f :: ps) = values ps := rfl

@[simp] theorem blockNames_pair (keyword : String) (value : Sexp) :
    blockNames (.pair keyword value :: ps) = blockNames ps := rfl

@[simp] theorem blockNames_blocks (names : List Sexp) :
    blockNames (.form (.list (.symbol "blocks" :: names)) :: ps) = names ++ blockNames ps := rfl

@[simp] theorem regions_region (inner : List Sexp) :
    regions (.form (.list (.symbol "region" :: inner)) :: ps) = inner :: regions ps := rfl

end

/-- A form that is no keyword is a list of blocks, a region, or stray. -/
theorem form_cases (f : Sexp) :
    (∃ names, f = .list (.symbol "blocks" :: names)) ∨
      (∃ inner, f = .list (.symbol "region" :: inner)) ∨
      f.itemsBehind? "blocks" = none ∧ f.itemsBehind? "region" = none := by
  cases hblocks : f.itemsBehind? "blocks" with
  | some names => exact Or.inl ⟨names, Sexp.itemsBehind?_eq_some_iff.mp hblocks⟩
  | none =>
      cases hregion : f.itemsBehind? "region" with
      | some inner => exact Or.inr (Or.inl ⟨inner, Sexp.itemsBehind?_eq_some_iff.mp hregion⟩)
      | none => exact Or.inr (Or.inr ⟨rfl, rfl⟩)

variable (g : Cfg)

/-- The number of the block with a name in a list of blocks. -/
def ownedBlock? (name : Sexp) : Option Nat :=
  (RegionPieces.resolveForm g .regionBlock name).toOption

theorem toOption_collect_of_stray (read : RegionPieces) {f : Sexp}
    (hblocks : f.itemsBehind? "blocks" = none) (hregion : f.itemsBehind? "region" = none)
    (hkeyword : f.keyword? = none) (rest : List Sexp) :
    (read.collect g (f :: rest)).toOption = none := by
  rw [RegionPieces.collect.eq_def]
  dsimp only
  rw [hkeyword]
  dsimp only
  split
  · cases hblocks
  · cases hregion
  · rfl

/-- A region form without stray pieces is collected if its blocks are known, and in their order. -/
theorem toOption_collect (read : RegionPieces) (items : List Sexp) :
    (read.collect g items).toOption = if hasStray (pieces items) then none else
      ((blockNames (pieces items)).mapM (ownedBlock? g)).map fun owned =>
        ⟨(values (pieces items)).reverse ++ read.values, read.owned ++ owned⟩ := by
  fun_induction pieces items generalizing read with
  | case1 => simp [RegionPieces.collect, hasStray, values, blockNames]
  | case2 item rest hkeyword ih =>
      rcases form_cases item with ⟨names, rfl⟩ | ⟨inner, rfl⟩ | ⟨hblocks, hregion⟩
      · rw [RegionDescription.collect_blocks, toOption_bind, toOption_mapM, hasStray_blocks,
          blockNames_blocks, List.mapM_append]
        change names.mapM (ownedBlock? g) >>= _ = _
        simp only [ih]
        cases names.mapM (ownedBlock? g) with
        | none => simp
        | some owned => cases (blockNames (pieces rest)).mapM (ownedBlock? g) <;> simp
      · exact ih read
      · rw [toOption_collect_of_stray g read hblocks hregion hkeyword]
        simp [hasStray, Piece.isStray, hblocks, hregion]
  | case3 item keyword hkeyword =>
      have hcollect : read.collect g [item] = .error (.keywordWithoutValue (":" ++ keyword)) := by
        rw [RegionPieces.collect.eq_def]
        dsimp only
        rw [hkeyword]
      rw [hcollect, eq_symbol_of_keyword? hkeyword]
      rfl
  | case4 item keyword hkeyword value rest ih =>
      rw [RegionDescription.collect_keyword g read hkeyword, ih]
      simp

/-- What is read from a region form, by the items behind its tag. -/
def tree? (items : List Sexp) : Option RegionTree :=
  (RegionTree.ofSexp g (.list (.symbol "region" :: items))).toOption

theorem ofSexpItems_of_itemsBehind?_eq_none {f : Sexp} (hregion : f.itemsBehind? "region" = none)
    (hkeyword : f.keyword? = none) (rest : List Sexp) :
    RegionTree.ofSexpItems g false (f :: rest) = RegionTree.ofSexpItems g false rest := by
  have hhead : f.head? ≠ some "region" := by
    intro hhead
    unfold Sexp.head? at hhead
    split at hhead
    · cases hhead
      cases hregion
    · cases hhead
  rw [RegionTree.ofSexpItems, hkeyword, if_neg (by decide), if_neg (by decide), if_neg hhead]

theorem ofSexpItems_region (inner rest : List Sexp) :
    RegionTree.ofSexpItems g false (.list (.symbol "region" :: inner) :: rest) = (do
      let tree ← RegionTree.ofSexp g (.list (.symbol "region" :: inner))
      let others ← RegionTree.ofSexpItems g false rest
      return tree :: others) := rfl

/-- The regions inside are read in order, whatever stands between them. -/
theorem toOption_ofSexpItems (items : List Sexp) :
    (RegionTree.ofSexpItems g false items).toOption = (regions (pieces items)).mapM (tree? g) := by
  fun_induction pieces items with
  | case1 => rfl
  | case2 item rest hkeyword ih =>
      rcases form_cases item with ⟨names, rfl⟩ | ⟨inner, rfl⟩ | ⟨hblocks, hregion⟩
      · exact ih
      · rw [ofSexpItems_region, toOption_bind, regions_region, List.mapM_cons]
        simp only [toOption_bind, ih]
        rfl
      · rw [ofSexpItems_of_itemsBehind?_eq_none g hregion hkeyword, ih]
        simp [regions, Piece.itemsBehind?, hregion]
  | case3 item keyword hkeyword =>
      rw [RegionTree.ofSexpItems, hkeyword, eq_symbol_of_keyword? hkeyword]
      rfl
  | case4 item keyword hkeyword value rest ih =>
      rw [RegionDescription.ofSexpItems_keyword g hkeyword, ih]
      rfl

theorem toHeader_congr {read read' : RegionPieces}
    (hvalues : ∀ keyword, read.values.lookup keyword = read'.values.lookup keyword)
    (howned : read.owned = read'.owned) : read.toHeader g = read'.toHeader g := by
  rw [RegionPieces.toHeader_eq, RegionPieces.toHeader_eq, RegionPieces.toExit, RegionPieces.toExit,
    RegionPieces.toSimple, RegionPieces.toSimple, hvalues, hvalues, hvalues, howned]

theorem tree?_eq (items : List Sexp) : tree? g items = do
    let header ← (RegionHeader.ofSexp g items).toOption
    let children ← (regions (pieces items)).mapM (tree? g)
    return .node header children := by
  rw [tree?, RegionTree.ofSexp, toOption_bind]
  apply congrArg (_ >>= ·)
  funext header
  rw [toOption_bind, ← toOption_ofSexpItems]
  rfl

/-- Nothing else of a region form counts. -/
theorem tree?_congr {items items' : List Sexp}
    (hstray : hasStray (pieces items) = hasStray (pieces items'))
    (hnames : blockNames (pieces items) = blockNames (pieces items'))
    (hvalues : ∀ keyword, lastValue? (pieces items) keyword = lastValue? (pieces items') keyword)
    (hregions : (regions (pieces items)).map (tree? g) = (regions (pieces items')).map (tree? g)) :
    tree? g items = tree? g items' := by
  have hheader : (RegionHeader.ofSexp g items).toOption =
      (RegionHeader.ofSexp g items').toOption := by
    rw [RegionHeader.ofSexp, RegionHeader.ofSexp, toOption_bind, toOption_bind, toOption_collect,
      toOption_collect, hstray, hnames]
    split
    · rfl
    · simp only [Option.bind_eq_bind, Option.bind_map]
      apply congrArg (Option.bind _)
      funext owned
      refine congrArg Except.toOption (toHeader_congr g (fun keyword => ?_) rfl)
      dsimp only
      rw [List.append_nil, List.append_nil, lookup_values, lookup_values, hvalues]
  have hchildren : ∀ items, (regions (pieces items)).mapM (tree? g) =
      ((regions (pieces items)).map (tree? g)).mapM id := by
    intro items
    rw [List.mapM_map]
    rfl
  rw [tree?_eq, tree?_eq, hheader, hchildren, hchildren, hregions]

/-! ### Another order -/

/-- The items of a region form, written differently: the pieces in another order that keeps the
lists of blocks, the regions and the values behind one keyword in theirs, a list of blocks divided
in two, and both also further inside. -/
inductive Rearranged : List Sexp → List Sexp → Prop
  | reorder {items items' : List Sexp} (perm : (pieces items).Perm (pieces items'))
    (blocks : (pieces items).filterMap (Piece.itemsBehind? "blocks") =
      (pieces items').filterMap (Piece.itemsBehind? "blocks"))
    (regions : (pieces items).filterMap (Piece.itemsBehind? "region") =
      (pieces items').filterMap (Piece.itemsBehind? "region"))
    (values : ∀ keyword, (pieces items).filterMap (Piece.value? keyword) =
      (pieces items').filterMap (Piece.value? keyword)) : Rearranged items items'
  | split {items items' names names' : List Sexp} {before after : List Piece}
    (whole : pieces items =
      before ++ .form (.list (.symbol "blocks" :: (names ++ names'))) :: after)
    (parts : pieces items' = before ++ .form (.list (.symbol "blocks" :: names)) ::
      .form (.list (.symbol "blocks" :: names')) :: after) : Rearranged items items'
  | inside {items items' inner inner' : List Sexp} {before after : List Piece}
    (form : pieces items = before ++ .form (.list (.symbol "region" :: inner)) :: after)
    (form' : pieces items' = before ++ .form (.list (.symbol "region" :: inner')) :: after)
    (rearranged : Rearranged inner inner') : Rearranged items items'
  | symm {items items' : List Sexp} : Rearranged items items' → Rearranged items' items
  | trans {items mid items' : List Sexp} :
    Rearranged items mid → Rearranged mid items' → Rearranged items items'

/-- However a region form is written, the same region is read from it, or none. -/
theorem Rearranged.tree?_eq {items items' : List Sexp} (h : Rearranged items items') :
    tree? g items = tree? g items' := by
  induction h with
  | reorder perm blocks regions values =>
      refine tree?_congr g perm.any_eq ?_ (fun keyword => ?_) ?_
      · rw [blockNames, blockNames, blocks]
      · rw [lastValue?, lastValue?, values]
      · rw [RegionForm.regions, RegionForm.regions, regions]
  | split whole parts =>
      refine tree?_congr g ?_ ?_ (fun keyword => ?_) ?_
      all_goals rw [whole, parts]
      · simp [hasStray, Piece.isStray, Sexp.itemsBehind?]
      · simp [blockNames, Piece.itemsBehind?, Sexp.itemsBehind?]
      · simp only [lastValue?, List.filterMap_append, List.filterMap_cons, Piece.value?]
      · simp [regions, Piece.itemsBehind?, Sexp.itemsBehind?]
  | inside form form' _ ih =>
      refine tree?_congr g ?_ ?_ (fun keyword => ?_) ?_
      all_goals rw [form, form']
      · simp [hasStray, Piece.isStray, Sexp.itemsBehind?]
      · simp [blockNames, Piece.itemsBehind?, Sexp.itemsBehind?]
      · simp only [lastValue?, List.filterMap_append, List.filterMap_cons, Piece.value?]
      · simp [regions, Piece.itemsBehind?, Sexp.itemsBehind?, ih]
  | symm _ ih => exact ih.symm
  | trans _ _ ih ih' => exact ih.trans ih'

end RegionForm

end FlowRegions

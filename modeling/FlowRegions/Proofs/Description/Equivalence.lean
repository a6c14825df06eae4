import FlowRegions.Description.Document
import FlowRegions.Proofs.Description.Resolution

/-!
# Both forms of a description

The draft of a description is computed from its names alone. Both readers arrive at it, so a
function written as an object and as a form is accepted or refused in the same way.
-/

namespace FlowRegions

namespace Description

/-- The graph with one more block, if its name is free. -/
def addBlock? (g : Cfg) (block : BlockDescription) : Option Cfg :=
  (g.addBlock 0 (some block.name) block.instructions).toOption

/-- The graph with one more edge, if both ends are names of blocks. -/
def addEdge? (g : Cfg) (ends : String × String) : Option Cfg := do
  let source ← g.find? ends.1
  let target ← g.find? ends.2
  return g.addEdge 0 source target

/-- The region tree that is described, if any is. -/
def treeIn? (g : Cfg) : Option RegionDescription → Option (Option RegionTree)
  | none => some none
  | some t => (t.resolve? g).map some

/-- The draft that is described. -/
def draft? (d : Description) : Option Draft := do
  let graph ← d.blocks.foldlM addBlock? { name := d.name }
  let graph ← d.edges.foldlM addEdge? graph
  let tree? ← treeIn? graph d.regions?
  (Draft.ofParts (.ofGraph graph) tree?).toOption

theorem toOption_addBlock (g : Cfg) (block : BlockDescription) :
    (Draft.addBlock (.ofGraph g) block.name block.instructions).toOption =
      (addBlock? g block).map Workspace.ofGraph := by
  rw [Draft.addBlock_ofGraph, toOption_mapError, addBlock?]
  exact toOption_map _ _

/-! ### JSON -/

theorem toOption_addJsonBlock (terse : Bool) (function : String) (g : Cfg)
    (block : BlockDescription) :
    (Draft.addJsonBlock function (.ofGraph g) (block.toJson terse)).toOption =
      (addBlock? g block).map Workspace.ofGraph := by
  rw [← toOption_addBlock]
  unfold BlockDescription.toJson
  split
  case isTrue hshort =>
    rw [Bool.and_eq_true, List.isEmpty_iff] at hshort
    rw [hshort.2]
    rfl
  case isFalse =>
    have hnames : (block.instructions.map Json.string).map Json.asName = block.instructions := by
      rw [List.map_map]
      exact List.map_id _
    have hread : Draft.addJsonBlock function (.ofGraph g) (.object [("name", .string block.name),
        ("instructions", .array (block.instructions.map .string))]) =
        Draft.addBlock (.ofGraph g) block.name
          ((block.instructions.map Json.string).map Json.asName) := rfl
    rw [hread, hnames]

theorem toOption_addJsonEdge (g : Cfg) (ends : String × String) :
    (Draft.addJsonEdge (.ofGraph g) (.array [.string ends.1, .string ends.2])).toOption =
      (addEdge? g ends).map Workspace.ofGraph := by
  rw [Draft.addJsonEdge, addEdge?]
  simp only [toOption_bind, Workspace.onlyGraph_ofGraph, Json.asName_string, Cfg.toOption_resolve]
  cases g.find? ends.1 with
  | none => rfl
  | some source =>
      cases g.find? ends.2 with
      | none => rfl
      | some target => exact congrArg some (Draft.addEdge_ofGraph g source target)

theorem listField_blocks (terse : Bool) (d : Description) (function : String) :
    Json.listField function "blocks" (d.fields terse) =
      .ok (d.blocks.map (BlockDescription.toJson terse)) := by
  cases hblocks : d.blocks <;> cases terse <;> simp [Json.listField, fields, hblocks]

theorem listField_edges (terse : Bool) (d : Description) (function : String) :
    Json.listField function "edges" (d.fields terse) =
      .ok (d.edges.map fun ends => .array [.string ends.1, .string ends.2]) := by
  cases hedges : d.edges <;> cases terse <;> simp [Json.listField, fields, hedges]

theorem valueField?_regions (terse : Bool) (d : Description) :
    Json.valueField? "regions" (d.fields terse) =
      d.regions?.map (RegionDescription.toJson terse) := by
  cases hregions : d.regions? with
  | none => cases terse <;> simp [Json.valueField?, fields, hregions]
  | some t =>
      cases t
      simp [Json.valueField?, fields, hregions, RegionDescription.toJson]

theorem toOption_treeOfJson (terse : Bool) (g : Cfg) (regions? : Option RegionDescription) :
    (match regions?.map (RegionDescription.toJson terse) with
      | none => .ok none
      | some regions => some <$> RegionTree.ofJson g regions : Except LoadFault _).toOption =
      treeIn? g regions? := by
  cases regions? with
  | none => rfl
  | some t => exact (toOption_map _ _).trans (by rw [RegionDescription.toOption_ofJson]; rfl)

/-- The draft read from the object that describes a function is the one described. -/
theorem toOption_ofJson (terse : Bool) (d : Description) :
    (Draft.ofJson (d.toJson terse)).toOption = d.draft? := by
  have hname : Draft.nameOfJson (d.fields terse) = d.name := rfl
  rw [toJson, Draft.ofJson_object, hname, listField_blocks, listField_edges, valueField?_regions,
    draft?]
  simp only [toOption_bind, toOption_ok, Option.bind_eq_bind, Option.bind_some]
  rw [Workspace.single_eq, toOption_foldlM_map fun block _ g =>
    toOption_addJsonBlock terse d.name g block, Option.bind_map]
  apply congrArg (Option.bind _)
  funext graph
  rw [Function.comp_apply, toOption_foldlM_map fun ends _ g => toOption_addJsonEdge g ends,
    Option.bind_map]
  apply congrArg (Option.bind _)
  funext graph
  rw [Function.comp_apply, Workspace.onlyGraph_ofGraph]
  exact congrArg (Option.bind · _) (toOption_treeOfJson terse graph d.regions?)

/-! ### S-expressions -/

theorem toOption_addBlockForm (function : String) (g : Cfg) (block : BlockDescription) :
    (FunctionPieces.add function { workspace := .ofGraph g } block.toSexp).toOption =
      (addBlock? g block).map fun g => { workspace := .ofGraph g } := by
  have hinstructions : (block.instructions.map Sexp.string).mapM Sexp.asName =
      .ok (block.instructions.map id) := mapM_map_eq_ok fun _ _ => rfl
  have hread : FunctionPieces.add function { workspace := .ofGraph g } block.toSexp = (do
      let instructions ← (block.instructions.map Sexp.string).mapM Sexp.asName
      let workspace ← Draft.addBlock (.ofGraph g) block.name instructions
      return { workspace }) := rfl
  rw [hread, hinstructions, List.map_id, toOption_bind, toOption_ok, Option.bind_eq_bind,
    Option.bind_some, toOption_bind, toOption_addBlock]
  cases addBlock? g block <;> rfl

theorem foldlM_addEdgeForm (function : String) (pieces : FunctionPieces)
    (edges : List (String × String)) :
    (edges.map fun ends => Sexp.list [.symbol "edge", .string ends.1, .string ends.2]).foldlM
      (FunctionPieces.add function) pieces =
      .ok { pieces with
        edges := pieces.edges ++ edges.map fun ends => (.string ends.1, .string ends.2) } := by
  induction edges generalizing pieces with
  | nil => rw [List.map_nil, List.map_nil, List.append_nil]; rfl
  | cons ends rest ih =>
      rw [List.map_cons, List.foldlM_cons, List.map_cons]
      have hstep : FunctionPieces.add function pieces
          (.list [.symbol "edge", .string ends.1, .string ends.2]) =
          .ok { pieces with edges := pieces.edges ++ [(.string ends.1, .string ends.2)] } := rfl
      rw [hstep]
      refine (ih _).trans ?_
      rw [List.append_assoc]
      rfl

theorem foldlM_addRegionForm (terse : Bool) (function : String) (ws : Workspace)
    (edges : List (Sexp × Sexp)) (regions? : Option RegionDescription) :
    (regions?.map (RegionDescription.toSexp terse)).toList.foldlM (FunctionPieces.add function)
      ⟨ws, edges, none⟩ = .ok ⟨ws, edges, regions?.map (RegionDescription.toSexp terse)⟩ := by
  cases regions? with
  | none => rfl
  | some t =>
      cases t
      rfl

theorem toOption_addSexpEdge (g : Cfg) (ends : String × String) :
    (Draft.addSexpEdge (.ofGraph g) (.string ends.1, .string ends.2)).toOption =
      (addEdge? g ends).map Workspace.ofGraph :=
  toOption_addJsonEdge g ends

theorem toOption_treeOfSexp (terse : Bool) (g : Cfg) (regions? : Option RegionDescription) :
    (match regions?.map (RegionDescription.toSexp terse) with
      | none => .ok none
      | some region => some <$> RegionTree.ofSexp g region : Except LoadFault _).toOption =
      treeIn? g regions? := by
  cases regions? with
  | none => rfl
  | some t => exact (toOption_map _ _).trans (by rw [RegionDescription.toOption_ofSexp]; rfl)

/-- The draft read from the form that describes a function is the one described. -/
theorem toOption_ofSexp (terse : Bool) (d : Description) :
    (Draft.ofSexp (d.toSexp terse)).toOption = d.draft? := by
  have hname : (Sexp.string d.name).asName = .ok d.name := rfl
  rw [toSexp, Draft.ofSexp_function, hname, draft?]
  simp only [toOption_bind, toOption_ok, Option.bind_eq_bind, Option.bind_some, List.foldlM_append]
  rw [Workspace.single_eq,
    toOption_foldlM_map fun block _ g => toOption_addBlockForm d.name g block,
    Option.bind_assoc, Option.bind_assoc, Option.bind_map]
  apply congrArg (Option.bind _)
  funext graph
  rw [Function.comp_apply, foldlM_addEdgeForm, toOption_ok, Option.bind_some, List.nil_append,
    foldlM_addRegionForm, toOption_ok, Option.bind_some,
    toOption_foldlM_map fun ends _ g => toOption_addSexpEdge g ends, Option.bind_map]
  apply congrArg (Option.bind _)
  funext graph
  rw [Function.comp_apply, Workspace.onlyGraph_ofGraph]
  exact congrArg (Option.bind · _) (toOption_treeOfSexp terse graph d.regions?)

/-- A function is read alike from its object and from its form: both give the same region graph, or
both descriptions are at fault, or both region trees are, in the same way. -/
theorem finish_ofJson_ofSexp (d : Description) (terse terse' : Bool) (source? : Option String) :
    (∃ rg, Document.finish source? (Draft.ofJson (d.toJson terse)) = .ok rg ∧
      Document.finish source? (Draft.ofSexp (d.toSexp terse')) = .ok rg) ∨
    (∃ e e', Document.finish source? (Draft.ofJson (d.toJson terse)) = .error (.load e) ∧
      Document.finish source? (Draft.ofSexp (d.toSexp terse')) = .error (.load e')) ∨
    (∃ e, Document.finish source? (Draft.ofJson (d.toJson terse)) = .error (.tree e) ∧
      Document.finish source? (Draft.ofSexp (d.toSexp terse')) = .error (.tree e)) := by
  have hjson := toOption_ofJson terse d
  have hsexp := toOption_ofSexp terse' d
  cases hread : Draft.ofJson (d.toJson terse) with
  | error fault =>
      rw [hread, toOption_error] at hjson
      cases hread' : Draft.ofSexp (d.toSexp terse') with
      | error fault' => exact Or.inr (Or.inl ⟨_, _, rfl, rfl⟩)
      | ok draft' =>
          rw [hread', toOption_ok, ← hjson] at hsexp
          cases hsexp
  | ok draft =>
      rw [hread, toOption_ok] at hjson
      rw [← hjson, toOption_eq_some_iff] at hsexp
      rw [hsexp, Document.finish]
      cases draft.toRegionGraph with
      | error e => exact Or.inr (Or.inr ⟨e, rfl, rfl⟩)
      | ok rg => exact Or.inl ⟨rg, rfl, rfl⟩

end Description

end FlowRegions

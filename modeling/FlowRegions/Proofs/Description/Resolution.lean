import FlowRegions.Proofs.Description.Encoding
import FlowRegions.Proofs.Description.JsonReading
import FlowRegions.Proofs.Description.SexpReading

/-!
# Reading written descriptions

A description resolves to a draft if its names can be looked up. Apart from what the faults say,
both readers compute this draft from what was written: in JSON field by field, in an S-expression
along a form whose blocks come before the entry and whose inner regions come last.
-/

namespace FlowRegions

namespace RegionDescription

/-- The exit of the given name, if any is given. -/
def exitIn? (g : Cfg) : Option String → Option (Option Nat)
  | none => some none
  | some exit => (g.find? exit).map some

/-- The header with the given names, if they are those of blocks. -/
def headerIn? (g : Cfg) (entry : String) (exit? : Option String) (simple? : Option Bool)
    (owned : List String) : Option RegionHeader := do
  let entry ← g.find? entry
  let exit? ← exitIn? g exit?
  let owned ← owned.mapM g.find?
  return { entry, exit?, owned, simple? }

mutual

/-- The tree that is described, over the blocks of a graph. -/
def resolve? (g : Cfg) : RegionDescription → Option RegionTree
  | .node entry exit? simple? owned children => do
    let header ← headerIn? g entry exit? simple? owned
    let children ← resolveItems? g children
    return .node header children

def resolveItems? (g : Cfg) : List RegionDescription → Option (List RegionTree)
  | [] => some []
  | child :: rest => do
    let tree ← resolve? g child
    let others ← resolveItems? g rest
    return tree :: others

end

end RegionDescription

@[simp] theorem Cfg.toOption_resolve (g : Cfg) (role : BlockRole) (name : String) :
    (g.resolve role name).toOption = g.find? name := by
  unfold Cfg.resolve
  cases g.find? name <;> rfl

namespace Json

@[simp] theorem lookup?_append (key : String) (xs ys : List (String × Json)) :
    lookup? key (xs ++ ys) = (lookup? key xs).or (lookup? key ys) := by
  induction xs with
  | nil => rfl
  | cons field xs ih =>
      rw [List.cons_append, lookup?, lookup?, ih]
      split <;> rfl

@[simp] theorem lookup?_cons (key : String) (field : String × Json) (rest : List (String × Json)) :
    lookup? key (field :: rest) = if field.1 = key then some field.2 else lookup? key rest := rfl

@[simp] theorem lookup?_optional (terse : Bool) (key key' : String) (value? : Option Json) :
    lookup? key (optional terse key' value?) =
      if key' = key then value?.or (if terse then none else some .null) else none := by
  cases value? <;> cases terse <;> simp [optional, lookup?_cons]

@[simp] theorem lookup?_listed (terse : Bool) (key key' : String) (items : List Json) :
    lookup? key (listed terse key' items) =
      if key' = key ∧ (terse && items.isEmpty) = false then some (.array items) else none := by
  unfold listed
  split
  · simp_all
  · simp_all [lookup?_cons]

end Json

/-! ### JSON -/

namespace RegionTree

theorem ofJsonFields_eq (g : Cfg) (fields : List (String × Json)) :
    ofJsonFields g fields =
      match Json.lookup? "children" fields with
      | none => .ok []
      | some value => ofJsonChildren g value := by
  induction fields with
  | nil => rfl
  | cons field rest ih =>
      obtain ⟨key, value⟩ := field
      rw [ofJsonFields, Json.lookup?_cons]
      by_cases h : key = "children"
      · rw [if_pos h, if_pos h]
      · rw [if_neg h, if_neg h, ih]

end RegionTree

namespace RegionDescription

section

variable (terse : Bool) (entry : String) (exit? : Option String) (simple? : Option Bool)
  (owned : List String) (children : List Json)

theorem valueField?_exit : Json.valueField? "exit"
    (fields terse entry exit? simple? owned children) = exit?.map .string := by
  cases exit? <;> cases terse <;> simp [Json.valueField?, fields]

theorem valueField?_simple : Json.valueField? "simple"
    (fields terse entry exit? simple? owned children) = simple?.map .bool := by
  cases simple? <;> cases terse <;> simp [Json.valueField?, fields]

theorem listField_blocks (function : String) : Json.listField function "blocks"
    (fields terse entry exit? simple? owned children) = .ok (owned.map .string) := by
  cases owned <;> cases terse <;> simp [Json.listField, fields]

theorem ofJsonFields_fields (g : Cfg) : RegionTree.ofJsonFields g
    (fields terse entry exit? simple? owned children) = RegionTree.ofJsonItems g children := by
  rw [RegionTree.ofJsonFields_eq]
  cases children <;> cases terse <;>
    simp [fields, RegionTree.ofJsonChildren, RegionTree.ofJsonItems]

theorem toOption_exitOfJson (g : Cfg) : (RegionHeader.exitOfJson g
    (fields terse entry exit? simple? owned children)).toOption = exitIn? g exit? := by
  rw [RegionHeader.exitOfJson, valueField?_exit]
  cases exit? <;> simp [exitIn?]

theorem simpleOfJson_fields : RegionHeader.simpleOfJson
    (fields terse entry exit? simple? owned children) = .ok simple? := by
  rw [RegionHeader.simpleOfJson, valueField?_simple]
  cases simple? <;> rfl

theorem toOption_headerOfJson (g : Cfg) : (RegionHeader.ofJson g
    (fields terse entry exit? simple? owned children)).toOption =
      headerIn? g entry exit? simple? owned := by
  have hentry : Json.lookup? "entry" (fields terse entry exit? simple? owned children) =
      some (.string entry) := rfl
  have howned : ((owned.map Json.string).mapM fun block =>
      g.resolve .regionBlock block.asName).toOption = owned.mapM g.find? :=
    toOption_mapM_map fun name _ => Cfg.toOption_resolve g .regionBlock name
  rw [RegionHeader.ofJson_eq, hentry]
  simp only [toOption_bind, Cfg.toOption_resolve, Json.asName_string, toOption_exitOfJson,
    simpleOfJson_fields, listField_blocks, toOption_ok, Option.bind_eq_bind, Option.bind_some,
    howned]
  rfl

end

mutual

/-- The tree read from the object that describes a region is the tree described. -/
theorem toOption_ofJson (terse : Bool) (g : Cfg) :
    ∀ t : RegionDescription, (RegionTree.ofJson g (t.toJson terse)).toOption = t.resolve? g
  | .node entry exit? simple? owned children => by
    rw [toJson, RegionTree.ofJson, resolve?, toOption_bind, toOption_headerOfJson]
    apply congrArg (_ >>= ·)
    funext header
    rw [toOption_bind, ofJsonFields_fields, toOption_ofJsonItems]
    rfl

theorem toOption_ofJsonItems (terse : Bool) (g : Cfg) :
    ∀ children : List RegionDescription,
      (RegionTree.ofJsonItems g (toJsonItems terse children)).toOption = resolveItems? g children
  | [] => rfl
  | child :: rest => by
    rw [toJsonItems, RegionTree.ofJsonItems, resolveItems?, toOption_bind, toOption_ofJson]
    apply congrArg (_ >>= ·)
    funext tree
    rw [toOption_bind, toOption_ofJsonItems]
    rfl

end

/-! ### S-expressions -/

section

variable (terse : Bool) (g : Cfg)

/-- The value behind the keyword for an exit. -/
def exitValue (exit? : Option String) : List (String × Sexp) :=
  match exit? with
  | some exit => [("exit", .string exit)]
  | none => if terse then [] else [("exit", .symbol "nil")]

/-- The value behind the keyword for a classification. -/
def simpleValue (simple? : Option Bool) : List (String × Sexp) :=
  match simple? with
  | some simple => [("simple", .symbol (if simple then "true" else "false"))]
  | none => []

/-- The values behind the keywords of a region form, the last first. -/
def formValues (entry : String) (exit? : Option String) (simple? : Option Bool) :
    List (String × Sexp) :=
  simpleValue simple? ++ (exitValue terse exit? ++ [("entry", .string entry)])

theorem collect_keyword (pieces : RegionPieces) {item : Sexp} {keyword : String}
    (h : item.keyword? = some keyword) (value : Sexp) (rest : List Sexp) :
    pieces.collect g (item :: value :: rest) =
      RegionPieces.collect g { pieces with values := (keyword, value) :: pieces.values } rest := by
  rw [RegionPieces.collect.eq_def]
  dsimp only
  rw [h]

theorem collect_exit (pieces : RegionPieces) (exit? : Option String) (rest : List Sexp) :
    pieces.collect g (exitToSexp terse exit? ++ rest) =
      RegionPieces.collect g
        { pieces with values := exitValue terse exit? ++ pieces.values } rest := by
  cases exit? with
  | some exit => exact collect_keyword g pieces rfl _ rest
  | none =>
      cases terse with
      | true => rfl
      | false => exact collect_keyword g pieces rfl _ rest

theorem collect_simple (pieces : RegionPieces) (simple? : Option Bool) (rest : List Sexp) :
    pieces.collect g (simpleToSexp simple? ++ rest) =
      RegionPieces.collect g
        { pieces with values := simpleValue simple? ++ pieces.values } rest := by
  cases simple? with
  | some simple => exact collect_keyword g pieces rfl _ rest
  | none => rfl

theorem collect_blocks (pieces : RegionPieces) (names rest : List Sexp) :
    pieces.collect g (.list (.symbol "blocks" :: names) :: rest) = (do
      let owned ← names.mapM (RegionPieces.resolveForm g .regionBlock)
      RegionPieces.collect g { pieces with owned := pieces.owned ++ owned } rest) := rfl

theorem collect_items (pieces : RegionPieces) (children : List RegionDescription) :
    pieces.collect g (toSexpItems terse children) = .ok pieces := by
  induction children with
  | nil => rfl
  | cons child rest ih =>
      cases child
      rw [toSexpItems, toSexp]
      exact ih

theorem toOption_resolveForm (role : BlockRole) (name : String) :
    (RegionPieces.resolveForm g role (.string name)).toOption = g.find? name :=
  Cfg.toOption_resolve g role name

theorem toOption_collect (entry : String) (exit? : Option String) (simple? : Option Bool)
    (owned : List String) (children : List RegionDescription) :
    (RegionPieces.collect g {} (.symbol ":entry" :: .string entry ::
      (exitToSexp terse exit? ++ simpleToSexp simple? ++
        .list (.symbol "blocks" :: owned.map .string) :: toSexpItems terse children))).toOption =
      (owned.mapM g.find?).map fun owned => ⟨formValues terse entry exit? simple?, owned⟩ := by
  have howned : ((owned.map Sexp.string).mapM (RegionPieces.resolveForm g .regionBlock)).toOption =
      owned.mapM g.find? :=
    toOption_mapM_map fun name _ => toOption_resolveForm g .regionBlock name
  have hentry : (Sexp.symbol ":entry").keyword? = some "entry" := rfl
  rw [collect_keyword g {} hentry, List.append_assoc, collect_exit, collect_simple, collect_blocks,
    toOption_bind, howned]
  cases owned.mapM g.find? with
  | none => rfl
  | some owned => exact congrArg Except.toOption (collect_items terse g _ children)

theorem lookup_entry (entry : String) (exit? : Option String) (simple? : Option Bool) :
    (formValues terse entry exit? simple?).lookup "entry" = some (.string entry) := by
  cases exit? <;> cases terse <;> cases simple? <;> rfl

theorem lookup_exit (entry : String) (exit? : Option String) (simple? : Option Bool) :
    (formValues terse entry exit? simple?).lookup "exit" =
      exit?.elim (if terse then none else some (.symbol "nil"))
        fun exit => some (.string exit) := by
  cases exit? <;> cases terse <;> cases simple? <;> rfl

theorem lookup_simple (entry : String) (exit? : Option String) (simple? : Option Bool) :
    (formValues terse entry exit? simple?).lookup "simple" =
      simple?.map fun simple => .symbol (if simple then "true" else "false") := by
  cases exit? <;> cases terse <;> cases simple? <;> rfl

theorem toOption_toExit (entry : String) (exit? : Option String) (simple? : Option Bool)
    (owned : List Nat) :
    (RegionPieces.toExit g ⟨formValues terse entry exit? simple?, owned⟩).toOption =
      exitIn? g exit? := by
  rw [RegionPieces.toExit, lookup_exit]
  cases exit? with
  | some exit => exact (toOption_map _ _).trans (by rw [toOption_resolveForm]; rfl)
  | none => cases terse <;> rfl

theorem toSimple_formValues (entry : String) (exit? : Option String) (simple? : Option Bool)
    (owned : List Nat) :
    RegionPieces.toSimple ⟨formValues terse entry exit? simple?, owned⟩ = .ok simple? := by
  rw [RegionPieces.toSimple, lookup_simple]
  cases simple? with
  | none => rfl
  | some simple => cases simple <;> rfl

/-- The blocks of a form are looked up before its entry, those of an object after it. -/
theorem toOption_headerOfSexp (entry : String) (exit? : Option String) (simple? : Option Bool)
    (owned : List String) (children : List RegionDescription) :
    (RegionHeader.ofSexp g (.symbol ":entry" :: .string entry ::
      (exitToSexp terse exit? ++ simpleToSexp simple? ++
        .list (.symbol "blocks" :: owned.map .string) :: toSexpItems terse children))).toOption =
      headerIn? g entry exit? simple? owned := by
  rw [RegionHeader.ofSexp, toOption_bind, toOption_collect]
  have hheader : ∀ owned : List Nat,
      (RegionPieces.toHeader g ⟨formValues terse entry exit? simple?, owned⟩).toOption = (do
        let entry ← g.find? entry
        let exit? ← exitIn? g exit?
        return { entry, exit?, owned, simple? }) := by
    intro owned
    rw [RegionPieces.toHeader_eq, lookup_entry]
    simp only [toOption_bind, toOption_resolveForm, toOption_toExit, toSimple_formValues,
      toOption_ok, Option.bind_eq_bind, Option.bind_some]
    rfl
  unfold headerIn?
  cases owned.mapM g.find? with
  | none => cases g.find? entry <;> cases exitIn? g exit? <;> rfl
  | some owned => exact hheader owned

theorem ofSexpItems_keyword {item : Sexp} {keyword : String} (h : item.keyword? = some keyword)
    (value : Sexp) (rest : List Sexp) :
    RegionTree.ofSexpItems g false (item :: value :: rest) =
      RegionTree.ofSexpItems g false rest := by
  rw [RegionTree.ofSexpItems, h]
  rfl

theorem ofSexpItems_exit (exit? : Option String) (rest : List Sexp) :
    RegionTree.ofSexpItems g false (exitToSexp terse exit? ++ rest) =
      RegionTree.ofSexpItems g false rest := by
  have hexit : (Sexp.symbol ":exit").keyword? = some "exit" := rfl
  cases exit? with
  | some exit => exact ofSexpItems_keyword g hexit _ rest
  | none =>
      cases terse with
      | true => rfl
      | false => exact ofSexpItems_keyword g hexit _ rest

theorem ofSexpItems_simple (simple? : Option Bool) (rest : List Sexp) :
    RegionTree.ofSexpItems g false (simpleToSexp simple? ++ rest) =
      RegionTree.ofSexpItems g false rest := by
  have hsimple : (Sexp.symbol ":simple").keyword? = some "simple" := rfl
  cases simple? with
  | some simple => exact ofSexpItems_keyword g hsimple _ rest
  | none => rfl

theorem ofSexpItems_skip (entry : String) (exit? : Option String) (simple? : Option Bool)
    (owned rest : List Sexp) :
    RegionTree.ofSexpItems g false (.symbol "region" :: .symbol ":entry" :: .string entry ::
      (exitToSexp terse exit? ++ simpleToSexp simple? ++
        .list (.symbol "blocks" :: owned) :: rest)) =
      RegionTree.ofSexpItems g false rest := by
  have hentry : (Sexp.symbol ":entry").keyword? = some "entry" := rfl
  have hregion : ∀ items, RegionTree.ofSexpItems g false (.symbol "region" :: items) =
      RegionTree.ofSexpItems g false items := fun _ => rfl
  have hblocks : RegionTree.ofSexpItems g false (.list (.symbol "blocks" :: owned) :: rest) =
      RegionTree.ofSexpItems g false rest := rfl
  rw [hregion, ofSexpItems_keyword g hentry, List.append_assoc, ofSexpItems_exit,
    ofSexpItems_simple, hblocks]

mutual

/-- The tree read from the form that describes a region is the tree described. -/
theorem toOption_ofSexp :
    ∀ t : RegionDescription, (RegionTree.ofSexp g (t.toSexp terse)).toOption = t.resolve? g
  | .node entry exit? simple? owned children => by
    rw [toSexp, RegionTree.ofSexp, resolve?, toOption_bind, List.drop_one, List.tail_cons,
      toOption_headerOfSexp]
    apply congrArg (_ >>= ·)
    funext header
    rw [toOption_bind, ofSexpItems_skip, toOption_ofSexpItems]
    rfl

theorem toOption_ofSexpItems :
    ∀ children : List RegionDescription,
      (RegionTree.ofSexpItems g false (toSexpItems terse children)).toOption =
        resolveItems? g children
  | [] => rfl
  | child :: rest => by
    have hkeyword : (child.toSexp terse).keyword?.isSome = false := by cases child; rfl
    have hhead : (child.toSexp terse).head? = some "region" := by cases child; rfl
    rw [toSexpItems, RegionTree.ofSexpItems, resolveItems?, hkeyword, hhead, if_neg (by decide),
      if_neg (by decide), if_pos rfl, toOption_bind, toOption_ofSexp]
    apply congrArg (_ >>= ·)
    funext tree
    rw [toOption_bind, toOption_ofSexpItems]
    rfl

end

end

end RegionDescription

end FlowRegions

import FlowRegions.Description.OfJson
import FlowRegions.Description.OfSexp

/-!
# Descriptions

A description is what both forms of a document express: a name, blocks, edges between block names
and perhaps a region tree. It is written in either form here. A terse encoding leaves out what is
absent or empty, any other says so.
-/

namespace FlowRegions

/-- A block by its name and its instructions. -/
structure BlockDescription where
  name : String
  instructions : List String := []
deriving DecidableEq, Repr

/-- A region by the names of blocks. -/
inductive RegionDescription where
  | node (entry : String) (exit? : Option String) (simple? : Option Bool) (owned : List String)
      (children : List RegionDescription)
deriving Repr

@[elab_as_elim, induction_eliminator]
theorem RegionDescription.induct {motive : RegionDescription → Prop}
    (node : ∀ entry exit? simple? owned children, (∀ child ∈ children, motive child) →
      motive (.node entry exit? simple? owned children)) : ∀ t, motive t
  | .node entry exit? simple? owned children =>
    node entry exit? simple? owned children fun child _ => induct node child

/-- A function by the names of its blocks. -/
structure Description where
  name : String
  blocks : List BlockDescription
  edges : List (String × String) := []
  regions? : Option RegionDescription := none
deriving Repr

namespace Json

/-- The field for a value that may be absent. -/
def optional (terse : Bool) (key : String) : Option Json → List (String × Json)
  | some value => [(key, value)]
  | none => if terse then [] else [(key, .null)]

/-- The field for a list that may be empty. -/
def listed (terse : Bool) (key : String) (items : List Json) : List (String × Json) :=
  if terse && items.isEmpty then [] else [(key, .array items)]

end Json

/-! ### JSON -/

namespace BlockDescription

def toJson (terse : Bool) (block : BlockDescription) : Json :=
  if terse && block.instructions.isEmpty then .string block.name
  else .object [("name", .string block.name),
    ("instructions", .array (block.instructions.map .string))]

def toSexp (block : BlockDescription) : Sexp :=
  .list (.symbol "block" :: .string block.name :: block.instructions.map .string)

end BlockDescription

namespace RegionDescription

/-- The fields of a region around the values of its children. -/
def fields (terse : Bool) (entry : String) (exit? : Option String) (simple? : Option Bool)
    (owned : List String) (children : List Json) : List (String × Json) :=
  ("entry", .string entry) :: (Json.optional terse "exit" (exit?.map .string) ++
    Json.optional terse "simple" (simple?.map .bool) ++
    Json.listed terse "blocks" (owned.map .string) ++ Json.listed terse "children" children)

mutual

/-- The object that describes a region. -/
def toJson (terse : Bool) : RegionDescription → Json
  | .node entry exit? simple? owned children =>
    .object (fields terse entry exit? simple? owned (toJsonItems terse children))

def toJsonItems (terse : Bool) : List RegionDescription → List Json
  | [] => []
  | child :: rest => toJson terse child :: toJsonItems terse rest

end

/-- The keyword for an exit and its value. -/
def exitToSexp (terse : Bool) : Option String → List Sexp
  | some exit => [.symbol ":exit", .string exit]
  | none => if terse then [] else [.symbol ":exit", .symbol "nil"]

/-- The keyword for a classification and its value. -/
def simpleToSexp : Option Bool → List Sexp
  | some simple => [.symbol ":simple", .symbol (if simple then "true" else "false")]
  | none => []

mutual

/-- The form that describes a region. -/
def toSexp (terse : Bool) : RegionDescription → Sexp
  | .node entry exit? simple? owned children => .list (
      .symbol "region" :: .symbol ":entry" :: .string entry ::
      (exitToSexp terse exit? ++ simpleToSexp simple? ++
      .list (.symbol "blocks" :: owned.map .string) :: toSexpItems terse children))

def toSexpItems (terse : Bool) : List RegionDescription → List Sexp
  | [] => []
  | child :: rest => toSexp terse child :: toSexpItems terse rest

end

end RegionDescription

namespace Description

/-- The names of the blocks. -/
def names (d : Description) : List String :=
  d.blocks.map (·.name)

/-- The fields of a function. -/
def fields (terse : Bool) (d : Description) : List (String × Json) :=
  ("function", .string d.name) :: (
    Json.listed terse "blocks" (d.blocks.map (BlockDescription.toJson terse)) ++
    Json.listed terse "edges" (d.edges.map fun ends => .array [.string ends.1, .string ends.2]) ++
    Json.optional terse "regions" (d.regions?.map (RegionDescription.toJson terse)))

/-- The object that describes a function. -/
def toJson (terse : Bool) (d : Description) : Json :=
  .object (d.fields terse)

/-- The form that describes a function. -/
def toSexp (terse : Bool) (d : Description) : Sexp :=
  .list (.symbol "function" :: .string d.name :: (
    d.blocks.map BlockDescription.toSexp ++
    d.edges.map (fun ends => .list [.symbol "edge", .string ends.1, .string ends.2]) ++
    (d.regions?.map (RegionDescription.toSexp terse)).toList))

end Description

end FlowRegions

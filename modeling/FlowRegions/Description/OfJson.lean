import FlowRegions.Description.Draft

/-!
# Functions described in JSON

A function is an object with a name, a list of blocks, a list of edges between block names and a
tree of regions.  Fields are read in this order, the children of a region after its own fields.
-/

namespace FlowRegions

/-- The list under `key`, empty if there is none, in the description of `function`. -/
def Json.listField (function key : String) (fields : List (String × Json)) :
    Except LoadFault (List Json) :=
  match Json.lookup? key fields with
  | none => .ok []
  | some (.array items) => .ok items
  | some value => .error (.notList key function value)

/-- The value under `key`, unless it is absent or null. -/
def Json.valueField? (key : String) (fields : List (String × Json)) : Option Json :=
  match Json.lookup? key fields with
  | some .null => none
  | other => other

namespace RegionHeader

/-- Reads the fields of a region, its children aside. -/
def ofJson (g : Cfg) (fields : List (String × Json)) : Except LoadFault RegionHeader := do
  let some entry := Json.lookup? "entry" fields
    | throw (.regionWithoutEntry g.name (.object fields))
  let entry ← g.resolve .regionEntry entry.asName
  let exit? ← match Json.valueField? "exit" fields with
    | none => pure none
    | some exit => some <$> g.resolve .regionExit exit.asName
  let simple? ← match Json.valueField? "simple" fields with
    | none => pure none
    | some (.bool simple) => pure (some simple)
    | some value => throw (.simpleNotBoolean value)
  let blocks ← Json.listField g.name "blocks" fields
  let owned ← blocks.mapM fun block => g.resolve .regionBlock block.asName
  return { entry, exit?, owned, simple? }

end RegionHeader

namespace RegionTree

mutual

def ofJson (g : Cfg) : Json → Except LoadFault RegionTree
  | .object fields => do
    let header ← RegionHeader.ofJson g fields
    let children ← ofJsonFields g fields
    return .node header children
  | value => .error (.regionWithoutEntry g.name value)

/-- Reads the regions that the fields of a region list under `children`. -/
def ofJsonFields (g : Cfg) : List (String × Json) → Except LoadFault (List RegionTree)
  | [] => .ok []
  | (key, value) :: rest =>
    if key = "children" then ofJsonChildren g value else ofJsonFields g rest

def ofJsonChildren (g : Cfg) : Json → Except LoadFault (List RegionTree)
  | .array items => ofJsonItems g items
  | value => .error (.notList "children" g.name value)

def ofJsonItems (g : Cfg) : List Json → Except LoadFault (List RegionTree)
  | [] => .ok []
  | item :: rest => do
    let tree ← ofJson g item
    let others ← ofJsonItems g rest
    return tree :: others

end

end RegionTree

namespace Draft

def nameOfJson (fields : List (String × Json)) : String :=
  match Json.lookup? "function" fields with
  | some name => name.asName
  | none =>
    match Json.lookup? "name" fields with
    | some name => name.asName
    | none => "unnamed"

/-- Adds a block given by its name alone or with instructions. -/
def addJsonBlock (function : String) (ws : Workspace) : Json → Except LoadFault Workspace
  | .string name => addBlock ws name []
  | .object fields =>
    match Json.lookup? "name" fields with
    | none => .error (.badBlock function (.object fields))
    | some name => do
      let instructions ← Json.listField function "instructions" fields
      addBlock ws name.asName (instructions.map Json.asName)
  | value => .error (.badBlock function value)

def addJsonEdge (ws : Workspace) : Json → Except LoadFault Workspace
  | .array [source, target] => do
    let source ← ws.onlyGraph.resolve .edgeSource source.asName
    let target ← ws.onlyGraph.resolve .edgeTarget target.asName
    return addEdge ws source target
  | value => .error (.badEdge value)

def ofJson : Json → Except LoadFault Draft
  | .object fields => do
    let function := nameOfJson fields
    let blocks ← Json.listField function "blocks" fields
    let ws ← blocks.foldlM (addJsonBlock function) (Workspace.single function)
    let edges ← Json.listField function "edges" fields
    let ws ← edges.foldlM addJsonEdge ws
    let tree? ← match Json.valueField? "regions" fields with
      | none => pure none
      | some regions => some <$> RegionTree.ofJson ws.onlyGraph regions
    ofParts ws tree?
  | value => .error (.notObject value)

end Draft

end FlowRegions

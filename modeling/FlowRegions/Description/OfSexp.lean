import FlowRegions.Description.Draft

/-!
# Functions described by S-expressions

A function is a form `(function NAME ITEM...)` whose items are blocks, edges and at most one region.
Edges and the region are read after all items have been seen, so they may come before the blocks
that they mention.  A region form mixes keywords with their values, lists of blocks and further
regions; these are read after everything else in the form.
-/

namespace FlowRegions

namespace Sexp

def asName (form : Sexp) : Except LoadFault String :=
  match form.name? with
  | some name => .ok name
  | none => .error (.notName form)

def asTruth (form : Sexp) : Except LoadFault Bool :=
  match form.truth? with
  | some value => .ok value
  | none => .error (.notBoolean form)

def asSymbol : Sexp → Except LoadFault String
  | symbol name => .ok name
  | form => .error (.notSymbol form)

/-- The keyword that a symbol spells, without its colon. -/
def keyword? : Sexp → Option String
  | symbol name =>
    match name.toList with
    | ':' :: rest => some (String.ofList rest)
    | _ => none
  | _ => none

end Sexp

/-- The pieces of a region form, the regions inside it aside. -/
structure RegionPieces where
  /-- The values behind keywords, the latest first. -/
  values : List (String × Sexp) := []
  owned : List Nat := []

namespace RegionPieces

def collect (g : Cfg) (pieces : RegionPieces) : List Sexp → Except LoadFault RegionPieces
  | [] => .ok pieces
  | item :: rest =>
    match item.keyword? with
    | some keyword =>
      match rest with
      | [] => .error (.keywordWithoutValue (":" ++ keyword))
      | value :: rest => collect g { pieces with values := (keyword, value) :: pieces.values } rest
    | none =>
      match item with
      | .list (.symbol "blocks" :: names) => do
        let owned ← names.mapM fun name => do g.resolve .regionBlock (← name.asName)
        collect g { pieces with owned := pieces.owned ++ owned } rest
      | .list (.symbol "region" :: _) => collect g pieces rest
      | item => .error (.unexpectedRegionForm item)

/-- The header that the pieces of a region form make up. -/
def toHeader (g : Cfg) (pieces : RegionPieces) : Except LoadFault RegionHeader := do
  let some entry := pieces.values.lookup "entry"
    | throw (.regionFormWithoutEntry g.name)
  let entry ← g.resolve .regionEntry (← entry.asName)
  let exit? ← match pieces.values.lookup "exit" with
    | none | some (.symbol "nil") => pure none
    | some exit => some <$> do g.resolve .regionExit (← exit.asName)
  let simple? ← match pieces.values.lookup "simple" with
    | none => pure none
    | some simple => some <$> simple.asTruth
  return { entry, exit?, owned := pieces.owned, simple? }

end RegionPieces

namespace RegionHeader

/-- Reads the items of a region form behind its tag, the regions inside it aside. -/
def ofSexp (g : Cfg) (items : List Sexp) : Except LoadFault RegionHeader := do
  RegionPieces.toHeader g (← RegionPieces.collect g {} items)

end RegionHeader

namespace RegionTree

mutual

def ofSexp (g : Cfg) : Sexp → Except LoadFault RegionTree
  | .list items => do
    let header ← RegionHeader.ofSexp g (items.drop 1)
    let children ← ofSexpItems g false items
    return .node header children
  | form => .error (.unexpectedRegionForm form)

/-- Reads the regions among the items of a region form.  `afterKeyword` tells whether the next item
is the value of a keyword, and so no region. -/
def ofSexpItems (g : Cfg) (afterKeyword : Bool) : List Sexp → Except LoadFault (List RegionTree)
  | [] => .ok []
  | item :: rest =>
    if afterKeyword then ofSexpItems g false rest
    else if item.keyword?.isSome then ofSexpItems g true rest
    else if item.head? = some "region" then do
      let tree ← ofSexp g item
      let others ← ofSexpItems g false rest
      return tree :: others
    else ofSexpItems g false rest

end

end RegionTree

/-- The items of a function form that were seen so far; the edges and the region are not read
yet. -/
structure FunctionPieces where
  workspace : Workspace
  edges : List (Sexp × Sexp) := []
  region? : Option Sexp := none

namespace FunctionPieces

/-- Takes one more item. -/
def add (function : String) (pieces : FunctionPieces) (item : Sexp) :
    Except LoadFault FunctionPieces :=
  match item with
  | .list (.symbol "block" :: items) =>
    match items with
    | [] => .error (.blockFormWithoutName function)
    | name :: instructions => do
      let name ← name.asName
      let instructions ← instructions.mapM Sexp.asName
      let workspace ← Draft.addBlock pieces.workspace name instructions
      return { pieces with workspace }
  | .list (.symbol "edge" :: ends) =>
    match ends with
    | [source, target] => .ok { pieces with edges := pieces.edges ++ [(source, target)] }
    | _ => .error (.badEdgeForm item)
  | .list (.symbol "region" :: _) =>
    match pieces.region? with
    | some _ => .error (.secondRegionForm function)
    | none => .ok { pieces with region? := some item }
  | item => .error (.unexpectedForm function item)

end FunctionPieces

namespace Draft

def addSexpEdge (ws : Workspace) (ends : Sexp × Sexp) : Except LoadFault Workspace := do
  let source ← ws.onlyGraph.resolve .edgeSource (← ends.1.asName)
  let target ← ws.onlyGraph.resolve .edgeTarget (← ends.2.asName)
  return addEdge ws source target

def ofSexp : Sexp → Except LoadFault Draft
  | .list (.symbol "function" :: name :: items) => do
    let function ← name.asName
    let pieces ← items.foldlM (FunctionPieces.add function) { workspace := .single function }
    let ws ← pieces.edges.foldlM addSexpEdge pieces.workspace
    let tree? ← match pieces.region? with
      | none => pure none
      | some region => some <$> RegionTree.ofSexp ws.onlyGraph region
    ofParts ws tree?
  | form => .error (.notFunctionForm form)

end Draft

end FlowRegions

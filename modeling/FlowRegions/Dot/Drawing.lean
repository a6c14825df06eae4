import FlowRegions.Dot.Escape

/-!
# Drawings

A graph is drawn through a view that supplies its nodes, the children of each node, their labels
and attributes, and text to put before the closing brace.  A drawing has one statement per visible
node, followed by one per visible child of that node.
-/

namespace FlowRegions.Dot

/-- How a graph with nodes `ν` is presented.  Views may be incomplete: `ε` tells what is missing. -/
structure View (ε ν : Type) where
  /-- The title of a drawing that is given none. -/
  name : String := ""
  properties : String := ""
  nodes : Except ε (List ν)
  children : ν → Except ε (List ν)
  nodeId : ν → Except ε String
  isHidden : ν → Bool := fun _ => false
  label : ν → String := fun _ => ""
  nodeAttributes : ν → String := fun _ => ""
  edgeAttributes : ν → ν → String := fun _ _ => ""
  /-- Text before the closing brace. -/
  features : Except ε String := .ok ""

/-- A statement about a node or an edge. -/
inductive Statement where
  | node (id attributes label : String)
  | edge (source target attributes : String)
deriving DecidableEq, Repr

namespace Statement

/-- The line of a statement.  Labels are escaped, identifiers and attributes are taken as they
are. -/
def text : Statement → String
  | node id attributes label =>
    "\t" ++ id ++ " [shape=record," ++ (if attributes.isEmpty then "" else attributes ++ ",") ++
      "label=\"\x7b" ++ escape label ++ "\x7d\"];\n"
  | edge source target attributes =>
    "\t" ++ source ++ " -> " ++ target ++
      (if attributes.isEmpty then "" else "[" ++ attributes ++ "]") ++ ";\n"

def isNode : Statement → Bool
  | node .. => true
  | edge .. => false

end Statement

/-- A finished drawing. -/
structure Drawing where
  title : String
  properties : String
  statements : List Statement
  features : String
deriving DecidableEq, Repr

namespace Drawing

/-- The lines up to the first statement.  Without a title the graph stays unnamed. -/
def headerText (d : Drawing) : String :=
  (if d.title.isEmpty then "digraph unnamed \x7b\n"
    else "digraph \"" ++ escape d.title ++ "\" \x7b\n\tlabel=\"" ++ escape d.title ++ "\";\n") ++
  d.properties ++ "\n"

def text (d : Drawing) : String :=
  d.headerText ++ String.join (d.statements.map Statement.text) ++ d.features ++ "\x7d\n"

def nodeCount (d : Drawing) : Nat :=
  d.statements.countP (·.isNode)

def edgeCount (d : Drawing) : Nat :=
  d.statements.countP (!·.isNode)

end Drawing

namespace View

variable {ε ν : Type}

/-- The statement about the edge from `source` to `target`. -/
def edgeStatement (view : View ε ν) (source target : ν) : Except ε Statement := do
  return .edge (← view.nodeId source) (← view.nodeId target) (view.edgeAttributes source target)

/-- The statements about a node and its visible children. -/
def nodeStatements (view : View ε ν) (node : ν) : Except ε (List Statement) := do
  let id ← view.nodeId node
  let children ← view.children node
  let edges ← (children.filter (!view.isHidden ·)).mapM (view.edgeStatement node)
  return .node id (view.nodeAttributes node) (view.label node) :: edges

def statements (view : View ε ν) : Except ε (List Statement) := do
  let nodes ← view.nodes
  let groups ← (nodes.filter (!view.isHidden ·)).mapM view.nodeStatements
  return groups.flatten

/-- Draws a graph.  An empty title gives way to the name of the view. -/
def draw (view : View ε ν) (title : String) : Except ε Drawing := do
  return {
    title := if title.isEmpty then view.name else title
    properties := view.properties
    statements := ← view.statements
    features := ← view.features }

end View

/-- So many blanks, none if `width` is negative. -/
def blanks (width : Int) : String :=
  String.ofList (List.replicate width.toNat ' ')

end FlowRegions.Dot

import FlowRegions.Text.Quoted

/-!
# Control flow graphs

A graph owns its blocks, the first of which is the entry, and its edges in the order in which they
were added.  Every block lists the blocks at the other end of its outgoing and incoming edges, in
the same order and once per edge.  Named blocks have distinct names, and a table leads from a name
to its block.
-/

namespace FlowRegions

abbrev GraphRef := Nat

/-- A block of one of several graphs: the position of its graph and its number there.  The block
records both itself. -/
structure BlockRef where
  graph : Nat
  index : Nat
deriving DecidableEq, Repr

/-- A basic block.  Its instructions are text that is only shown. -/
structure Block where
  /-- The graph that the block belongs to. -/
  parent : GraphRef := 0
  id : Nat := 0
  name? : Option String := none
  instructions : List String := []
  successors : List BlockRef := []
  predecessors : List BlockRef := []
deriving Repr

namespace Block

/-- The name that is shown for the block numbered `index`: its own, if it has one that is not
empty. -/
def displayName (index : Nat) (block : Block) : String :=
  match block.name? with
  | none => s!"%{index}"
  | some name => if name.isEmpty then s!"%{index}" else name

/-- The block's name and a colon, then its instructions, each line ended by `\l`. -/
def fullLabel (index : Nat) (block : Block) : String :=
  String.join (((block.displayName index ++ ":") :: block.instructions.map ("  " ++ ·)).map
    (· ++ "\\l"))

end Block

/-- An edge from `source` to `target`. -/
structure Edge where
  source : BlockRef
  target : BlockRef
deriving DecidableEq, Repr

/-- The control flow graph of one function. -/
structure Cfg where
  name : String
  blocks : Array Block := #[]
  edges : Array Edge := #[]
  /-- The blocks that have names, each entered under its name when it was added. -/
  byName : List (String × BlockRef) := []
deriving Repr

/-- A block was given a name that another block of its graph has. -/
structure DuplicateBlock where
  block : String
  graph : String
deriving DecidableEq, Repr

def DuplicateBlock.message (e : DuplicateBlock) : String :=
  "duplicate block name " ++ Text.quoted e.block ++ " in " ++ Text.quoted e.graph

namespace Cfg

/-- The block called `name`. -/
def block? (g : Cfg) (name : String) : Option BlockRef :=
  g.byName.lookup name

def find? (g : Cfg) (name : String) : Option Nat :=
  (g.block? name).map (·.index)

def hasBlock (g : Cfg) (name : String) : Bool :=
  (g.block? name).isSome

/-- Adds a block without edges to the graph at position `self`, enters it under its name and returns
it.  Its number is the count of blocks before it.  A name that is taken ends the call, and the graph
stays as the call has left it so far. -/
def createBlock (self : GraphRef) (name? : Option String) (instructions : List String) :
    ExceptT DuplicateBlock (StateM Cfg) BlockRef := do
  let g ← get
  match name?.filter g.hasBlock with
  | some name => throw ⟨name, g.name⟩
  | none =>
    let b : BlockRef := ⟨self, g.blocks.size⟩
    modify fun g =>
      { g with blocks := g.blocks.push { parent := self, id := b.index, name?, instructions } }
    if let some name := name? then
      modify fun g => { g with byName := g.byName ++ [(name, b)] }
    return b

def modifyBlock (g : Cfg) (index : Nat) (f : Block → Block) : Cfg :=
  { g with blocks := g.blocks.modify index f }

@[simp] theorem name_modifyBlock (g : Cfg) (index : Nat) (f : Block → Block) :
    (g.modifyBlock index f).name = g.name := rfl

@[simp] theorem edges_modifyBlock (g : Cfg) (index : Nat) (f : Block → Block) :
    (g.modifyBlock index f).edges = g.edges := rfl

@[simp] theorem size_blocks_modifyBlock (g : Cfg) (index : Nat) (f : Block → Block) :
    (g.modifyBlock index f).blocks.size = g.blocks.size := by
  simp [modifyBlock]

end Cfg

end FlowRegions

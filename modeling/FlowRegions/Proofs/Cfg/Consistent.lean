import FlowRegions.Region.Basic
import Mathlib.Data.List.Nodup

/-!
# Consistent graphs

In a consistent graph every block knows its graph and its number, the table of names leads exactly
to the blocks that have them, edges stay inside the graph, and every block lists the edges at it in
the order in which the graph has them. Adding blocks and edges keeps a graph consistent, and neither
touches what the other one wrote.
-/

namespace FlowRegions

namespace Cfg

/-- The blocks and the edges of a graph at position `g` describe each other. -/
structure Consistent (g : GraphRef) (graph : Cfg) : Prop where
  parent_eq : ∀ {i : Nat} {block : Block}, graph.blocks[i]? = some block → block.parent = g
  id_eq : ∀ {i : Nat} {block : Block}, graph.blocks[i]? = some block → block.id = i
  block?_eq_some_iff : ∀ {name : String} {b : BlockRef}, graph.block? name = some b ↔
    b.graph = g ∧ ∃ block, graph.blocks[b.index]? = some block ∧ block.name? = some name
  source_mem : ∀ edge ∈ graph.edges.toList,
    edge.source.graph = g ∧ edge.source.index < graph.blocks.size
  target_mem : ∀ edge ∈ graph.edges.toList,
    edge.target.graph = g ∧ edge.target.index < graph.blocks.size
  successors_eq : ∀ {i : Nat} {block : Block}, graph.blocks[i]? = some block →
    block.successors = (graph.edges.toList.filter (·.source = ⟨g, i⟩)).map (·.target)
  predecessors_eq : ∀ {i : Nat} {block : Block}, graph.blocks[i]? = some block →
    block.predecessors = (graph.edges.toList.filter (·.target = ⟨g, i⟩)).map (·.source)

theorem consistent_empty (g : GraphRef) (name : String) : Consistent g { name } where
  parent_eq h := by simp at h
  id_eq h := by simp at h
  block?_eq_some_iff := by simp [block?]
  source_mem := by simp
  target_mem := by simp
  successors_eq h := by simp at h
  predecessors_eq h := by simp at h

/-! ### Names -/

namespace Consistent

variable {g : GraphRef} {graph : Cfg} {name : String} {i : Nat}

/-- A name leads to the one block that has it. -/
theorem find?_eq_some_iff (h : graph.Consistent g) : graph.find? name = some i ↔
    ∃ block, graph.blocks[i]? = some block ∧ block.name? = some name := by
  rw [find?, Option.map_eq_some_iff]
  constructor
  · rintro ⟨b, hb, rfl⟩
    exact (h.block?_eq_some_iff.mp hb).2
  · intro hblock
    exact ⟨⟨g, i⟩, h.block?_eq_some_iff.mpr ⟨rfl, hblock⟩, rfl⟩

theorem find?_eq_none_iff (h : graph.Consistent g) :
    graph.find? name = none ↔ ∀ block ∈ graph.blocks, block.name? ≠ some name := by
  rw [Option.eq_none_iff_forall_ne_some]
  constructor
  · intro hnone block hblock hname
    obtain ⟨i, hi⟩ := Array.mem_iff_getElem?.mp hblock
    exact hnone i (h.find?_eq_some_iff.mpr ⟨block, hi, hname⟩)
  · intro hnone i hi
    obtain ⟨block, hblock, hname⟩ := h.find?_eq_some_iff.mp hi
    exact hnone block (Array.mem_of_getElem? hblock) hname

theorem lt_of_find?_eq_some (h : graph.Consistent g) (hfind : graph.find? name = some i) :
    i < graph.blocks.size := by
  obtain ⟨block, hblock, _⟩ := h.find?_eq_some_iff.mp hfind
  exact (Array.getElem?_eq_some_iff.mp hblock).1

end Consistent

theorem hasBlock_eq_isSome_find? (graph : Cfg) (name : String) :
    graph.hasBlock name = (graph.find? name).isSome := by
  rw [hasBlock, find?, Option.isSome_map]

/-! ### Adding blocks -/

theorem filter_end_size {g : GraphRef} {graph : Cfg} {side : Edge → BlockRef}
    (h : ∀ edge ∈ graph.edges.toList,
      (side edge).graph = g ∧ (side edge).index < graph.blocks.size) :
    graph.edges.toList.filter (side · = ⟨g, graph.blocks.size⟩) = [] := by
  rw [List.filter_eq_nil_iff]
  intro edge hedge heq
  have hlt := (h edge hedge).2
  rw [of_decide_eq_true heq] at hlt
  exact Nat.lt_irrefl _ hlt

/-- What the blocks list of the edges at them stays right with a new block that lists nothing. -/
theorem links_push {g : GraphRef} {graph : Cfg} {links : Block → List BlockRef}
    {side other : Edge → BlockRef} {added : Block}
    (hside : ∀ edge ∈ graph.edges.toList,
      (side edge).graph = g ∧ (side edge).index < graph.blocks.size)
    (hlinks : ∀ {i : Nat} {block : Block}, graph.blocks[i]? = some block →
      links block = (graph.edges.toList.filter (side · = ⟨g, i⟩)).map other)
    (hadded : links added = []) {i : Nat} {block : Block}
    (hblock : (graph.blocks.push added)[i]? = some block) :
    links block = (graph.edges.toList.filter (side · = ⟨g, i⟩)).map other := by
  rw [Array.getElem?_push] at hblock
  by_cases hi : i = graph.blocks.size
  · rw [if_pos hi] at hblock
    obtain rfl := Option.some.inj hblock
    rw [hadded, hi, filter_end_size hside, List.map_nil]
  · rw [if_neg hi] at hblock
    exact hlinks hblock

/-- The graph at position `g` with one more block, entered under its name. -/
def pushBlock (g : GraphRef) (graph : Cfg) (name? : Option String) (instructions : List String) :
    Cfg :=
  { graph with
    blocks := graph.blocks.push { parent := g, id := graph.blocks.size, name?, instructions }
    byName := graph.byName ++ name?.toList.map (·, ⟨g, graph.blocks.size⟩) }

section

variable {g : GraphRef} {graph graph' : Cfg} {name? : Option String} {instructions : List String}

/-- A call for a block either finds its name taken and leaves the graph as it was, or puts the block
behind the others. -/
theorem run_createBlock (g : GraphRef) (graph : Cfg) (name? : Option String)
    (instructions : List String) : (createBlock g name? instructions).run.run graph =
      match name?.filter graph.hasBlock with
      | some name => (.error ⟨name, graph.name⟩, graph)
      | none => (.ok ⟨g, graph.blocks.size⟩, graph.pushBlock g name? instructions) := by
  have hget : (get : ExceptT DuplicateBlock (StateM Cfg) Cfg).run.run graph =
      pure (.ok graph, graph) := rfl
  rw [createBlock, ExceptT.run_bind, StateT.run_bind, hget, pure_bind]
  dsimp only
  cases name?.filter graph.hasBlock with
  | some name => rfl
  | none =>
      cases name? with
      | none =>
          rw [pushBlock, Option.toList_none, List.map_nil, List.append_nil]
          rfl
      | some name => rfl

/-- The graph after a call for a block, unless the call is refused. -/
def addBlock (g : GraphRef) (graph : Cfg) (name? : Option String) (instructions : List String) :
    Except DuplicateBlock Cfg :=
  match (createBlock g name? instructions).run.run graph with
  | (.ok _, graph) => .ok graph
  | (.error e, _) => .error e

theorem addBlock_eq_ok_iff : graph.addBlock g name? instructions = .ok graph' ↔
    (∀ name ∈ name?, graph.find? name = none) ∧
      graph' = graph.pushBlock g name? instructions := by
  rw [addBlock, run_createBlock]
  cases name? with
  | none => simp [eq_comm]
  | some name =>
      have hfresh : (∀ other ∈ some name, graph.find? other = none) ↔ graph.find? name = none := by
        simp
      rw [Option.filter_some, hasBlock_eq_isSome_find?, hfresh]
      cases graph.find? name with
      | none => simpa using eq_comm
      | some i => simp

theorem getElem?_blocks_pushBlock (i : Nat) :
    (graph.pushBlock g name? instructions).blocks[i]? =
      if i = graph.blocks.size then
        some { parent := g, id := graph.blocks.size, name?, instructions }
      else graph.blocks[i]? :=
  Array.getElem?_push

@[simp] theorem size_blocks_pushBlock :
    (graph.pushBlock g name? instructions).blocks.size = graph.blocks.size + 1 :=
  Array.size_push _

/-- A name that is entered leads to the new block unless it led to another one before. -/
theorem block?_pushBlock (name : String) :
    (graph.pushBlock g name? instructions).block? name =
      (graph.block? name).or (if name? = some name then some ⟨g, graph.blocks.size⟩ else none) := by
  rw [block?, pushBlock, List.lookup_append, block?]
  cases name? with
  | none => rfl
  | some new =>
      by_cases h : name = new
      · simp [h]
      · have hne : (name == new) = false := beq_false_of_ne h
        simp [List.lookup_cons, hne, Ne.symm h]

theorem Consistent.pushBlock (h : graph.Consistent g)
    (hfresh : ∀ name ∈ name?, graph.find? name = none) :
    (graph.pushBlock g name? instructions).Consistent g where
  parent_eq := by
    intro i block hblock
    rw [getElem?_blocks_pushBlock] at hblock
    split at hblock
    · rw [← Option.some.inj hblock]
    · exact h.parent_eq hblock
  id_eq := by
    intro i block hblock
    rw [getElem?_blocks_pushBlock] at hblock
    split at hblock
    · next hi => rw [← Option.some.inj hblock, hi]
    · exact h.id_eq hblock
  block?_eq_some_iff := by
    intro name b
    rw [block?_pushBlock, Option.or_eq_some_iff, getElem?_blocks_pushBlock]
    by_cases hi : b.index = graph.blocks.size
    -- The new block is the only one with its number, and its name was free.
    · have hold : graph.block? name ≠ some b := by
        intro hb
        obtain ⟨_, block, hblock, _⟩ := h.block?_eq_some_iff.mp hb
        exact absurd (Array.getElem?_eq_some_iff.mp hblock).1 (by omega)
      rw [if_pos hi]
      constructor
      · rintro (hb | ⟨_, hb⟩)
        · exact absurd hb hold
        · obtain ⟨hname, hb⟩ := Option.ite_none_right_eq_some.mp hb
          exact ⟨(congrArg BlockRef.graph (Option.some.inj hb)).symm, _, rfl, hname⟩
      · rintro ⟨rfl, block, hblock, hname⟩
        obtain rfl := Option.some.inj hblock
        have hnone := hfresh name hname
        rw [find?, Option.map_eq_none_iff] at hnone
        exact Or.inr ⟨hnone, by rw [if_pos hname, ← hi]⟩
    · rw [if_neg hi, h.block?_eq_some_iff]
      refine or_iff_left ?_
      rintro ⟨_, hb⟩
      obtain ⟨_, hb⟩ := Option.ite_none_right_eq_some.mp hb
      exact hi (congrArg BlockRef.index (Option.some.inj hb)).symm
  source_mem := by
    intro edge hedge
    obtain ⟨hgraph, hlt⟩ := h.source_mem edge hedge
    exact ⟨hgraph, by rw [size_blocks_pushBlock]; omega⟩
  target_mem := by
    intro edge hedge
    obtain ⟨hgraph, hlt⟩ := h.target_mem edge hedge
    exact ⟨hgraph, by rw [size_blocks_pushBlock]; omega⟩
  successors_eq := by
    intro i block hblock
    exact links_push h.source_mem h.successors_eq rfl hblock
  predecessors_eq := by
    intro i block hblock
    exact links_push h.target_mem h.predecessors_eq rfl hblock

theorem Consistent.addBlock (h : graph.Consistent g)
    (hadd : graph.addBlock g name? instructions = .ok graph') : graph'.Consistent g := by
  obtain ⟨hfresh, rfl⟩ := addBlock_eq_ok_iff.mp hadd
  exact h.pushBlock hfresh

end

/-! ### Adding edges -/

/-- The graph at position `g` with one more edge, entered at both of its ends. -/
def addEdge (g : GraphRef) (graph : Cfg) (source target : Nat) : Cfg :=
  let graph := { graph with edges := graph.edges.push ⟨⟨g, source⟩, ⟨g, target⟩⟩ }
  let graph := graph.modifyBlock source fun block =>
    { block with successors := block.successors ++ [⟨g, target⟩] }
  graph.modifyBlock target fun block =>
    { block with predecessors := block.predecessors ++ [⟨g, source⟩] }

variable {g : GraphRef} {graph : Cfg} {source target : Nat}

@[simp] theorem name_addEdge : (graph.addEdge g source target).name = graph.name := rfl

@[simp] theorem block?_addEdge (name : String) :
    (graph.addEdge g source target).block? name = graph.block? name := rfl

@[simp] theorem edges_addEdge : (graph.addEdge g source target).edges =
    graph.edges.push ⟨⟨g, source⟩, ⟨g, target⟩⟩ := rfl

@[simp] theorem size_blocks_addEdge :
    (graph.addEdge g source target).blocks.size = graph.blocks.size := by
  simp [addEdge]

theorem getElem?_blocks_addEdge (i : Nat) : (graph.addEdge g source target).blocks[i]? =
    graph.blocks[i]?.map fun block =>
      { block with
        successors := block.successors ++ (if source = i then [⟨g, target⟩] else [])
        predecessors := block.predecessors ++ (if target = i then [⟨g, source⟩] else []) } := by
  simp only [addEdge, modifyBlock, Array.getElem?_modify]
  cases graph.blocks[i]? <;> split <;> split <;> simp

theorem map_blocks_addEdge {β : Type*} (view : Block → β)
    (hview : ∀ block successors predecessors,
      view { block with successors, predecessors } = view block) :
    (graph.addEdge g source target).blocks.toList.map view = graph.blocks.toList.map view := by
  apply List.ext_getElem?
  intro i
  rw [List.getElem?_map, List.getElem?_map, Array.getElem?_toList, Array.getElem?_toList,
    getElem?_blocks_addEdge, Option.map_map]
  exact congrArg (Option.map · _) (funext fun block => hview block _ _)

theorem Consistent.addEdge (h : graph.Consistent g) (hsource : source < graph.blocks.size)
    (htarget : target < graph.blocks.size) : (graph.addEdge g source target).Consistent g where
  parent_eq := by
    intro i block hblock
    rw [getElem?_blocks_addEdge] at hblock
    obtain ⟨old, hold, rfl⟩ := Option.map_eq_some_iff.mp hblock
    exact (h.parent_eq hold : old.parent = g)
  id_eq := by
    intro i block hblock
    rw [getElem?_blocks_addEdge] at hblock
    obtain ⟨old, hold, rfl⟩ := Option.map_eq_some_iff.mp hblock
    exact (h.id_eq hold : old.id = i)
  block?_eq_some_iff := by
    intro name b
    rw [block?_addEdge, h.block?_eq_some_iff, getElem?_blocks_addEdge]
    refine and_congr_right fun _ => ⟨?_, ?_⟩
    · rintro ⟨block, hblock, hname⟩
      exact ⟨_, Option.map_eq_some_iff.mpr ⟨block, hblock, rfl⟩, hname⟩
    · rintro ⟨block, hblock, hname⟩
      obtain ⟨old, hold, rfl⟩ := Option.map_eq_some_iff.mp hblock
      exact ⟨old, hold, hname⟩
  source_mem := by
    intro edge hedge
    rw [edges_addEdge, Array.toList_push, List.mem_append, List.mem_singleton] at hedge
    rw [size_blocks_addEdge]
    rcases hedge with hedge | rfl
    · exact h.source_mem edge hedge
    · exact ⟨rfl, hsource⟩
  target_mem := by
    intro edge hedge
    rw [edges_addEdge, Array.toList_push, List.mem_append, List.mem_singleton] at hedge
    rw [size_blocks_addEdge]
    rcases hedge with hedge | rfl
    · exact h.target_mem edge hedge
    · exact ⟨rfl, htarget⟩
  successors_eq := by
    intro i block hblock
    rw [getElem?_blocks_addEdge] at hblock
    obtain ⟨old, hold, rfl⟩ := Option.map_eq_some_iff.mp hblock
    rw [edges_addEdge, Array.toList_push, List.filter_append, List.map_append,
      ← h.successors_eq hold]
    by_cases hi : source = i <;> simp [hi]
  predecessors_eq := by
    intro i block hblock
    rw [getElem?_blocks_addEdge] at hblock
    obtain ⟨old, hold, rfl⟩ := Option.map_eq_some_iff.mp hblock
    rw [edges_addEdge, Array.toList_push, List.filter_append, List.map_append,
      ← h.predecessors_eq hold]
    by_cases hi : target = i <;> simp [hi]

end Cfg

end FlowRegions

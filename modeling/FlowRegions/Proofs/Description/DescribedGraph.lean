import FlowRegions.Proofs.Description.Equivalence

/-!
# Described graphs

Where the names of blocks are distinct and those of edges known, a description has one graph: its
blocks and its edges in order, with every name replaced by its place among the names.
-/

namespace FlowRegions

namespace Cfg

/-- The blocks of the graph have the given names, and each name leads to the first block with it. -/
structure Named (g : Cfg) (names : List String) : Prop where
  names_eq : g.blocks.toList.map (·.name?) = names.map some
  find?_eq_some_iff : ∀ {name : String} {i : Nat},
    g.find? name = some i ↔ name ∈ names ∧ names.idxOf name = i

theorem named_empty (name : String) : Named { name } [] where
  names_eq := rfl
  find?_eq_some_iff := by simp [find?, block?]

namespace Named

variable {g : Cfg} {names : List String}

theorem find?_eq_none_iff (h : g.Named names) {name : String} :
    g.find? name = none ↔ name ∉ names := by
  rw [Option.eq_none_iff_forall_ne_some]
  constructor
  · intro hnone hmem
    exact hnone _ (h.find?_eq_some_iff.mpr ⟨hmem, rfl⟩)
  · intro hmem i hi
    exact hmem (h.find?_eq_some_iff.mp hi).1

theorem size_blocks (h : g.Named names) : g.blocks.size = names.length := by
  have hlength := congrArg List.length h.names_eq
  rwa [List.length_map, List.length_map, Array.length_toList] at hlength

theorem pushBlock (h : g.Named names) (name : String) (instructions : List String) :
    (g.pushBlock 0 (some name) instructions).Named (names ++ [name]) where
  names_eq := by
    rw [Cfg.pushBlock, Array.toList_push, List.map_append, List.map_append, h.names_eq]
    rfl
  find?_eq_some_iff := by
    intro other i
    have hold : (g.block? other).map (·.index) = some i ↔
        other ∈ names ∧ names.idxOf other = i := h.find?_eq_some_iff
    have hfree : g.block? other = none ↔ other ∉ names := by
      rw [← h.find?_eq_none_iff, find?, Option.map_eq_none_iff]
    rw [find?, block?_pushBlock, List.idxOf_append]
    by_cases hmem : other ∈ names
    · obtain ⟨b, hb⟩ := Option.ne_none_iff_exists'.mp (mt hfree.mp (not_not_intro hmem))
      rw [hb] at hold ⊢
      simpa [hmem] using hold
    · rw [hfree.mpr hmem, Option.none_or, h.size_blocks]
      by_cases heq : name = other
      · simp [hmem, heq]
      · simp [hmem, heq, Ne.symm heq]

theorem addEdge (h : g.Named names) (source target : Nat) :
    (g.addEdge 0 source target).Named names where
  names_eq := (map_blocks_addEdge (·.name?) fun _ _ _ => rfl).trans h.names_eq
  find?_eq_some_iff := h.find?_eq_some_iff

end Named

end Cfg

namespace Description

variable {g : Cfg} {names : List String}

/-- The graph with a described block behind the others. -/
def addNamedBlock (g : Cfg) (block : BlockDescription) : Cfg :=
  g.pushBlock 0 (some block.name) block.instructions

theorem addBlock?_eq_some_iff (h : g.Named names) {block : BlockDescription} {g' : Cfg} :
    addBlock? g block = some g' ↔ block.name ∉ names ∧ g' = addNamedBlock g block := by
  rw [addBlock?, toOption_eq_some_iff, Cfg.addBlock_eq_ok_iff, ← h.find?_eq_none_iff]
  simp [addNamedBlock]

theorem foldlM_addBlock?_eq_some_iff {blocks : List BlockDescription} {g' : Cfg}
    (h : g.Named names) (hnames : names.Nodup) :
    blocks.foldlM addBlock? g = some g' ↔
      (names ++ blocks.map (·.name)).Nodup ∧ g' = blocks.foldl addNamedBlock g := by
  induction blocks generalizing g names with
  | nil => simp [hnames, eq_comm]
  | cons block rest ih =>
      rw [List.foldlM_cons, Option.bind_eq_bind, Option.bind_eq_some_iff, List.foldl_cons]
      simp only [addBlock?_eq_some_iff h, and_assoc, exists_and_left, exists_eq_left]
      have hsplit : names ++ (block :: rest).map (·.name) =
          (names ++ [block.name]) ++ rest.map (·.name) := by simp
      have hnew : (names ++ [block.name]).Nodup ↔ block.name ∉ names := by
        rw [← List.concat_eq_append, List.nodup_concat, and_iff_left hnames]
      have hnext : (addNamedBlock g block).Named (names ++ [block.name]) :=
        h.pushBlock block.name block.instructions
      rw [hsplit]
      constructor
      · rintro ⟨hmem, hrest⟩
        exact (ih hnext (hnew.mpr hmem)).mp hrest
      · rintro ⟨hnodup, hg'⟩
        have hfront := hnodup.of_append_left
        exact ⟨hnew.mp hfront, (ih hnext hfront).mpr ⟨hnodup, hg'⟩⟩

theorem named_foldl_addNamedBlock (h : g.Named names) (blocks : List BlockDescription) :
    (blocks.foldl addNamedBlock g).Named (names ++ blocks.map (·.name)) := by
  induction blocks generalizing g names with
  | nil => simpa using h
  | cons block rest ih =>
      have hrest := ih (h.pushBlock block.name block.instructions)
      rwa [List.append_assoc] at hrest

theorem name_foldl_addNamedBlock (blocks : List BlockDescription) :
    (blocks.foldl addNamedBlock g).name = g.name := by
  induction blocks generalizing g with
  | nil => rfl
  | cons block rest ih => exact ih

theorem edges_foldl_addNamedBlock (blocks : List BlockDescription) :
    (blocks.foldl addNamedBlock g).edges = g.edges := by
  induction blocks generalizing g with
  | nil => rfl
  | cons block rest ih => exact ih

theorem map_blocks_foldl_addNamedBlock (blocks : List BlockDescription) :
    (blocks.foldl addNamedBlock g).blocks.toList.map
        (fun block => (block.id, block.name?, block.instructions)) =
      g.blocks.toList.map (fun block => (block.id, block.name?, block.instructions)) ++
        (blocks.zipIdx g.blocks.size).map fun (block, i) =>
          (i, some block.name, block.instructions) := by
  induction blocks generalizing g with
  | nil => simp
  | cons block rest ih =>
      rw [List.foldl_cons, ih]
      simp [addNamedBlock, Cfg.pushBlock]

/-- The graph with an edge between two names. -/
def addNamedEdge (names : List String) (g : Cfg) (ends : String × String) : Cfg :=
  g.addEdge 0 (names.idxOf ends.1) (names.idxOf ends.2)

theorem foldlM_addEdge?_eq_some_iff {edges : List (String × String)} {g' : Cfg}
    (h : g.Named names) :
    edges.foldlM addEdge? g = some g' ↔ (∀ ends ∈ edges, ends.1 ∈ names ∧ ends.2 ∈ names) ∧
      g' = edges.foldl (addNamedEdge names) g := by
  induction edges generalizing g with
  | nil => simp [eq_comm]
  | cons ends rest ih =>
      have hstep : ∀ g₁, addEdge? g ends = some g₁ ↔
          (ends.1 ∈ names ∧ ends.2 ∈ names) ∧ g₁ = addNamedEdge names g ends := by
        intro g₁
        simp only [addEdge?, Option.bind_eq_bind, Option.bind_eq_some_iff, h.find?_eq_some_iff]
        constructor
        · rintro ⟨_, ⟨hsource, rfl⟩, _, ⟨htarget, rfl⟩, heq⟩
          exact ⟨⟨hsource, htarget⟩, (Option.some.inj heq).symm⟩
        · rintro ⟨⟨hsource, htarget⟩, rfl⟩
          exact ⟨_, ⟨hsource, rfl⟩, _, ⟨htarget, rfl⟩, rfl⟩
      have hnext : (addNamedEdge names g ends).Named names := h.addEdge _ _
      rw [List.foldlM_cons, Option.bind_eq_bind, Option.bind_eq_some_iff]
      simp only [hstep, and_assoc, exists_and_left, exists_eq_left, List.foldl_cons]
      rw [ih hnext, List.forall_mem_cons]
      simp only [and_assoc]

theorem named_foldl (h : g.Named names) (edges : List (String × String)) :
    (edges.foldl (addNamedEdge names) g).Named names := by
  induction edges generalizing g with
  | nil => exact h
  | cons ends rest ih => exact ih (h.addEdge _ _)

theorem name_foldl (edges : List (String × String)) :
    (edges.foldl (addNamedEdge names) g).name = g.name := by
  induction edges generalizing g with
  | nil => rfl
  | cons ends rest ih => exact ih.trans Cfg.name_addEdge

theorem map_blocks_foldl {β : Type*} (view : Block → β)
    (hview : ∀ block successors predecessors,
      view { block with successors, predecessors } = view block)
    (edges : List (String × String)) :
    (edges.foldl (addNamedEdge names) g).blocks.toList.map view = g.blocks.toList.map view := by
  induction edges generalizing g with
  | nil => rfl
  | cons ends rest ih => exact ih.trans (Cfg.map_blocks_addEdge view hview)

theorem edges_foldl (edges : List (String × String)) :
    (edges.foldl (addNamedEdge names) g).edges.toList = g.edges.toList ++ edges.map fun ends =>
      ⟨⟨0, names.idxOf ends.1⟩, ⟨0, names.idxOf ends.2⟩⟩ := by
  induction edges generalizing g with
  | nil => simp
  | cons ends rest ih =>
      rw [List.foldl_cons, ih, addNamedEdge, Cfg.edges_addEdge, Array.toList_push,
        List.append_assoc]
      rfl

/-- The described blocks without edges. -/
def blocksCfg (d : Description) : Cfg :=
  d.blocks.foldl addNamedBlock { name := d.name }

/-- The graph that is described. -/
def cfg (d : Description) : Cfg :=
  d.edges.foldl (addNamedEdge d.names) d.blocksCfg

theorem named_blocksCfg (d : Description) : d.blocksCfg.Named d.names :=
  named_foldl_addNamedBlock (Cfg.named_empty d.name) d.blocks

theorem named_cfg (d : Description) : d.cfg.Named d.names :=
  named_foldl d.named_blocksCfg d.edges

theorem name_cfg (d : Description) : d.cfg.name = d.name :=
  (name_foldl d.edges).trans (name_foldl_addNamedBlock d.blocks)

theorem blocks_cfg (d : Description) :
    d.cfg.blocks.toList.map (fun block => (block.id, block.name?, block.instructions)) =
      d.blocks.zipIdx.map fun (block, i) => (i, some block.name, block.instructions) := by
  rw [cfg, map_blocks_foldl _ (fun _ _ _ => rfl), blocksCfg, map_blocks_foldl_addNamedBlock]
  rfl

theorem edges_cfg (d : Description) : d.cfg.edges.toList = d.edges.map fun ends =>
    ⟨⟨0, d.names.idxOf ends.1⟩, ⟨0, d.names.idxOf ends.2⟩⟩ := by
  rw [cfg, edges_foldl, blocksCfg, edges_foldl_addNamedBlock]
  rfl

/-- A graph can be built exactly if names are distinct and edges lead between them. -/
theorem buildGraph_eq_some_iff (d : Description) {g : Cfg} :
    ((d.blocks.foldlM addBlock? { name := d.name }).bind fun graph =>
      d.edges.foldlM addEdge? graph) = some g ↔
      (d.names.Nodup ∧ ∀ ends ∈ d.edges, ends.1 ∈ d.names ∧ ends.2 ∈ d.names) ∧ g = d.cfg := by
  have hblocks : ∀ {g'}, d.blocks.foldlM addBlock? { name := d.name } = some g' ↔
      d.names.Nodup ∧ g' = d.blocksCfg :=
    foldlM_addBlock?_eq_some_iff (Cfg.named_empty d.name) List.nodup_nil
  simp only [Option.bind_eq_some_iff, hblocks, and_assoc, exists_and_left, exists_eq_left,
    foldlM_addEdge?_eq_some_iff d.named_blocksCfg]
  rfl

end Description

end FlowRegions

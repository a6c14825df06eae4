import FlowRegions.Proofs.Cfg.Consistent
import FlowRegions.Proofs.Region.Forest
import FlowRegions.Proofs.Region.Partition

/-!
# Workspaces as they are built

Graphs, blocks, edges and regions are added one by one, regions are attached to each other and come
to own blocks, and region trees are analysed in between. However a workspace was built, its regions
are a forest and own blocks that exist. So an analysis of any of its trees can be judged by what the
regions of the tree own.
-/

namespace FlowRegions.Workspace

variable {ws ws' : Workspace}

/-- The workspaces that can be built. Blocks of any graph may be owned and be entries, and a region
that is attached has no parent yet and does not contain its new parent. -/
inductive Built : Workspace → Prop
  | empty : Built {}
  | addGraph {ws : Workspace} (h : Built ws) (name : String) : Built (ws.addGraph name)
  | addBlock {ws ws' : Workspace} {g : GraphRef} {name? : Option String}
      {instructions : List String} (h : Built ws)
      (hadd : ws.addBlock g name? instructions = .ok ws') : Built ws'
  | addEdge {ws : Workspace} (h : Built ws) (g : GraphRef) (source target : BlockRef) :
      Built (ws.addEdge g source target)
  | addRegion {ws : Workspace} {owned : List BlockRef} (h : Built ws) (entry : BlockRef)
      (exit? : Option BlockRef) (simple? : Option Bool)
      (howned : ∀ b ∈ owned, b ∈ ws.blocksOf b.graph) :
      Built (ws.addRegion { entry, exit?, owned, simple? })
  | attach {ws : Workspace} {parent child : RegionRef} (h : Built ws)
      (hparent : parent < ws.regions.size) (hchild : child < ws.regions.size)
      (hfree : ws.parent? child = none) (hapart : ws.containsRegion child parent = false) :
      Built (ws.attach parent child)
  | own {ws : Workspace} {b : BlockRef} (h : Built ws) (r : RegionRef)
      (hb : b ∈ ws.blocksOf b.graph) : Built (ws.own r b)
  | index {ws : Workspace} (h : Built ws) (g : GraphRef) (root : RegionRef) :
      Built (ws.index g root)

/-! ### Blocks -/

def blockCount (ws : Workspace) (g : GraphRef) : Nat :=
  (ws.graphs[g]?.map (·.blocks.size)).getD 0

theorem mem_blocksOf {g : GraphRef} {b : BlockRef} :
    b ∈ ws.blocksOf g ↔ b.graph = g ∧ b.index < ws.blockCount g := by
  rw [blocksOf, List.mem_map]
  constructor
  · rintro ⟨index, hindex, rfl⟩
    exact ⟨rfl, List.mem_range.mp hindex⟩
  · rintro ⟨rfl, hindex⟩
    exact ⟨b.index, List.mem_range.mpr hindex, rfl⟩

theorem mem_blocksOf_of_le {b : BlockRef} (hcount : ∀ g, ws.blockCount g ≤ ws'.blockCount g)
    (h : b ∈ ws.blocksOf b.graph) : b ∈ ws'.blocksOf b.graph := by
  rw [mem_blocksOf] at h ⊢
  exact ⟨rfl, Nat.lt_of_lt_of_le h.2 (hcount b.graph)⟩

@[simp] theorem blockCount_addGraph (name : String) (g : GraphRef) :
    (ws.addGraph name).blockCount g = ws.blockCount g := by
  rw [blockCount, blockCount, addGraph, Array.getElem?_push]
  split
  · next hg =>
      subst hg
      simp
  · rfl

theorem setIfInBounds_of_getElem? {α : Type*} {xs : Array α} {i : Nat} {x : α}
    (h : xs[i]? = some x) : xs.setIfInBounds i x = xs := by
  apply Array.ext_getElem?
  intro j
  rw [Array.getElem?_setIfInBounds]
  split
  · next hj =>
      subst hj
      rw [if_pos (Array.getElem?_eq_some_iff.mp h).1, h]
  · rfl

theorem createBlock_of_getElem? {g : GraphRef} {graph : Cfg} (h : ws.graphs[g]? = some graph)
    (name? : Option String) (instructions : List String) :
    ws.createBlock g name? instructions =
      match name?.filter graph.hasBlock with
      | some name => (.error ⟨name, graph.name⟩, ws)
      | none => (.ok ⟨g, graph.blocks.size⟩, { ws with
          graphs := ws.graphs.setIfInBounds g (graph.pushBlock g name? instructions) }) := by
  rw [createBlock, h, Option.getD_some, Cfg.run_createBlock]
  cases name?.filter graph.hasBlock with
  | some name =>
      dsimp only
      rw [setIfInBounds_of_getElem? h]
  | none => rfl

theorem addBlock_of_getElem? {g : GraphRef} {graph : Cfg} (h : ws.graphs[g]? = some graph)
    (name? : Option String) (instructions : List String) :
    ws.addBlock g name? instructions = (graph.addBlock g name? instructions).map fun graph =>
      { ws with graphs := ws.graphs.setIfInBounds g graph } := by
  rw [addBlock, createBlock_of_getElem? h, Cfg.addBlock, Cfg.run_createBlock]
  cases name?.filter graph.hasBlock <;> rfl

theorem addBlock_of_getElem?_eq_none {g : GraphRef} (h : ws.graphs[g]? = none)
    (name? : Option String) (instructions : List String) :
    ws.addBlock g name? instructions = .ok ws := by
  have hnone : name?.filter (Cfg.hasBlock { name := "" }) = none := by
    cases name? <;> rfl
  rw [addBlock, createBlock, h, Option.getD_none, Cfg.run_createBlock, hnone]
  dsimp only
  rw [Array.setIfInBounds_eq_of_size_le (Array.getElem?_eq_none_iff.mp h)]

theorem snd_createBlock_of_addBlock_eq_ok {g : GraphRef} {name? : Option String}
    {instructions : List String} (h : ws.addBlock g name? instructions = .ok ws') :
    (ws.createBlock g name? instructions).2 = ws' := by
  rw [addBlock] at h
  split at h
  · next heq => rw [heq, Except.ok.inj h]
  · cases h

theorem snd_createBlock_of_addBlock_eq_error {g : GraphRef} {name? : Option String}
    {instructions : List String} {e : DuplicateBlock}
    (h : ws.addBlock g name? instructions = .error e) :
    (ws.createBlock g name? instructions).2 = ws := by
  cases hgraph : ws.graphs[g]? with
  | none =>
      rw [addBlock_of_getElem?_eq_none hgraph] at h
      cases h
  | some graph =>
      rw [addBlock, createBlock_of_getElem? hgraph] at h
      rw [createBlock_of_getElem? hgraph]
      cases hname : name?.filter graph.hasBlock with
      | some name => rfl
      | none =>
          rw [hname] at h
          cases h

/-- Where a block can be added, it is added behind the blocks of its graph, if there is one. -/
theorem addBlock_eq_ok {g : GraphRef} {name? : Option String} {instructions : List String}
    (h : ws.addBlock g name? instructions = .ok ws') :
    ws' = ws ∨ ∃ graph, ws.graphs[g]? = some graph ∧ ws' = { ws with
      graphs := ws.graphs.setIfInBounds g (graph.pushBlock g name? instructions) } := by
  cases hgraph : ws.graphs[g]? with
  | none =>
      rw [addBlock_of_getElem?_eq_none hgraph] at h
      exact Or.inl (Except.ok.inj h).symm
  | some graph =>
      rw [addBlock_of_getElem? hgraph] at h
      cases hadd : graph.addBlock g name? instructions with
      | error => simp [hadd, Except.map] at h
      | ok graph' =>
          simp only [hadd, Except.map, Except.ok.injEq] at h
          obtain ⟨_, rfl⟩ := Cfg.addBlock_eq_ok_iff.mp hadd
          exact Or.inr ⟨graph, rfl, h.symm⟩

theorem regions_addBlock {g : GraphRef} {name? : Option String} {instructions : List String}
    (h : ws.addBlock g name? instructions = .ok ws') : ws'.regions = ws.regions := by
  rcases addBlock_eq_ok h with rfl | ⟨graph, _, rfl⟩ <;> rfl

theorem blockCount_le_addBlock {g : GraphRef} {name? : Option String} {instructions : List String}
    (h : ws.addBlock g name? instructions = .ok ws') (k : GraphRef) :
    ws.blockCount k ≤ ws'.blockCount k := by
  rcases addBlock_eq_ok h with rfl | ⟨graph, hgraph, rfl⟩
  · exact le_refl _
  · obtain ⟨hlt, heq⟩ := Array.getElem?_eq_some_iff.mp hgraph
    rw [blockCount, blockCount, Array.getElem?_setIfInBounds]
    by_cases hk : g = k
    · subst hk
      simp [hlt, heq]
    · simp [hk]

theorem blockCount_eq_of_modify {f : Cfg → Cfg} {g : GraphRef}
    (h : ws'.graphs = ws.graphs.modify g f)
    (hf : ∀ graph, (f graph).blocks.size = graph.blocks.size) (k : GraphRef) :
    ws'.blockCount k = ws.blockCount k := by
  rw [blockCount, blockCount, h, Array.getElem?_modify]
  split
  · rw [Option.map_map]
    exact congrArg (fun view => (Option.map view _).getD 0) (funext hf)
  · rfl

@[simp] theorem blockCount_modifyBlock (b : BlockRef) (f : Block → Block) (k : GraphRef) :
    (ws.modifyBlock b f).blockCount k = ws.blockCount k :=
  blockCount_eq_of_modify rfl (fun graph => Cfg.size_blocks_modifyBlock graph b.index f) k

@[simp] theorem blockCount_addEdge (g : GraphRef) (source target : BlockRef) (k : GraphRef) :
    (ws.addEdge g source target).blockCount k = ws.blockCount k := by
  rw [addEdge, blockCount_modifyBlock, blockCount_modifyBlock]
  apply blockCount_eq_of_modify (g := g)
    (f := fun graph => { graph with edges := graph.edges.push ⟨source, target⟩ })
  · rfl
  · exact fun _ => rfl

/-! ### Regions -/

theorem getElem?_regions_addRegion (region : Region) (r : RegionRef) :
    (ws.addRegion region).regions[r]? =
      if r = ws.regions.size then some region else ws.regions[r]? :=
  Array.getElem?_push

theorem parent?_addRegion {region : Region} (h : region.parent? = none) (r : RegionRef) :
    (ws.addRegion region).parent? r = ws.parent? r := by
  rw [parent?, parent?, getElem?_regions_addRegion]
  split
  · next hr =>
      subst hr
      simp [h]
  · rfl

theorem children_addRegion {region : Region} (h : region.children = []) (r : RegionRef) :
    (ws.addRegion region).children r = ws.children r := by
  rw [children, children, getElem?_regions_addRegion]
  split
  · next hr =>
      subst hr
      simp [h]
  · rfl

theorem owned_addRegion (region : Region) (r : RegionRef) :
    (ws.addRegion region).owned r =
      if r = ws.regions.size then region.owned else ws.owned r := by
  rw [owned, owned, getElem?_regions_addRegion]
  split
  · rfl
  · rfl

@[simp] theorem owned_attach (parent child r : RegionRef) :
    (ws.attach parent child).owned r = ws.owned r := by
  rw [owned, owned, map_getElem?_attach (·.owned) fun _ _ _ => rfl]

theorem map_getElem?_own {β : Type*} (view : Region → β)
    (hview : ∀ region owned, view { region with owned := owned } = view region)
    (r : RegionRef) (b : BlockRef) (inner : RegionRef) :
    (ws.own r b).regions[inner]?.map view = ws.regions[inner]?.map view := by
  rw [own, modifyRegion, Array.getElem?_modify]
  split
  · rw [Option.map_map]
    exact congrArg (Option.map · _) (funext fun region => hview region _)
  · rfl

@[simp] theorem parent?_own (r : RegionRef) (b : BlockRef) (inner : RegionRef) :
    (ws.own r b).parent? inner = ws.parent? inner := by
  rw [parent?, parent?, bind_getElem?_eq_map_join, bind_getElem?_eq_map_join,
    map_getElem?_own (·.parent?) fun _ _ => rfl]

@[simp] theorem children_own (r : RegionRef) (b : BlockRef) (inner : RegionRef) :
    (ws.own r b).children inner = ws.children inner := by
  rw [children, children, map_getElem?_own (·.children) fun _ _ => rfl]

theorem mem_owned_own {r inner : RegionRef} {b c : BlockRef} (h : c ∈ (ws.own r b).owned inner) :
    c ∈ ws.owned inner ∨ c = b := by
  rw [owned, own, modifyRegion, Array.getElem?_modify] at h
  rw [owned]
  split at h
  · cases hregion : ws.regions[inner]? with
    | none => simp [hregion] at h
    | some region => simpa [hregion] using h
  · exact Or.inl h

/-! ### Every building step -/

namespace Built

/-- However a workspace was built, its regions are a forest. -/
theorem isForest (h : ws.Built) : ws.IsForest := by
  induction h with
  | empty =>
      refine ⟨fun r child => ?_, fun r => ?_, fun _ => 0, fun r child hlink => ?_⟩
      · simp [children, parent?]
      · simp [children]
      · simp [parent?] at hlink
  | addGraph _ name ih => exact ih.congr (fun _ => rfl) (fun _ => rfl)
  | addBlock _ hadd ih =>
      have hregions := regions_addBlock hadd
      refine ih.congr (fun r => ?_) (fun r => ?_)
      · rw [parent?, parent?, hregions]
      · rw [children, children, hregions]
  | addEdge _ g source target ih => exact ih.congr (fun _ => rfl) (fun _ => rfl)
  | addRegion _ entry exit? simple? howned ih =>
      exact ih.congr (parent?_addRegion rfl) (children_addRegion rfl)
  | attach _ hparent hchild hfree hapart ih => exact ih.attach hparent hchild hfree hapart
  | own _ r _ ih => exact ih.congr (parent?_own r _) (children_own r _)
  | index _ g root ih => exact ih.congr (parent?_index _ g root) (children_index _ g root)

theorem mem_blocksOf_of_mem_owned (h : ws.Built) {r : RegionRef} {b : BlockRef}
    (hb : b ∈ ws.owned r) : b ∈ ws.blocksOf b.graph := by
  induction h with
  | empty => simp [owned] at hb
  | addGraph _ name ih => exact mem_blocksOf_of_le (fun g => by simp) (ih hb)
  | addBlock _ hadd ih =>
      rw [owned, regions_addBlock hadd] at hb
      exact mem_blocksOf_of_le (blockCount_le_addBlock hadd) (ih hb)
  | addEdge _ g source target ih => exact mem_blocksOf_of_le (fun g => by simp) (ih hb)
  | @addRegion ws _ _ entry exit? simple? howned ih =>
      rw [owned_addRegion] at hb
      split at hb
      · exact howned b hb
      · exact ih hb
  | attach _ _ _ _ _ ih =>
      rw [owned_attach] at hb
      exact ih hb
  | own _ r hnew ih =>
      rcases mem_owned_own hb with hb | rfl
      · exact ih hb
      · exact hnew
  | index _ g root ih =>
      rw [owned_index] at hb
      exact ih hb

theorem mem_blocksOf_of_mem_ownedBelow (h : ws.Built) {root : RegionRef} {b : BlockRef}
    (hb : b ∈ ws.ownedBelow root) : b ∈ ws.blocksOf b.graph := by
  obtain ⟨r, _, howned⟩ := mem_ownedBelow.mp hb
  exact h.mem_blocksOf_of_mem_owned howned

theorem exists_isTree (h : ws.Built) {root : RegionRef} (hroot : root < ws.regions.size)
    (htop : ws.parent? root = none) : ∃ t : RefTree, t.root = root ∧ ws.IsTree t :=
  h.isForest.exists_isTree hroot htop

end Built

/-! ### Judging -/

/-- Below `root` every block of the graph is owned once, and no block of another graph is. -/
def OwnsOnce (ws : Workspace) (g : GraphRef) (root : RegionRef) : Prop :=
  (∀ b ∈ ws.blocksOf g, (ws.ownedBelow root).count b = 1) ∧
    ∀ b ∈ ws.ownedBelow root, b.graph = g

/-- Every region from `root` downwards contains its own entry. -/
def HoldsEntries (ws : Workspace) (root : RegionRef) : Prop :=
  ∀ r ∈ ws.walk root, ∀ region ∈ ws.regions[r]?, region.entry ∈ ws.ownedBelow r

/-- Every region from `root` downwards contains a block with the number of its entry. -/
def HoldsEntryNumbers (ws : Workspace) (root : RegionRef) : Prop :=
  ∀ r ∈ ws.walk root, ∀ region ∈ ws.regions[r]?,
    ∃ b ∈ ws.ownedBelow r, b.index = region.entry.index

/-- Every region from `root` downwards is entered at a block of the graph. -/
def EnteredIn (ws : Workspace) (g : GraphRef) (root : RegionRef) : Prop :=
  ∀ r ∈ ws.walk root, ∀ region ∈ ws.regions[r]?, region.entry.graph = g

theorem perm_of_ownsOnce {g : GraphRef} {root : RegionRef} (h : ws.OwnsOnce g root)
    (hreal : ∀ b ∈ ws.ownedBelow root, b ∈ ws.blocksOf b.graph) :
    (ws.ownedBelow root).Perm (ws.blocksOf g) := by
  rw [List.perm_iff_count]
  intro b
  by_cases hb : b ∈ ws.blocksOf g
  · rw [h.1 b hb, List.count_eq_one_of_mem nodup_map_index_blocksOf.of_map hb]
  · have hbelow : b ∉ ws.ownedBelow root := by
      intro hmem
      exact hb (h.2 b hmem ▸ hreal b hmem)
    rw [List.count_eq_zero_of_not_mem hb, List.count_eq_zero_of_not_mem hbelow]

theorem ownsOnce_of_perm {g : GraphRef} {root : RegionRef}
    (h : (ws.ownedBelow root).Perm (ws.blocksOf g)) : ws.OwnsOnce g root := by
  refine ⟨fun b hb => ?_, fun b hb => graph_of_mem_blocksOf (h.mem_iff.mp hb)⟩
  rw [h.count_eq, List.count_eq_one_of_mem nodup_map_index_blocksOf.of_map hb]

theorem IsTree.ownedBelow_subset {t : RefTree} (h : ws.IsTree t) {r : RegionRef}
    (hr : r ∈ t.preorder) : ws.ownedBelow r ⊆ ws.ownedBelow t.root := by
  intro b hb
  obtain ⟨inner, hinner, hb⟩ := mem_ownedBelow.mp hb
  rw [mem_ownedBelow, h.walk_root]
  exact ⟨inner, h.walk_subset hr hinner, hb⟩

namespace Built

variable {g : GraphRef} {root : RegionRef}

/-- A built tree is accepted exactly if it owns the blocks of the graph once and nothing else, and
contains the numbers of its entries. -/
theorem analyse_eq_ok_iff (h : ws.Built) (hroot : root < ws.regions.size)
    (htop : ws.parent? root = none) :
    (ws.analyse g root).2 = .ok () ↔ ws.OwnsOnce g root ∧ ws.HoldsEntryNumbers root := by
  obtain ⟨t, rfl, ht⟩ := h.exists_isTree hroot htop
  have hreal : ∀ b ∈ ws.ownedBelow t.root, b ∈ ws.blocksOf b.graph :=
    fun b hb => h.mem_blocksOf_of_mem_ownedBelow hb
  rw [ht.analyse_eq_ok_iff fun b hb hgraph => hgraph ▸ hreal b hb, HoldsEntryNumbers, ht.walk_root]
  exact and_congr_left' ⟨ownsOnce_of_perm, fun howns => perm_of_ownsOnce howns hreal⟩

/-- What a block number of an accepted tree stands for is clear only inside the graph: the entries
are contained exactly if all of them belong to it. -/
theorem holdsEntries_iff_enteredIn (h : ws.Built) (hroot : root < ws.regions.size)
    (htop : ws.parent? root = none) (hok : (ws.analyse g root).2 = .ok ()) :
    ws.HoldsEntries root ↔ ws.EnteredIn g root := by
  obtain ⟨⟨_, hgraph⟩, hnumbers⟩ := (h.analyse_eq_ok_iff hroot htop).mp hok
  obtain ⟨t, rfl, ht⟩ := h.exists_isTree hroot htop
  rw [HoldsEntryNumbers, ht.walk_root] at hnumbers
  rw [HoldsEntries, EnteredIn, ht.walk_root]
  constructor
  · intro hentries r hr region hregion
    exact hgraph region.entry (ht.ownedBelow_subset hr (hentries r hr region hregion))
  · intro hentered r hr region hregion
    obtain ⟨b, hb, hindex⟩ := hnumbers r hr region hregion
    have hsame := (hgraph b (ht.ownedBelow_subset hr hb)).trans
      (hentered r hr region hregion).symm
    rwa [← BlockRef.eq_of_graph_of_index hsame hindex]

theorem analyse_eq_ok_of_holdsEntries (h : ws.Built) (hroot : root < ws.regions.size)
    (htop : ws.parent? root = none) (howns : ws.OwnsOnce g root)
    (hentries : ws.HoldsEntries root) : (ws.analyse g root).2 = .ok () := by
  rw [h.analyse_eq_ok_iff hroot htop]
  refine ⟨howns, fun r hr region hregion => ?_⟩
  exact ⟨region.entry, hentries r hr region hregion, rfl⟩

end Built

end FlowRegions.Workspace

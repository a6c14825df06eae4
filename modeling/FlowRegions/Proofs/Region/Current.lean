import FlowRegions.Proofs.Region.Nesting
import Mathlib.Data.List.Find

/-!
# Analyses that are up to date

An analysis keeps the owners that it found, and a region looks its blocks up in the latest analysis
that reached it. So what a judgement compares may have been recorded at different times. An analysis
is current if it has recorded what the regions of its tree own and if these look their blocks up in
a record that says the same.
-/

namespace FlowRegions.Workspace

variable {ws ws' : Workspace} {a : AnalysisRef} {analysis : Analysis} {r : RegionRef}

/-- The latest analysis that reached the region. -/
def latest? (ws : Workspace) (r : RegionRef) : Option AnalysisRef :=
  ws.regions[r]?.bind (·.analysis?)

/-- The record in which a region looks up who owns a block. -/
def owners? (ws : Workspace) (r : RegionRef) : Option (BlockRef → Option RegionRef) :=
  (ws.latest? r).map ws.regionFor

theorem contains_of_owners? {owner? : BlockRef → Option RegionRef}
    (h : ws.owners? r = some owner?) (b : BlockRef) :
    ws.contains r b = (owner? b).elim false (ws.containsRegion r) := by
  obtain ⟨latest, hlatest, rfl⟩ := Option.map_eq_some_iff.mp h
  rw [latest?] at hlatest
  rw [contains, hlatest]
  dsimp only
  cases ws.regionFor latest b <;> rfl

theorem regionFor_eq_lookup (h : ws.analyses[a]? = some analysis) (b : BlockRef) :
    ws.regionFor a b = analysis.ownership.owners.lookup b.index := by
  rw [regionFor, h, Option.bind_some]

theorem owners?_congr (hlatest : ws'.latest? r = ws.latest? r)
    (hlt : ∀ latest, ws.latest? r = some latest → latest < ws.analyses.size)
    (hrecorded : ∀ (latest : AnalysisRef) (record : Analysis), ws.analyses[latest]? = some record →
      ws'.analyses[latest]? = some record) : ws'.owners? r = ws.owners? r := by
  rw [owners?, owners?, hlatest]
  apply Option.map_congr
  intro latest hmem
  obtain ⟨record, hrecord⟩ : ∃ record, ws.analyses[latest]? = some record :=
    ⟨_, Array.getElem?_eq_getElem (hlt latest hmem)⟩
  funext b
  rw [regionFor_eq_lookup hrecord, regionFor_eq_lookup (hrecorded latest record hrecord)]

/-! ### A tree that is analysed once more -/

/-- Numbering a tree touches nothing of a region but its number and its latest analysis. -/
theorem getElem?_index (g : GraphRef) (root r : RegionRef) :
    (ws.index g root).regions[r]? = ws.regions[r]?.map fun region =>
      { region with
        number := (ws.index g root).number r
        analysis? := (ws.index g root).latest? r } := by
  have hview := map_getElem?_index ws g root
    (fun region => { region with number := -1, analysis? := none }) (fun _ _ _ => rfl) r
  rw [number, latest?]
  cases hnew : (ws.index g root).regions[r]? with
  | none =>
      rw [hnew] at hview
      rw [Option.map_eq_none_iff.mp hview.symm]
      rfl
  | some region =>
      rw [hnew] at hview
      obtain ⟨old, hold, heq⟩ := Option.map_eq_some_iff.mp hview.symm
      have hsame := congrArg (fun erased : Region =>
        { erased with number := region.number, analysis? := region.analysis? }) heq
      rw [hold]
      exact congrArg some hsame.symm

@[simp] theorem regionName_index (g : GraphRef) (root r : RegionRef) :
    (ws.index g root).regionName r = ws.regionName r := by
  rw [regionName, regionName, getElem?_index]
  cases ws.regions[r]? <;> rfl

theorem latest?_index_of_not_mem {g : GraphRef} {root : RegionRef} (hr : r ∉ ws.walk root) :
    (ws.index g root).latest? r = ws.latest? r := by
  rw [latest?, latest?, regions_index, getElem?_numbered_of_not_mem]
  rwa [List.zipIdx_map_fst]

@[simp] theorem lineage_index (g : GraphRef) (top r : RegionRef) :
    (ws.index g top).lineage r = ws.lineage r :=
  lineage_congr (size_regions_index ws g top) (parent?_index ws g top) r

@[simp] theorem containsRegion_index (g : GraphRef) (top outer inner : RegionRef) :
    (ws.index g top).containsRegion outer inner = ws.containsRegion outer inner := by
  rw [containsRegion, containsRegion, lineage_index]

@[simp] theorem depth_index (g : GraphRef) (top r : RegionRef) :
    (ws.index g top).depth r = ws.depth r := by
  rw [depth, depth, lineage_index]

@[simp] theorem isEntry_index (g : GraphRef) (top r : RegionRef) (b : BlockRef) :
    (ws.index g top).isEntry r b = ws.isEntry r b := by
  rw [isEntry, isEntry, getElem?_index]
  cases ws.regions[r]? <;> rfl

theorem contains_index_of_owners? {g : GraphRef} {top : RegionRef}
    (hr : (ws.index g top).owners? r = ws.owners? r) (b : BlockRef) :
    (ws.index g top).contains r b = ws.contains r b := by
  cases howners : ws.owners? r with
  | none =>
      have hsearch : ∀ ws : Workspace, ws.owners? r = none →
          ws.contains r b = (ws.walk r).any fun inner => (ws.owned inner).contains b := by
        intro ws hnone
        have hlatest := Option.map_eq_none_iff.mp hnone
        rw [latest?] at hlatest
        rw [contains, hlatest]
      rw [hsearch _ howners, hsearch _ (hr.trans howners), walk_index]
      simp only [owned_index]
  | some owner? =>
      rw [contains_of_owners? howners, contains_of_owners? (hr.trans howners),
        funext (containsRegion_index g top r)]

/-! ### Which analyses regions know -/

theorem latest?_addRegion {region : Region} (h : region.analysis? = none) (r : RegionRef) :
    (ws.addRegion region).latest? r = ws.latest? r := by
  rw [latest?, latest?, getElem?_regions_addRegion]
  split
  · next hr =>
      subst hr
      simp [h]
  · rfl

@[simp] theorem latest?_attach (parent child r : RegionRef) :
    (ws.attach parent child).latest? r = ws.latest? r := by
  rw [latest?, latest?, bind_getElem?_eq_map_join, bind_getElem?_eq_map_join,
    map_getElem?_attach (·.analysis?) fun _ _ _ => rfl]

@[simp] theorem latest?_own (r : RegionRef) (b : BlockRef) (inner : RegionRef) :
    (ws.own r b).latest? inner = ws.latest? inner := by
  rw [latest?, latest?, bind_getElem?_eq_map_join, bind_getElem?_eq_map_join,
    map_getElem?_own (·.analysis?) fun _ _ => rfl]

theorem analyses_addBlock {g : GraphRef} {name? : Option String} {instructions : List String}
    (h : ws.addBlock g name? instructions = .ok ws') : ws'.analyses = ws.analyses := by
  rcases addBlock_eq_ok h with rfl | ⟨graph, _, rfl⟩ <;> rfl

/-- A region was reached by an analysis that exists. -/
theorem Built.lt_of_latest? (h : ws.Built) {latest : AnalysisRef}
    (hlatest : ws.latest? r = some latest) : latest < ws.analyses.size := by
  induction h with
  | empty => simp [latest?] at hlatest
  | addGraph _ name ih => exact ih hlatest
  | addBlock _ hadd ih =>
      rw [latest?, regions_addBlock hadd] at hlatest
      rw [analyses_addBlock hadd]
      exact ih hlatest
  | addEdge _ g source target ih => exact ih hlatest
  | addRegion _ entry exit? simple? howned ih =>
      rw [latest?_addRegion rfl] at hlatest
      exact ih hlatest
  | attach _ _ _ _ _ ih =>
      rw [latest?_attach] at hlatest
      exact ih hlatest
  | own _ _ _ ih =>
      rw [latest?_own] at hlatest
      exact ih hlatest
  | @index ws hbuilt g root ih =>
      rw [Workspace.index, Array.size_push]
      by_cases hr : r ∈ ws.walk root
      · rw [latest?, bind_getElem?_eq_map_join, regions_index, map_analysis?_numbered_of_mem _ _
          (by rwa [List.zipIdx_map_fst])] at hlatest
        cases hregion : ws.regions[r]? with
        | none => simp [hregion] at hlatest
        | some region =>
            rw [hregion] at hlatest
            obtain rfl : ws.analyses.size = latest := Option.some.inj hlatest
            exact Nat.lt_succ_self _
      · rw [latest?_index_of_not_mem hr] at hlatest
        exact Nat.lt_succ_of_lt (ih hlatest)

/-! ### Judging what was recorded -/

theorem isSome_lookup_ofPairs_iff {pairs : List (BlockRef × RegionRef)} {index : Nat} :
    ((Ownership.ofPairs pairs).owners.lookup index).isSome ↔
      ∃ b ∈ pairs.map (·.1), b.index = index := by
  simp only [Ownership.lookup_owners_ofPairs, Option.isSome_map, List.find?_isSome, beq_iff_eq,
    List.mem_map, exists_exists_and_eq_and]
  simp only [eq_comm]

theorem nodup_map_index {g : GraphRef} {owned : List BlockRef} (h : ∀ b ∈ owned, b.graph = g)
    (hnodup : owned.Nodup) : (owned.map (·.index)).Nodup := by
  apply hnodup.map_on
  intro b hb c hc hindex
  exact BlockRef.eq_of_graph_of_index ((h b hb).trans (h c hc).symm) hindex

/-- A record of blocks of one graph has each of them once exactly if it names an owner for each and
repeats nothing. -/
theorem count_eq_one_iff_recorded {g : GraphRef} {pairs : List (BlockRef × RegionRef)}
    (h : ∀ b ∈ pairs.map (·.1), b ∈ ws.blocksOf g) :
    (∀ b ∈ ws.blocksOf g, (pairs.map (·.1)).count b = 1) ↔
      (pairs.map (·.1.index)).Nodup ∧
      ∀ b ∈ ws.blocksOf g, ((Ownership.ofPairs pairs).owners.lookup b.index).isSome := by
  have hgraph : ∀ b ∈ pairs.map (·.1), b.graph = g := fun b hb => graph_of_mem_blocksOf (h b hb)
  have hindex : pairs.map (·.1.index) = (pairs.map (·.1)).map (·.index) := by
    rw [List.map_map]
    rfl
  simp only [isSome_lookup_ofPairs_iff]
  rw [hindex]
  constructor
  · intro hcount
    refine ⟨nodup_map_index hgraph ?_, fun b hb => ⟨b, ?_, rfl⟩⟩
    · rw [List.nodup_iff_count_eq_one]
      exact fun b hb => hcount b (h b hb)
    · rw [← List.count_pos_iff, hcount b hb]
      exact Nat.one_pos
  · rintro ⟨hnodup, howner⟩ b hb
    obtain ⟨c, hc, hsame⟩ := howner b hb
    obtain rfl : c = b :=
      BlockRef.eq_of_graph_of_index ((hgraph c hc).trans (graph_of_mem_blocksOf hb).symm) hsame
    exact List.count_eq_one_of_mem hnodup.of_map hc

/-- An analysis that has recorded blocks of its graph only is accepted exactly if its record has
every block of the graph once and every region contains its entry. -/
theorem verify_eq_ok_iff_of_recorded {pairs : List (BlockRef × RegionRef)}
    (h : ws.analyses[a]? = some analysis) (hownership : analysis.ownership = .ofPairs pairs)
    (hpairs : ∀ b ∈ pairs.map (·.1), b ∈ ws.blocksOf analysis.graph)
    (hgraph : ∀ b ∈ ws.ownedBelow analysis.root, b.graph = analysis.graph) :
    ws.verify a = .ok () ↔
      (∀ b ∈ ws.blocksOf analysis.graph, (pairs.map (·.1)).count b = 1) ∧
      ∀ r ∈ ws.walk analysis.root, ∀ region ∈ ws.regions[r]?,
        ws.contains r region.entry = true := by
  rw [verify_eq_ok_iff h, count_eq_one_iff_recorded hpairs, hownership,
    Ownership.repeated_ofPairs_eq_nil_iff]
  simp only [regionFor_eq_lookup h, hownership, Option.mem_def]
  constructor
  · rintro ⟨hrepeated, _, howner, hentries⟩
    exact ⟨⟨hrepeated, howner⟩, hentries⟩
  · rintro ⟨⟨hrepeated, howner⟩, hentries⟩
    exact ⟨hrepeated, hgraph, howner, hentries⟩

/-! ### Current analyses -/

/-- The analysis says what an analysis of the same tree would record now, and no region of the tree
has been numbered otherwise or looks its blocks up elsewhere. -/
structure IsCurrent (ws : Workspace) (a : AnalysisRef) (analysis : Analysis) : Prop where
  recorded : ws.analyses[a]? = some analysis
  ownership_eq : analysis.ownership = .ofPairs (ws.ownedPairs analysis.root)
  number_eq : ∀ (i : Nat) (r : RegionRef), (ws.walk analysis.root)[i]? = some r → ws.number r = i
  owners?_eq : ∀ r ∈ ws.walk analysis.root, ws.owners? r = some (ws.regionFor a)

theorem ownedPairs_congr {root : RegionRef} (hwalk : ws'.walk root = ws.walk root)
    (howned : ∀ r ∈ ws.walk root, ws'.owned r = ws.owned r) :
    ws'.ownedPairs root = ws.ownedPairs root := by
  rw [ownedPairs, ownedPairs, hwalk]
  apply List.flatMap_congr
  intro r hr
  rw [howned r hr]

theorem isCurrent_index (h : ws.IsForest) {root : RegionRef} (hroot : root < ws.regions.size)
    (g : GraphRef) : (ws.index g root).IsCurrent ws.analyses.size
      ⟨g, root, .ofPairs (ws.ownedPairs root)⟩ where
  recorded := getElem?_analyses_index
  ownership_eq := by
    rw [ownedPairs_congr (walk_index root) fun r _ => owned_index ws g root r]
  number_eq i r hr := by
    rw [walk_index] at hr
    exact (h.walksFrom hroot).number_index (h.nodup_walk hroot) hr
  owners?_eq r hr := by
    rw [walk_index] at hr
    rw [owners?, latest?, analysis?_index ws g root hr (h.lt_of_mem_walk hroot hr)]
    rfl

namespace IsCurrent

variable (h : ws.IsCurrent a analysis)

include h

theorem regionFor_eq :
    ws.regionFor a = (ws.index analysis.graph analysis.root).regionFor ws.analyses.size := by
  funext b
  rw [regionFor_eq_lookup h.recorded, regionFor_eq_lookup getElem?_analyses_index, h.ownership_eq]

variable (hforest : ws.IsForest) (hroot : analysis.root < ws.regions.size)

include hforest hroot

theorem contains_index (hr : r ∈ ws.walk analysis.root) (b : BlockRef) :
    (ws.index analysis.graph analysis.root).contains r b = ws.contains r b := by
  have hindexed := isCurrent_index hforest hroot analysis.graph
  apply contains_index_of_owners?
  rw [hindexed.owners?_eq r (by rwa [walk_index]), h.owners?_eq r hr, h.regionFor_eq]

/-- Without repetitions a region contains a block exactly if its number is found among the blocks
owned by the region and its descendants. -/
theorem contains_iff (hnodup : ((ws.ownedBelow analysis.root).map (·.index)).Nodup)
    (hr : r ∈ ws.walk analysis.root) {b : BlockRef} :
    ws.contains r b = true ↔ ∃ owned ∈ ws.ownedBelow r, owned.index = b.index := by
  have hlt := hforest.lt_of_mem_walk hroot hr
  have hsub := hforest.walk_subset hroot hr
  have howner : ∀ owner, ws.regionFor a b = some owner ↔
      owner ∈ ws.walk analysis.root ∧ ∃ owned ∈ ws.owned owner, owned.index = b.index := by
    intro owner
    rw [h.regionFor_eq]
    exact regionFor_index_eq_some_iff hnodup
  rw [contains_of_owners? (h.owners?_eq r hr)]
  constructor
  · intro hcontains
    cases hfor : ws.regionFor a b with
    | none => simp [hfor] at hcontains
    | some owner =>
        obtain ⟨hmem, owned, howned, hindex⟩ := (howner owner).mp hfor
        rw [hfor, Option.elim_some,
          hforest.containsRegion_iff hlt (hforest.lt_of_mem_walk hroot hmem)] at hcontains
        exact ⟨owned, mem_ownedBelow.mpr ⟨owner, hcontains, howned⟩, hindex⟩
  · rintro ⟨owned, hbelow, hindex⟩
    obtain ⟨owner, hmem, howned⟩ := mem_ownedBelow.mp hbelow
    rw [(howner owner).mpr ⟨hsub hmem, owned, howned, hindex⟩, Option.elim_some,
      hforest.containsRegion_iff hlt (hforest.lt_of_mem_walk hroot (hsub hmem))]
    exact hmem

/-- A current analysis is judged like one that is made anew. -/
theorem verify_eq :
    ws.verify a = (ws.analyse analysis.graph analysis.root).2 := by
  have hindexed := @getElem?_analyses_index ws analysis.graph analysis.root
  have hopen : (ws.walk analysis.root).find? (fun r =>
        !(ws.index analysis.graph analysis.root).regions[r]?.all fun region =>
          (ws.index analysis.graph analysis.root).contains r region.entry) =
      (ws.walk analysis.root).find? fun r =>
        !ws.regions[r]?.all fun region => ws.contains r region.entry := by
    apply List.find?_congr
    intro r hr
    simp only [getElem?_index, h.contains_index hforest hroot hr]
    cases ws.regions[r]? <;> rfl
  rw [snd_analyse, verify, verify, h.recorded, hindexed]
  simp only [walk_index, funext (owned_index ws analysis.graph analysis.root), hopen,
    ← h.regionFor_eq, blocksOf_index, regionName_index, h.ownership_eq]
  rfl

/-- A current analysis of a tree that lies in its graph is accepted exactly if the tree owns every
block once and contains its entries. -/
theorem verify_eq_ok_iff (hreal : ∀ b ∈ ws.ownedBelow analysis.root, b ∈ ws.blocksOf analysis.graph)
    (hentered : ws.EnteredIn analysis.graph analysis.root) :
    ws.verify a = .ok () ↔
      ws.OwnsOnce analysis.graph analysis.root ∧ ws.HoldsEntries analysis.root := by
  have hgraph : ∀ b ∈ ws.ownedBelow analysis.root, b.graph = analysis.graph :=
    fun b hb => graph_of_mem_blocksOf (hreal b hb)
  rw [verify_eq_ok_iff_of_recorded h.recorded h.ownership_eq (by rwa [map_ownedPairs]) hgraph,
    map_ownedPairs, OwnsOnce, and_iff_left hgraph]
  apply and_congr_right
  intro hcount
  have hnodup : (ws.ownedBelow analysis.root).Nodup :=
    List.nodup_iff_count_eq_one.mpr fun b hb => hcount b (hreal b hb)
  apply forall₂_congr
  intro r hr
  apply forall₂_congr
  intro region hregion
  rw [h.contains_iff hforest hroot (nodup_map_index hgraph hnodup) hr]
  constructor
  · rintro ⟨b, hb, hindex⟩
    have hbelow := hforest.ownedBelow_subset hroot hr hb
    rwa [← BlockRef.eq_of_graph_of_index
      ((hgraph b hbelow).trans (hentered r hr region hregion).symm) hindex]
  · exact fun hentry => ⟨region.entry, hentry, rfl⟩

end IsCurrent

end FlowRegions.Workspace

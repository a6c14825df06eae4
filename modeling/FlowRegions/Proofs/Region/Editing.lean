import FlowRegions.Proofs.Region.Current

/-!
# Changes after an analysis

Blocks, edges and regions are added, attached and owned, and trees are analysed, in any order. None
of this takes anything back, but an analysis does not follow it: whether each block is owned once is
judged by what was owned when the analysis was made. The judgement is about the tree as it is now
only as long as no region of the tree gets children or blocks and no other tree that overlaps it is
analysed.
-/

namespace FlowRegions.Workspace

variable {ws ws' ws'' : Workspace} {root : RegionRef}

/-- One change of a workspace. -/
inductive Edit where
  | addGraph (name : String)
  | addBlock (g : GraphRef) (name? : Option String) (instructions : List String)
  | addEdge (g : GraphRef) (source target : BlockRef)
  | addRegion (entry : BlockRef) (exit? : Option BlockRef) (owned : List BlockRef)
      (simple? : Option Bool)
  | attach (parent child : RegionRef)
  | own (r : RegionRef) (b : BlockRef)
  | analyse (g : GraphRef) (top : RegionRef)

/-- The workspace after a change, whether the change is refused or not. -/
def edit (ws : Workspace) : Edit → Workspace
  | .addGraph name => ws.addGraph name
  | .addBlock g name? instructions => (ws.createBlock g name? instructions).2
  | .addEdge g source target => ws.addEdge g source target
  | .addRegion entry exit? owned simple? => ws.addRegion { entry, exit?, owned, simple? }
  | .attach parent child => ws.attach parent child
  | .own r b => ws.own r b
  | .analyse g top => (ws.analyse g top).1

/-- Blocks that are owned exist, and a region that is attached has no parent yet and does not
contain its new parent. -/
def Allows (ws : Workspace) : Edit → Prop
  | .addRegion _ _ owned _ => ∀ b ∈ owned, b ∈ ws.blocksOf b.graph
  | .attach parent child => parent < ws.regions.size ∧ child < ws.regions.size ∧
      ws.parent? child = none ∧ ws.containsRegion child parent = false
  | .own _ b => b ∈ ws.blocksOf b.graph
  | _ => True

/-- No region of the tree below `root` gets a child or a block, and what is analysed is that tree or
one apart from it. -/
def Spares (ws : Workspace) (root : RegionRef) : Edit → Prop
  | .attach parent _ => parent ∉ ws.walk root
  | .own r _ => r ∉ ws.walk root
  | .analyse _ top => top = root ∨ (ws.walk top).Disjoint (ws.walk root)
  | _ => True

/-- Changes lead from one workspace to another, each of them one that `ok` admits at its time. -/
abbrev After (ok : Workspace → Edit → Prop) : Workspace → Workspace → Prop :=
  Relation.ReflTransGen fun ws ws' => ∃ e, ok ws e ∧ ws.edit e = ws'

theorem edit_addBlock (ws : Workspace) (g : GraphRef) (name? : Option String)
    (instructions : List String) :
    ws.edit (.addBlock g name? instructions) = ws ∨
      ws.addBlock g name? instructions = .ok (ws.edit (.addBlock g name? instructions)) := by
  rw [edit]
  cases hadd : ws.addBlock g name? instructions with
  | error => exact Or.inl (snd_createBlock_of_addBlock_eq_error hadd)
  | ok ws' => exact Or.inr (congrArg Except.ok (snd_createBlock_of_addBlock_eq_ok hadd).symm)

theorem Built.edit (h : ws.Built) {e : Edit} (hallows : ws.Allows e) : (ws.edit e).Built := by
  cases e with
  | addGraph name => exact h.addGraph name
  | addBlock g name? instructions =>
      rcases edit_addBlock ws g name? instructions with heq | hadd
      · rwa [heq]
      · exact h.addBlock hadd
  | addEdge g source target => exact h.addEdge g source target
  | addRegion entry exit? owned simple? => exact h.addRegion entry exit? simple? hallows
  | attach parent child =>
      obtain ⟨hparent, hchild, hfree, hapart⟩ := hallows
      exact h.attach hparent hchild hfree hapart
  | own r b => exact h.own r hallows
  | analyse g top => exact h.index g top

theorem Built.after (h : ws.Built) (hafter : After Allows ws ws') : ws'.Built := by
  induction hafter with
  | refl => exact h
  | tail _ hstep ih =>
      obtain ⟨e, hallows, rfl⟩ := hstep
      exact ih.edit hallows

/-- What can be built are the workspaces that allowed changes lead to from the empty one. -/
theorem built_iff_after : ws.Built ↔ After Allows {} ws := by
  refine ⟨fun h => ?_, Built.empty.after⟩
  induction h with
  | empty => exact .refl
  | addGraph _ name ih => exact ih.tail ⟨.addGraph name, trivial, rfl⟩
  | @addBlock ws ws' g name? instructions _ hadd ih =>
      exact ih.tail
        ⟨.addBlock g name? instructions, trivial, snd_createBlock_of_addBlock_eq_ok hadd⟩
  | addEdge _ g source target ih => exact ih.tail ⟨.addEdge g source target, trivial, rfl⟩
  | addRegion _ entry exit? simple? howned ih =>
      exact ih.tail ⟨.addRegion entry exit? _ simple?, howned, rfl⟩
  | attach _ hparent hchild hfree hapart ih =>
      exact ih.tail ⟨.attach _ _, ⟨hparent, hchild, hfree, hapart⟩, rfl⟩
  | own _ r hb ih => exact ih.tail ⟨.own r _, hb, rfl⟩
  | index _ g root ih => exact ih.tail ⟨.analyse g root, trivial, rfl⟩

/-! ### Nothing is taken back -/

/-- Blocks, parents, owned blocks and analyses that were there are still there. -/
structure Grows (ws ws' : Workspace) : Prop where
  size_le : ws.regions.size ≤ ws'.regions.size
  blockCount_le : ∀ g, ws.blockCount g ≤ ws'.blockCount g
  parent?_eq : ∀ r parent, ws.parent? r = some parent → ws'.parent? r = some parent
  owned_subset : ∀ r, ws.owned r ⊆ ws'.owned r
  recorded : ∀ (a : AnalysisRef) (analysis : Analysis), ws.analyses[a]? = some analysis →
    ws'.analyses[a]? = some analysis

namespace Grows

theorem refl (ws : Workspace) : ws.Grows ws where
  size_le := le_refl _
  blockCount_le _ := le_refl _
  parent?_eq _ _ h := h
  owned_subset _ := List.Subset.refl _
  recorded _ _ h := h

theorem trans (h : ws.Grows ws') (h' : ws'.Grows ws'') : ws.Grows ws'' where
  size_le := h.size_le.trans h'.size_le
  blockCount_le g := (h.blockCount_le g).trans (h'.blockCount_le g)
  parent?_eq r parent hlink := h'.parent?_eq r parent (h.parent?_eq r parent hlink)
  owned_subset r := List.Subset.trans (h.owned_subset r) (h'.owned_subset r)
  recorded a analysis hrecorded := h'.recorded a analysis (h.recorded a analysis hrecorded)

theorem of_regions_eq (hregions : ws'.regions = ws.regions) (hanalyses : ws'.analyses = ws.analyses)
    (hcount : ∀ g, ws.blockCount g ≤ ws'.blockCount g) : ws.Grows ws' where
  size_le := by rw [hregions]
  blockCount_le := hcount
  parent?_eq r parent hlink := by rwa [parent?, hregions]
  owned_subset r := by rw [owned, owned, hregions]; exact List.Subset.refl _
  recorded a analysis hrecorded := by rwa [hanalyses]

theorem climbs (h : ws.Grows ws') {inner outer : RegionRef} (hclimb : ws.Climbs inner outer) :
    ws'.Climbs inner outer :=
  Relation.ReflTransGen.mono (fun r parent hlink => h.parent?_eq r parent hlink) _ _ hclimb

theorem ownedBelow_subset (h : ws.Grows ws') (hforest : ws.IsForest) (hforest' : ws'.IsForest)
    (hroot : root < ws.regions.size) : ws.ownedBelow root ⊆ ws'.ownedBelow root := by
  intro b hb
  obtain ⟨r, hr, howned⟩ := mem_ownedBelow.mp hb
  rw [hforest.mem_walk_iff hroot] at hr
  rw [mem_ownedBelow]
  refine ⟨r, ?_, h.owned_subset r howned⟩
  rw [hforest'.mem_walk_iff (hroot.trans_le h.size_le)]
  exact h.climbs hr

end Grows

theorem grows_addBlock {g : GraphRef} {name? : Option String} {instructions : List String}
    (h : ws.addBlock g name? instructions = .ok ws') : ws.Grows ws' :=
  .of_regions_eq (regions_addBlock h) (analyses_addBlock h) (blockCount_le_addBlock h)

theorem grows_addRegion (entry : BlockRef) (exit? : Option BlockRef) (owned : List BlockRef)
    (simple? : Option Bool) : ws.Grows (ws.addRegion { entry, exit?, owned, simple? }) where
  size_le := by
    rw [addRegion, Array.size_push]
    exact Nat.le_succ _
  blockCount_le _ := le_refl _
  parent?_eq r parent hlink := by rwa [parent?_addRegion rfl]
  owned_subset r b hb := by
    rw [owned_addRegion]
    split
    · next hr =>
        rw [Workspace.owned, hr, Array.getElem?_eq_none (le_refl _)] at hb
        exact absurd hb List.not_mem_nil
    · exact hb
  recorded _ _ h := h

theorem grows_attach {parent child : RegionRef} (hchild : child < ws.regions.size)
    (hfree : ws.parent? child = none) : ws.Grows (ws.attach parent child) where
  size_le := (size_regions_attach parent child).ge
  blockCount_le _ := le_refl _
  parent?_eq r outer hlink := by
    rw [parent?_attach hchild]
    split
    · next hr =>
        rw [hr, hfree] at hlink
        cases hlink
    · exact hlink
  owned_subset r := by
    rw [owned_attach]
    exact List.Subset.refl _
  recorded _ _ h := h

theorem grows_own (r : RegionRef) (b : BlockRef) : ws.Grows (ws.own r b) where
  size_le := by rw [own, modifyRegion, Array.size_modify]
  blockCount_le _ := le_refl _
  parent?_eq inner parent hlink := by rwa [parent?_own]
  owned_subset inner c hc := by
    rw [owned, own, modifyRegion, Array.getElem?_modify]
    rw [owned] at hc
    split
    · cases hregion : ws.regions[inner]? with
      | none => simp [hregion] at hc
      | some region => simp_all
    · exact hc
  recorded _ _ h := h

theorem grows_index (g : GraphRef) (top : RegionRef) : ws.Grows (ws.index g top) where
  size_le := (size_regions_index ws g top).ge
  blockCount_le _ := le_refl _
  parent?_eq r parent hlink := by rwa [parent?_index]
  owned_subset r := by
    rw [owned_index]
    exact List.Subset.refl _
  recorded a analysis hrecorded := by
    rw [Workspace.index, Array.getElem?_push_lt (Array.getElem?_eq_some_iff.mp hrecorded).1]
    rwa [← Array.getElem?_eq_getElem]

theorem grows_edit {e : Edit} (hallows : ws.Allows e) : ws.Grows (ws.edit e) := by
  cases e with
  | addGraph name => exact .of_regions_eq rfl rfl fun g => (blockCount_addGraph name g).ge
  | addBlock g name? instructions =>
      rcases edit_addBlock ws g name? instructions with heq | hadd
      · rw [heq]
        exact .refl ws
      · exact grows_addBlock hadd
  | addEdge g source target =>
      exact .of_regions_eq rfl rfl fun k => (blockCount_addEdge g source target k).ge
  | addRegion entry exit? owned simple? => exact grows_addRegion entry exit? owned simple?
  | attach parent child =>
      obtain ⟨_, hchild, hfree, _⟩ := hallows
      exact grows_attach hchild hfree
  | own r b => exact grows_own r b
  | analyse g top => exact grows_index g top

theorem grows_after (h : After Allows ws ws') : ws.Grows ws' := by
  induction h with
  | refl => exact .refl ws
  | tail _ hstep ih =>
      obtain ⟨e, hallows, rfl⟩ := hstep
      exact ih.trans (grows_edit hallows)

/-! ### Where analyses come from -/

theorem getElem?_analyses_index_eq_some {g : GraphRef} {top : RegionRef} {a : AnalysisRef}
    {analysis : Analysis} (h : (ws.index g top).analyses[a]? = some analysis) :
    ws.analyses[a]? = some analysis ∨
      a = ws.analyses.size ∧ analysis = ⟨g, top, .ofPairs (ws.ownedPairs top)⟩ := by
  rw [Workspace.index, Array.getElem?_push] at h
  split at h
  · next ha => exact Or.inr ⟨ha, (Option.some.inj h).symm⟩
  · exact Or.inl h

/-- The analysis was made in the workspace `made`, which has become `ws` since. -/
structure MadeIn (made ws : Workspace) (a : AnalysisRef) (analysis : Analysis) : Prop where
  built : made.Built
  ref_eq : a = made.analyses.size
  ownership_eq : analysis.ownership = .ofPairs (made.ownedPairs analysis.root)
  after : After Allows (made.analyse analysis.graph analysis.root).1 ws

/-- Every analysis was made in a workspace that could be built. -/
theorem Built.exists_madeIn (h : ws.Built) {a : AnalysisRef} {analysis : Analysis}
    (ha : ws.analyses[a]? = some analysis) : ∃ made, MadeIn made ws a analysis := by
  rw [built_iff_after] at h
  induction h with
  | refl => simp at ha
  | @tail before _ hbefore hstep ih =>
      obtain ⟨e, hallows, rfl⟩ := hstep
      have hold : before.analyses[a]? = some analysis →
          ∃ made, MadeIn made (before.edit e) a analysis := by
        intro hkept
        obtain ⟨made, hmade⟩ := ih hkept
        exact ⟨made, { hmade with after := hmade.after.tail ⟨e, hallows, rfl⟩ }⟩
      cases e with
      | addGraph name => exact hold ha
      | addBlock g name? instructions =>
          rcases edit_addBlock before g name? instructions with heq | hadd
          · exact hold (heq ▸ ha)
          · exact hold (analyses_addBlock hadd ▸ ha)
      | addEdge g source target => exact hold ha
      | addRegion entry exit? owned simple? => exact hold ha
      | attach parent child => exact hold ha
      | own r b => exact hold ha
      | analyse g top =>
          rcases getElem?_analyses_index_eq_some ha with hkept | ⟨rfl, rfl⟩
          · exact hold hkept
          · exact ⟨before, built_iff_after.mpr hbefore, rfl, rfl, .refl⟩

/-- The owner that an analysis has recorded still belongs to its tree. -/
theorem Built.mem_walk_of_regionFor (h : ws.Built) {a : AnalysisRef} {analysis : Analysis}
    (ha : ws.analyses[a]? = some analysis) (hroot : analysis.root < ws.regions.size)
    {b : BlockRef} {owner : RegionRef} (howner : ws.regionFor a b = some owner) :
    owner ∈ ws.walk analysis.root := by
  obtain ⟨made, hmade⟩ := h.exists_madeIn ha
  rw [regionFor_eq_lookup ha, hmade.ownership_eq, Ownership.lookup_owners_ofPairs,
    Option.map_eq_some_iff] at howner
  obtain ⟨⟨c, _⟩, hfind, rfl⟩ := howner
  obtain ⟨hwalk, _⟩ := mem_ownedPairs.mp (List.mem_of_find?_eq_some hfind)
  have hclimb := hmade.built.isForest.climbs_of_mem_walkWithin hwalk
  rw [h.isForest.mem_walk_iff hroot]
  exact (grows_after hmade.after).climbs ((grows_index _ _).climbs hclimb)

/-! ### Changes that spare a tree -/

section

variable {a : AnalysisRef} {analysis : Analysis}

/-- What a region shows of itself when an analysis walks over it is as it was. -/
structure Untouched (ws ws' : Workspace) (r : RegionRef) : Prop where
  children_eq : ws'.children r = ws.children r
  owned_eq : ws'.owned r = ws.owned r
  number_eq : ws'.number r = ws.number r
  latest?_eq : ws'.latest? r = ws.latest? r

theorem untouched_of_getElem? (h : ws'.regions[r]? = ws.regions[r]?) : Untouched ws ws' r := by
  constructor
  · rw [children, children, h]
  · rw [owned, owned, h]
  · rw [number, number, h]
  · rw [latest?, latest?, h]

/-- An analysis stays current while the regions of its tree are left alone. -/
theorem IsCurrent.of_grows (h : ws.IsCurrent a analysis) (hbuilt : ws.Built)
    (hroot : analysis.root < ws.regions.size) (hgrows : ws.Grows ws')
    (hkept : ∀ r ∈ ws.walk analysis.root, Untouched ws ws' r) : ws'.IsCurrent a analysis := by
  have hwalk := (hbuilt.isForest.walksFrom hroot).walk_congr hgrows.size_le
    fun r hr => (hkept r hr).children_eq
  have hrecorded := hgrows.recorded a analysis h.recorded
  refine ⟨hrecorded, ?_, fun i r hr => ?_, fun r hr => ?_⟩
  · rw [h.ownership_eq, ownedPairs_congr hwalk fun r hr => (hkept r hr).owned_eq]
  · rw [hwalk] at hr
    rw [(hkept r (List.mem_of_getElem? hr)).number_eq]
    exact h.number_eq i r hr
  · rw [hwalk] at hr
    rw [owners?_congr (hkept r hr).latest?_eq (fun _ => hbuilt.lt_of_latest?) hgrows.recorded,
      h.owners?_eq r hr]
    apply congrArg some
    funext b
    rw [regionFor_eq_lookup h.recorded, regionFor_eq_lookup hrecorded]

theorem untouched_attach {parent : RegionRef} (hparent : parent < ws.regions.size)
    {child r : RegionRef} (hr : r ≠ parent) : Untouched ws (ws.attach parent child) r where
  children_eq := by rw [children_attach hparent, if_neg hr]
  owned_eq := owned_attach parent child r
  number_eq := by
    rw [number, number, map_getElem?_attach (·.number) fun _ _ _ => rfl]
  latest?_eq := latest?_attach parent child r

theorem untouched_own {r inner : RegionRef} (hinner : inner ≠ r) (b : BlockRef) :
    Untouched ws (ws.own r b) inner := by
  apply untouched_of_getElem?
  rw [own, modifyRegion, Array.getElem?_modify, if_neg (Ne.symm hinner)]

theorem untouched_index {g : GraphRef} {top r : RegionRef} (hr : r ∉ ws.walk top) :
    Untouched ws (ws.index g top) r := by
  apply untouched_of_getElem?
  rw [regions_index, getElem?_numbered_of_not_mem]
  rwa [List.zipIdx_map_fst]

/-- An analysis stays current if the tree is analysed once more. -/
theorem IsCurrent.index (h : ws.IsCurrent a analysis) (hforest : ws.IsForest)
    (hroot : analysis.root < ws.regions.size) (g : GraphRef) :
    (ws.index g analysis.root).IsCurrent a analysis := by
  have hindexed := isCurrent_index hforest hroot g
  refine ⟨(grows_index g analysis.root).recorded a analysis h.recorded, ?_, hindexed.number_eq,
    fun r hr => ?_⟩
  · rw [h.ownership_eq]
    exact hindexed.ownership_eq
  · rw [hindexed.owners?_eq r hr]
    apply congrArg some
    funext b
    rw [regionFor_eq_lookup hindexed.recorded, regionFor_eq_lookup
      ((grows_index g analysis.root).recorded a analysis h.recorded), h.ownership_eq]

theorem IsCurrent.edit (h : ws.IsCurrent a analysis) (hbuilt : ws.Built)
    (hroot : analysis.root < ws.regions.size) {e : Edit} (hallows : ws.Allows e)
    (hspares : ws.Spares analysis.root e) : (ws.edit e).IsCurrent a analysis := by
  have hgrows := grows_edit hallows
  have hsame : (ws.edit e).regions = ws.regions → (ws.edit e).IsCurrent a analysis := fun heq =>
    h.of_grows hbuilt hroot hgrows fun r _ => untouched_of_getElem? (by rw [heq])
  cases e with
  | addGraph name => exact hsame rfl
  | addBlock g name? instructions =>
      rcases edit_addBlock ws g name? instructions with heq | hadd
      · rwa [heq]
      · exact hsame (regions_addBlock hadd)
  | addEdge g source target => exact hsame rfl
  | addRegion entry exit? owned simple? =>
      refine h.of_grows hbuilt hroot hgrows fun r hr => untouched_of_getElem? ?_
      have hlt := hbuilt.isForest.lt_of_mem_walk hroot hr
      rw [Workspace.edit, getElem?_regions_addRegion, if_neg (Nat.ne_of_lt hlt)]
  | attach parent child =>
      refine h.of_grows hbuilt hroot hgrows fun r hr => untouched_attach hallows.1 ?_
      rintro rfl
      exact hspares hr
  | own r b =>
      refine h.of_grows hbuilt hroot hgrows fun inner hinner => untouched_own ?_ b
      rintro rfl
      exact hspares hinner
  | analyse g top =>
      rcases hspares with rfl | hdisjoint
      · exact h.index hbuilt.isForest hroot g
      · exact h.of_grows hbuilt hroot hgrows fun r hr =>
          untouched_index fun htop => hdisjoint htop hr

end

theorem after_allows {ok : Workspace → Edit → Prop}
    (h : After (fun ws e => ws.Allows e ∧ ok ws e) ws ws') : After Allows ws ws' :=
  Relation.ReflTransGen.mono (fun _ _ ⟨e, hok, heq⟩ => ⟨e, hok.1, heq⟩) _ _ h

/-- An analysis stays current while all changes spare its tree. -/
theorem IsCurrent.after {a : AnalysisRef} {analysis : Analysis} (h : ws.IsCurrent a analysis)
    (hbuilt : ws.Built) (hroot : analysis.root < ws.regions.size)
    (hafter : After (fun ws e => ws.Allows e ∧ ws.Spares analysis.root e) ws ws') :
    ws'.IsCurrent a analysis := by
  induction hafter with
  | refl => exact h
  | tail hbefore hstep ih =>
      obtain ⟨e, ⟨hallows, hspares⟩, rfl⟩ := hstep
      have hlt := hroot.trans_le (grows_after (after_allows hbefore)).size_le
      exact ih.edit (hbuilt.after (after_allows hbefore)) hlt hallows hspares

/-! ### What a judgement is about -/

/-- However a workspace changes after an analysis of a tree in the graph `g`, the analysis is judged
by the blocks that the tree owned when it was made, by the blocks that the graph has now and by the
entries that its regions contain now. If all changes spare the tree, then an analysis made now would
be judged alike, and it is the tree as it is now that is judged. -/
theorem Built.verify_after_iff {g : GraphRef} (h : ws.Built) (hroot : root < ws.regions.size)
    (hafter : After Allows (ws.analyse g root).1 ws') (hentered : ws'.EnteredIn g root)
    (howned : ∀ b ∈ ws'.ownedBelow root, b.graph = g) :
    (ws'.verify ws.analyses.size = .ok () ↔
      (∀ b ∈ ws'.blocksOf g, (ws.ownedBelow root).count b = 1) ∧
      ∀ r ∈ ws'.walk root, ∀ region ∈ ws'.regions[r]?, ws'.contains r region.entry = true) ∧
    (After (fun ws e => ws.Allows e ∧ ws.Spares root e) (ws.analyse g root).1 ws' →
      ws'.verify ws.analyses.size = (ws'.analyse g root).2 ∧
      (ws'.verify ws.analyses.size = .ok () ↔ ws'.OwnsOnce g root ∧ ws'.HoldsEntries root)) := by
  have hindexed : (ws.index g root).Built := h.index g root
  have hbuilt : ws'.Built := hindexed.after hafter
  have hgrows : (ws.index g root).Grows ws' := grows_after hafter
  have hindexedRoot : root < (ws.index g root).regions.size := by rwa [size_regions_index]
  have hreal : ∀ b ∈ ws'.ownedBelow root, b ∈ ws'.blocksOf g :=
    fun b hb => howned b hb ▸ hbuilt.mem_blocksOf_of_mem_ownedBelow hb
  constructor
  · have hold : ∀ b ∈ (ws.ownedPairs root).map (·.1), b ∈ ws'.blocksOf g := by
      intro b hb
      rw [map_ownedPairs, ← @ownedBelow_index ws g root] at hb
      exact hreal b (hgrows.ownedBelow_subset hindexed.isForest hbuilt.isForest hindexedRoot hb)
    have hrecorded := hgrows.recorded _ _ (@getElem?_analyses_index ws g root)
    rw [verify_eq_ok_iff_of_recorded hrecorded rfl hold howned, map_ownedPairs]
  · intro hspared
    have hcurrent := (isCurrent_index h.isForest hroot g).after hindexed hindexedRoot hspared
    have hrootNow := hindexedRoot.trans_le hgrows.size_le
    exact ⟨hcurrent.verify_eq hbuilt.isForest hrootNow,
      hcurrent.verify_eq_ok_iff hbuilt.isForest hrootNow hreal hentered⟩

/-- A region around the only block of a graph. -/
def oneRegion : Workspace where
  graphs := #[{ name := "f", blocks := #[{}] }]
  regions := #[{ entry := ⟨0, 0⟩, owned := [⟨0, 0⟩] }]

theorem built_oneRegion : oneRegion.Built := by
  have hf : Built { graphs := #[{ name := "f" }] } := Built.empty.addGraph "f"
  have hblock : Built { graphs := #[{ name := "f", blocks := #[{}] }] } :=
    hf.addBlock (show addBlock _ 0 none [] = _ by rfl)
  exact hblock.addRegion ⟨0, 0⟩ none none (by decide)

/-- Another region that owns the block is added and analysed, and the first analysis is still that
of a sound tree. -/
theorem verify_after_apart : ∃ ws',
    After (fun ws e => ws.Allows e ∧ ws.Spares 0 e) (oneRegion.analyse 0 0).1 ws' ∧
    ws'.number 1 = 0 ∧ ws'.verify 0 = (ws'.analyse 0 0).2 ∧ ws'.verify 0 = .ok () ∧
    ws'.OwnsOnce 0 0 ∧ ws'.HoldsEntries 0 := by
  have hadd : After (fun ws e => ws.Allows e ∧ ws.Spares 0 e) (oneRegion.analyse 0 0).1
      ((oneRegion.analyse 0 0).1.edit (.addRegion ⟨0, 0⟩ none [⟨0, 0⟩] none)) :=
    .single ⟨.addRegion ⟨0, 0⟩ none [⟨0, 0⟩] none, ⟨by unfold Allows; decide, trivial⟩, rfl⟩
  have hspared := hadd.tail ⟨.analyse 0 1,
    ⟨trivial, Or.inr (show List.Disjoint [1] [0] by simp)⟩, rfl⟩
  obtain ⟨hjudged, hnow⟩ := built_oneRegion.verify_after_iff (show 0 < 1 by decide)
    (after_allows hspared) (by unfold EnteredIn; decide) (by decide)
  obtain ⟨hanew, hsound⟩ := hnow hspared
  have hok := hjudged.mpr ⟨by decide, by decide⟩
  exact ⟨_, hspared, rfl, hanew, hok, hsound.mp hok⟩

/-- The region comes to own the block that was added to its graph, and its analysis is refused
although the tree is sound. It comes to own its first block once more, and its analysis is accepted
although the tree is not. -/
theorem verify_outgrown : oneRegion.Built ∧ (oneRegion.analyse 0 0).2 = .ok () ∧
    (∃ ws', After Allows (oneRegion.analyse 0 0).1 ws' ∧ ws'.OwnsOnce 0 0 ∧ ws'.HoldsEntries 0 ∧
      ws'.verify 0 = .error ⟨"f", .notOwned ["%1"]⟩) ∧
    ∃ ws', After Allows (oneRegion.analyse 0 0).1 ws' ∧ ¬ ws'.OwnsOnce 0 0 ∧
      ws'.verify 0 = .ok () := by
  have hadd : After Allows (oneRegion.analyse 0 0).1
      ((oneRegion.analyse 0 0).1.edit (.addBlock 0 none [])) :=
    .single ⟨.addBlock 0 none [], trivial, rfl⟩
  refine ⟨built_oneRegion, rfl,
    ⟨_, hadd.tail ⟨.own 0 ⟨0, 1⟩, (by unfold Allows; decide), rfl⟩, ?_, ?_, rfl⟩,
    ⟨_, .single ⟨.own 0 ⟨0, 0⟩, (by unfold Allows; decide), rfl⟩, ?_, rfl⟩⟩
  · unfold OwnsOnce
    decide
  · unfold HoldsEntries
    decide
  · unfold OwnsOnce
    decide

end FlowRegions.Workspace

import FlowRegions.Proofs.Region.Building

/-!
# Graphs after any history of calls

A graph is built by calls that create blocks and calls that join blocks that earlier calls returned.
A call for a block is refused if its name was given before, and leaves everything as it was.
Whatever was called, the graph holds the blocks of the calls that were not refused and all edges,
both in order. Every block knows its graph and its number and lists the edges at it, and the table
of names leads to the blocks that have them.
-/

namespace FlowRegions

/-- A call on one graph of a workspace. -/
inductive GraphCall where
  | block (name? : Option String) (instructions : List String)
  | edge (source target : BlockRef)
deriving DecidableEq, Repr

namespace GraphCall

/-! ### Calls -/

def blockData? : GraphCall → Option (Option String × List String)
  | block name? instructions => some (name?, instructions)
  | edge .. => none

def edge? : GraphCall → Option Edge
  | block .. => none
  | edge source target => some ⟨source, target⟩

def givenName? : GraphCall → Option String
  | block name? _ => name?
  | edge .. => none

/-- Is the call for a block refused when these calls came before it? -/
def isRefused (before : List GraphCall) (call : GraphCall) : Bool :=
  call.givenName?.any fun name => before.any (·.givenName? = some name)

@[simp] theorem givenName?_block (name? : Option String) (instructions : List String) :
    (block name? instructions).givenName? = name? := rfl

@[simp] theorem givenName?_edge (source target : BlockRef) :
    (edge source target).givenName? = none := rfl

theorem isRefused_iff {before : List GraphCall} {call : GraphCall} :
    call.isRefused before = true ↔ ∃ name, call.givenName? = some name ∧
      ∃ other ∈ before, other.givenName? = some name := by
  simp [isRefused, Option.any_eq_true]

/-- The calls that are not refused, if others came before them. -/
def keptAfter (before : List GraphCall) : List GraphCall → List GraphCall
  | [] => []
  | call :: rest =>
    if call.isRefused before then keptAfter (before ++ [call]) rest
    else call :: keptAfter (before ++ [call]) rest

/-- The calls that are not refused. -/
def kept (calls : List GraphCall) : List GraphCall :=
  keptAfter [] calls

theorem keptAfter_append (before xs ys : List GraphCall) :
    keptAfter before (xs ++ ys) = keptAfter before xs ++ keptAfter (before ++ xs) ys := by
  induction xs generalizing before with
  | nil => simp [keptAfter]
  | cons call xs ih =>
      rw [List.cons_append, keptAfter, keptAfter, ih, List.append_assoc]
      split <;> rfl

theorem kept_concat (calls : List GraphCall) (call : GraphCall) :
    kept (calls ++ [call]) = kept calls ++ if call.isRefused calls then [] else [call] := by
  rw [kept, keptAfter_append, List.nil_append]
  simp only [kept, keptAfter]

/-- A workspace, and the blocks that calls on one of its graphs have returned so far. -/
structure Session where
  workspace : Workspace
  returned : List BlockRef := []

/-- Carries out a call: what it returns is kept, and it leaves a workspace also where it fails. -/
def perform (g : GraphRef) (s : Session) : GraphCall → Session
  | block name? instructions =>
    let (outcome, workspace) := s.workspace.createBlock g name? instructions
    ⟨workspace, s.returned ++ outcome.toOption.toList⟩
  | edge source target => { s with workspace := s.workspace.addEdge g source target }

def run (g : GraphRef) (s : Session) (calls : List GraphCall) : Session :=
  calls.foldl (perform g) s

/-- Every edge leads between blocks that were returned before it is added. -/
def Addressed (g : GraphRef) (s : Session) : List GraphCall → Prop
  | [] => True
  | call :: rest =>
    (∀ e ∈ call.edge?, e.source ∈ s.returned ∧ e.target ∈ s.returned) ∧
      Addressed g (perform g s call) rest

instance decidableAddressed (g : GraphRef) (s : Session) :
    (calls : List GraphCall) → Decidable (Addressed g s calls)
  | [] => inferInstanceAs (Decidable True)
  | call :: rest =>
    have := decidableAddressed g (perform g s call) rest
    inferInstanceAs (Decidable (_ ∧ _))

end GraphCall

namespace Cfg

variable {g : GraphRef} {graph graph' : Cfg} {calls : List GraphCall}

/-! ### What a history leaves -/

/-- The graph at position `g` is what a history of calls on it leaves. -/
structure Records (g : GraphRef) (calls : List GraphCall) (graph : Cfg) : Prop where
  consistent : graph.Consistent g
  blocks_eq : graph.blocks.toList.map (fun block => (block.name?, block.instructions)) =
    (GraphCall.kept calls).filterMap GraphCall.blockData?
  edges_eq : graph.edges.toList = calls.filterMap GraphCall.edge?
  hasBlock_iff : ∀ name, graph.hasBlock name = true ↔ ∃ call ∈ calls, call.givenName? = some name

namespace Records

variable {name? : Option String} {instructions : List String}

theorem empty (g : GraphRef) (name : String) : Records g [] { name } where
  consistent := consistent_empty g name
  blocks_eq := rfl
  edges_eq := rfl
  hasBlock_iff name := by simp [hasBlock, block?]

/-- A call for a block is refused exactly if its name is in the table. -/
theorem isRefused_eq (h : graph.Records g calls) :
    (GraphCall.block name? instructions).isRefused calls =
      (name?.filter graph.hasBlock).isSome := by
  rw [Bool.eq_iff_iff, GraphCall.isRefused_iff, GraphCall.givenName?_block]
  simp only [← h.hasBlock_iff]
  cases name? with
  | none => simp
  | some name =>
      rw [Option.filter_some]
      cases hname : graph.hasBlock name <;> simp [hname]

theorem pushBlock (h : graph.Records g calls) (hfree : name?.filter graph.hasBlock = none) :
    (graph.pushBlock g name? instructions).Records g
      (calls ++ [.block name? instructions]) := by
  have hkept : (GraphCall.block name? instructions).isRefused calls = false := by
    rw [h.isRefused_eq, hfree]
    rfl
  have hfresh : ∀ name ∈ name?, graph.find? name = none := by
    rintro name rfl
    rw [Option.filter_some, hasBlock_eq_isSome_find?] at hfree
    cases hfind : graph.find? name with
    | none => rfl
    | some i => simp [hfind] at hfree
  refine ⟨h.consistent.pushBlock hfresh, ?_, ?_, fun name => ?_⟩
  · rw [GraphCall.kept_concat, hkept, Cfg.pushBlock, Array.toList_push, List.map_append,
      h.blocks_eq, if_neg Bool.false_ne_true, List.filterMap_append]
    rfl
  · rw [List.filterMap_append, ← h.edges_eq]
    exact (List.append_nil _).symm
  · rw [hasBlock, block?_pushBlock, Option.isSome_or, Bool.or_eq_true, ← hasBlock, h.hasBlock_iff]
    simp [GraphCall.givenName?, or_and_right, exists_or]

theorem refuse (h : graph.Records g calls) {taken : String}
    (htaken : name?.filter graph.hasBlock = some taken) :
    graph.Records g (calls ++ [.block name? instructions]) := by
  have hrefused : (GraphCall.block name? instructions).isRefused calls = true := by
    rw [h.isRefused_eq, htaken]
    rfl
  obtain ⟨hname, hblock⟩ := Option.filter_eq_some_iff.mp htaken
  refine ⟨h.consistent, ?_, ?_, fun name => ?_⟩
  · rw [GraphCall.kept_concat, hrefused, if_pos rfl, List.append_nil, h.blocks_eq]
  · rw [List.filterMap_append, ← h.edges_eq]
    exact (List.append_nil _).symm
  · simp only [h.hasBlock_iff, List.mem_append, List.mem_singleton, or_and_right, exists_or,
      exists_eq_left, GraphCall.givenName?_block]
    refine (or_iff_left_of_imp fun hnew => ?_).symm
    obtain rfl : taken = name := Option.some.inj (hname.symm.trans hnew)
    exact (h.hasBlock_iff taken).mp hblock

theorem addEdge (h : graph.Records g calls) {source target : Nat}
    (hsource : source < graph.blocks.size) (htarget : target < graph.blocks.size) :
    (graph.addEdge g source target).Records g
      (calls ++ [.edge ⟨g, source⟩ ⟨g, target⟩]) := by
  refine ⟨h.consistent.addEdge hsource htarget, ?_, ?_, fun name => ?_⟩
  · rw [map_blocks_addEdge (fun block => (block.name?, block.instructions)) fun _ _ _ => rfl,
      h.blocks_eq, GraphCall.kept_concat, List.filterMap_append]
    exact (List.append_nil _).symm
  · rw [edges_addEdge, Array.toList_push, h.edges_eq, List.filterMap_append]
    rfl
  · rw [hasBlock, block?_addEdge, ← hasBlock, h.hasBlock_iff]
    simp [GraphCall.givenName?]

/-- A name that was given belongs to one block, and leads to it. -/
theorem exists_block?_eq (h : graph.Records g calls) {name : String}
    (hgiven : ∃ call ∈ calls, call.givenName? = some name) :
    ∃ i, graph.block? name = some ⟨g, i⟩ ∧
      ∀ j, (∃ block, graph.blocks[j]? = some block ∧ block.name? = some name) ↔ j = i := by
  obtain ⟨b, hb⟩ := Option.isSome_iff_exists.mp ((h.hasBlock_iff name).mpr hgiven)
  obtain ⟨rfl, hblock⟩ := h.consistent.block?_eq_some_iff.mp hb
  refine ⟨b.index, hb, fun j => ⟨fun hother => ?_, fun hj => hj ▸ hblock⟩⟩
  have hsame : graph.block? name = some ⟨b.graph, j⟩ :=
    h.consistent.block?_eq_some_iff.mpr ⟨rfl, hother⟩
  exact congrArg BlockRef.index (Option.some.inj (hsame.symm.trans hb))

end Records

end Cfg

namespace Workspace

variable {ws : Workspace} {g : GraphRef} {graph : Cfg}

theorem getElem?_graphs_addEdge (source target : Nat) :
    (ws.addEdge g ⟨g, source⟩ ⟨g, target⟩).graphs[g]? =
      ws.graphs[g]?.map (Cfg.addEdge g · source target) := by
  simp [addEdge, modifyBlock, Array.getElem?_modify, Cfg.addEdge, Function.comp_def]

end Workspace

namespace GraphCall

variable {s : Session} {g : GraphRef} {calls : List GraphCall}

/-- The session holds, at position `g`, the graph that a history of calls on it leaves, and the
calls returned its blocks one after the other. -/
def Recorded (g : GraphRef) (calls : List GraphCall) (s : Session) : Prop :=
  ∃ graph, s.workspace.graphs[g]? = some graph ∧ graph.Records g calls ∧
    s.returned = (List.range graph.blocks.size).map (⟨g, ·⟩)

theorem Recorded.perform_of_isRefused (h : Recorded g calls s) {call : GraphCall}
    (hrefused : call.isRefused calls = true) : call.perform g s = s := by
  obtain ⟨graph, hgraph, hrecords, _⟩ := h
  cases call with
  | block name? instructions =>
      rw [hrecords.isRefused_eq, Option.isSome_iff_exists] at hrefused
      obtain ⟨name, hname⟩ := hrefused
      rw [GraphCall.perform, Workspace.createBlock_of_getElem? hgraph, hname]
      simp [Except.toOption]
  | edge source target => simp [isRefused] at hrefused

theorem Recorded.perform (h : Recorded g calls s) {call : GraphCall}
    (hcall : ∀ e ∈ call.edge?, e.source ∈ s.returned ∧ e.target ∈ s.returned) :
    Recorded g (calls ++ [call]) (call.perform g s) := by
  have hunchanged : call.isRefused calls = true → call.perform g s = s := h.perform_of_isRefused
  obtain ⟨graph, hgraph, hrecords, hreturned⟩ := h
  cases call with
  | block name? instructions =>
      cases hname : name?.filter graph.hasBlock with
      | some name =>
          have hrefused : (GraphCall.block name? instructions).isRefused calls = true := by
            rw [hrecords.isRefused_eq, hname]
            rfl
          rw [hunchanged hrefused]
          exact ⟨graph, hgraph, hrecords.refuse hname, hreturned⟩
      | none =>
          have hlt := (Array.getElem?_eq_some_iff.mp hgraph).1
          refine ⟨graph.pushBlock g name? instructions, ?_, hrecords.pushBlock hname, ?_⟩
          · rw [GraphCall.perform, Workspace.createBlock_of_getElem? hgraph, hname]
            exact Array.getElem?_setIfInBounds_self_of_lt hlt
          · rw [GraphCall.perform, Workspace.createBlock_of_getElem? hgraph, hname,
              Cfg.size_blocks_pushBlock, List.range_succ, List.map_append, ← hreturned]
            rfl
  | edge source target =>
      have hends := hcall _ rfl
      simp only [hreturned, List.mem_map, List.mem_range] at hends
      obtain ⟨⟨source, hsource, rfl⟩, ⟨target, htarget, rfl⟩⟩ := hends
      refine ⟨graph.addEdge g source target, ?_, hrecords.addEdge hsource htarget, ?_⟩
      · rw [GraphCall.perform, Workspace.getElem?_graphs_addEdge, hgraph]
        rfl
      · rw [Cfg.size_blocks_addEdge, ← hreturned]
        rfl

theorem Recorded.run (h : Recorded g calls s) {rest : List GraphCall}
    (hrest : Addressed g s rest) : Recorded g (calls ++ rest) (run g s rest) := by
  induction rest generalizing calls s with
  | nil =>
      rw [List.append_nil]
      exact h
  | cons call rest ih =>
      have hnext := ih (h.perform hrest.1) hrest.2
      rwa [List.append_assoc] at hnext

/-- Leaving out the calls that are refused changes nothing. -/
theorem Recorded.run_keptAfter (h : Recorded g calls s) {rest : List GraphCall}
    (hrest : Addressed g s rest) :
    GraphCall.run g s (keptAfter calls rest) = GraphCall.run g s rest := by
  induction rest generalizing calls s with
  | nil => rfl
  | cons call rest ih =>
      have hnext := ih (h.perform hrest.1) hrest.2
      rw [keptAfter]
      split
      · next hrefused =>
          rw [h.perform_of_isRefused hrefused] at hnext
          rw [hnext, GraphCall.run, GraphCall.run, List.foldl_cons,
            h.perform_of_isRefused hrefused]
      · exact hnext

/-- A session that starts with a new graph. -/
def start (ws : Workspace) (name : String) : Session :=
  ⟨ws.addGraph name, []⟩

theorem recorded_start (ws : Workspace) (name : String) :
    Recorded ws.graphs.size [] (start ws name) :=
  ⟨_, Array.getElem?_push_size, Cfg.Records.empty _ name, rfl⟩

/-- However a new graph is built, its blocks are those of the calls that were not refused, its edges
are all that were added, every block knows its graph and its number, and lists the edges at it. The
calls return the blocks in order. A name that was given belongs to one block and leads to it, and a
call that gives it again is refused and leaves the workspace as it was. -/
theorem exists_graph_run (ws : Workspace) (name : String) {calls : List GraphCall}
    (h : Addressed ws.graphs.size (start ws name) calls) :
    ∃ graph s, run ws.graphs.size (start ws name) calls = s ∧
      s.workspace.graphs[ws.graphs.size]? = some graph ∧
      graph.Records ws.graphs.size calls ∧
      s.returned = (List.range graph.blocks.size).map (⟨ws.graphs.size, ·⟩) ∧
      s.workspace.blocksOf ws.graphs.size = s.returned ∧
      (∀ name, (∃ call ∈ calls, call.givenName? = some name) →
        ∃ i, graph.block? name = some ⟨ws.graphs.size, i⟩ ∧
          ∀ j, (∃ block, graph.blocks[j]? = some block ∧ block.name? = some name) ↔ j = i) ∧
      (∀ name? instructions, (block name? instructions).isRefused calls = true ↔
        ∃ e, (s.workspace.createBlock ws.graphs.size name? instructions).1 = .error e) ∧
      (∀ name? instructions e,
        (s.workspace.createBlock ws.graphs.size name? instructions).1 = .error e →
          (s.workspace.createBlock ws.graphs.size name? instructions).2 = s.workspace) ∧
      run ws.graphs.size (start ws name) (kept calls) = s := by
  have hrun : Recorded ws.graphs.size calls (run ws.graphs.size (start ws name) calls) :=
    (recorded_start ws name).run h
  obtain ⟨graph, hgraph, hrecords, hreturned⟩ := hrun
  refine ⟨graph, _, rfl, hgraph, hrecords, hreturned, ?_, fun name => hrecords.exists_block?_eq,
    ?_, ?_, (recorded_start ws name).run_keptAfter h⟩
  · rw [Workspace.blocksOf, hgraph, hreturned]
    rfl
  · intro name? instructions
    rw [hrecords.isRefused_eq, Workspace.createBlock_of_getElem? hgraph]
    cases name?.filter graph.hasBlock <;> simp
  · intro name? instructions e
    rw [Workspace.createBlock_of_getElem? hgraph]
    cases name?.filter graph.hasBlock <;> simp

/-- Calls with a block without a name, a name given twice, parallel edges and an edge from a block
to itself. -/
def repeatedCalls : List GraphCall :=
  [.block none ["x"], .block (some "a") [], .edge ⟨0, 0⟩ ⟨0, 1⟩, .block (some "a") ["y"],
    .edge ⟨0, 1⟩ ⟨0, 1⟩, .edge ⟨0, 0⟩ ⟨0, 1⟩]

theorem exists_graph_run_repeated :
    Addressed 0 (start {} "f") repeatedCalls ∧
    ∃ graph s, run 0 (start {} "f") repeatedCalls = s ∧ s.workspace.graphs[0]? = some graph ∧
      graph.Records 0 repeatedCalls ∧ s.returned = [⟨0, 0⟩, ⟨0, 1⟩] ∧
      graph.blocks.toList.map (fun block => (block.id, block.successors, block.predecessors)) =
        [(0, [⟨0, 1⟩, ⟨0, 1⟩], []), (1, [⟨0, 1⟩], [⟨0, 0⟩, ⟨0, 1⟩, ⟨0, 0⟩])] ∧
      graph.block? "a" = some ⟨0, 1⟩ ∧
      (s.workspace.createBlock 0 (some "a") ["z"]).2 = s.workspace := by
  have haddressed : Addressed 0 (start {} "f") repeatedCalls := by decide +kernel
  obtain ⟨graph, s, hrun, hgraph, hrecords, hreturned, -, -, hrefused, hleft, -⟩ :=
    exists_graph_run {} "f" haddressed
  have hblocks : (run 0 (start {} "f") repeatedCalls).workspace.graphs[0]?.map (fun graph =>
      graph.blocks.toList.map fun block => (block.id, block.successors, block.predecessors)) =
        some [(0, [⟨0, 1⟩, ⟨0, 1⟩], []), (1, [⟨0, 1⟩], [⟨0, 0⟩, ⟨0, 1⟩, ⟨0, 0⟩])] := by
    decide +kernel
  have htable : (run 0 (start {} "f") repeatedCalls).workspace.graphs[0]?.map (·.block? "a") =
      some (some ⟨0, 1⟩) := by
    decide +kernel
  have hfound : (run 0 (start {} "f") repeatedCalls).workspace.graphs[0]? = some graph :=
    hrun ▸ hgraph
  rw [hfound] at hblocks htable
  have hsize : graph.blocks.size = 2 := by
    have hlength := congrArg List.length (Option.some.inj hblocks)
    rwa [List.length_map, Array.length_toList] at hlength
  obtain ⟨e, he⟩ := (hrefused (some "a") ["z"]).mp (by decide)
  refine ⟨haddressed, graph, s, hrun, hgraph, hrecords, ?_, Option.some.inj hblocks,
    Option.some.inj htable, hleft _ _ e he⟩
  rw [hreturned, hsize]
  rfl

end GraphCall

end FlowRegions

import FlowRegions.Proofs.Description.Loaded

/-!
# Documents as a whole

A document that can be read either gives one region graph for each of its functions, in order, or is
refused because of the first function that has none. A fault in a description is reported with the
source of the document, and a fault in a region tree without it.
-/

namespace FlowRegions

/-! ### Refused trees -/

theorem Workspace.graph_of_verify_eq_error {ws : Workspace} {a : AnalysisRef} {analysis : Analysis}
    (h : ws.analyses[a]? = some analysis) {e : TreeError} (he : ws.verify a = .error e) :
    e.graph = ws.graphName analysis.graph := by
  rw [verify, h] at he
  dsimp only at he
  repeat' split at he
  all_goals cases he
  all_goals rfl

namespace Draft.WellFormed

variable {d : Draft} {graph : Cfg}

theorem not_sound_of_toRegionGraph_eq_error (h : d.WellFormed graph) {e : TreeError}
    (he : d.toRegionGraph = .error e) : ¬ d.tree.Sound graph.blocks.size := by
  intro hsound
  rw [h.toRegionGraph_eq_ok_iff.mpr ⟨hsound, rfl⟩] at he
  cases he

theorem graph_of_toRegionGraph_eq_error (h : d.WellFormed graph) {e : TreeError}
    (he : d.toRegionGraph = .error e) : e.graph = graph.name := by
  have hmap : d.toRegionGraph =
      (d.planted.analyse 0 0).2.map fun _ => ⟨(d.planted.analyse 0 0).1, 0⟩ := rfl
  rw [hmap, Workspace.snd_analyse] at he
  cases hverify : (d.planted.index 0 0).verify d.planted.analyses.size with
  | ok =>
      rw [hverify] at he
      cases he
  | error e' =>
      rw [hverify] at he
      obtain rfl := Except.error.inj he
      rw [Workspace.graph_of_verify_eq_error Workspace.getElem?_analyses_index hverify,
        Workspace.graphName, Workspace.graphs_index, h.planted_eq, RegionTree.graphs_plant]
      rfl

end Draft.WellFormed

/-! ### The functions of a document -/

namespace Json

/-- The first field called `key` has the value. -/
def HasField (fields : List (String × Json)) (key : String) (value : Json) : Prop :=
  ∃ before after, fields = before ++ (key, value) :: after ∧ ∀ field ∈ before, field.1 ≠ key

/-- A list stands for its items, and any other value for itself. -/
inductive Lists : Json → List Json → Prop
  | array (items : List Json) : Lists (.array items) items
  | single {value : Json} (h : ∀ items, value ≠ .array items) : Lists value [value]

/-- The functions that a document holds: what its field `functions` lists, or without such a field
what the document itself lists. -/
inductive Holds : Json → List Json → Prop
  | field {fields : List (String × Json)} {value : Json} {functions : List Json} :
    HasField fields "functions" value → value.Lists functions → Holds (.object fields) functions
  | itself {document : Json} {functions : List Json} :
    (∀ fields, document = .object fields → ∀ field ∈ fields, field.1 ≠ "functions") →
      document.Lists functions → Holds document functions

theorem lookup?_eq_lookup (key : String) (fields : List (String × Json)) :
    lookup? key fields = fields.lookup key := by
  induction fields with
  | nil => rfl
  | cons field rest ih =>
      obtain ⟨name, value⟩ := field
      by_cases h : name = key
      · simp [lookup?, h]
      · have hne : (key == name) = false := beq_false_of_ne (Ne.symm h)
        simp [lookup?, List.lookup_cons, h, hne, ih]

theorem lookup?_eq_some_iff {key : String} {fields : List (String × Json)} {value : Json} :
    lookup? key fields = some value ↔ HasField fields key value := by
  simp only [lookup?_eq_lookup, List.lookup_eq_some_iff, HasField, bne_iff_ne, ne_comm]

theorem lookup?_eq_none_iff {key : String} {fields : List (String × Json)} :
    lookup? key fields = none ↔ ∀ field ∈ fields, field.1 ≠ key := by
  simp only [lookup?_eq_lookup, List.lookup_eq_none_iff, bne_iff_ne, ne_comm]

theorem Lists.unique {value : Json} {functions others : List Json} (h : value.Lists functions)
    (hothers : value.Lists others) : functions = others := by
  cases h with
  | array =>
      cases hothers with
      | array => rfl
      | single hne => exact absurd rfl (hne _)
  | single hne =>
      cases hothers with
      | array => exact absurd rfl (hne _)
      | single => rfl

theorem Holds.unique {document : Json} {functions others : List Json}
    (h : document.Holds functions) (hothers : document.Holds others) : functions = others := by
  rcases h with ⟨hfield, hlists⟩ | ⟨hnone, hlists⟩ <;>
    rcases hothers with ⟨hfield', hlists'⟩ | ⟨hnone', hlists'⟩
  · have hvalue := (lookup?_eq_some_iff.mpr hfield).symm.trans (lookup?_eq_some_iff.mpr hfield')
    rw [Option.some.inj hvalue] at hlists
    exact hlists.unique hlists'
  · obtain ⟨before, after, rfl, _⟩ := hfield
    exact absurd rfl (hnone' _ rfl _ (List.mem_append_right _ List.mem_cons_self))
  · obtain ⟨before, after, rfl, _⟩ := hfield'
    exact absurd rfl (hnone _ rfl _ (List.mem_append_right _ List.mem_cons_self))
  · exact hlists.unique hlists'

theorem lists_jsonItems_of_lookup?_eq_some {fields : List (String × Json)} {value : Json}
    (h : lookup? "functions" fields = some value) :
    value.Lists (Document.jsonItems (.object fields)) := by
  rw [Document.jsonItems, h]
  cases value with
  | array items => exact .array items
  | _ => exact .single (by simp)

/-- A document is read by the functions that it holds. -/
theorem holds_jsonItems (document : Json) : document.Holds (Document.jsonItems document) := by
  cases document with
  | object fields =>
      cases hlookup : lookup? "functions" fields with
      | some value =>
          exact .field (lookup?_eq_some_iff.mp hlookup) (lists_jsonItems_of_lookup?_eq_some hlookup)
      | none =>
          have hitself : Document.jsonItems (.object fields) = [.object fields] := by
            rw [Document.jsonItems, hlookup]
            rfl
          rw [hitself]
          refine .itself ?_ (.single (by simp))
          rintro _ ⟨⟩
          exact lookup?_eq_none_iff.mp hlookup
  | array items => exact .itself (by simp) (.array items)
  | _ => exact .itself (by simp) (.single (by simp))

end Json

namespace Document

variable {format : Format} {text : String} {source? : Option String}

/-- The text is no document in this form. -/
inductive IsMalformed : Format → String → LoadFault → Prop
  | json {text : String} {e : Json.SyntaxError} :
    Json.parse text = .error (.malformed e) → IsMalformed .json text (.json e)
  | sexp {text : String} {e : Sexp.ReadError} :
    Sexp.parseForms text = .error e → IsMalformed .sexp text (.sexp e)

/-- The functions of a document, each as it is read. -/
inductive Reads : Format → String → List (Except LoadFault Draft) → Prop
  | json {text : String} {document : Json} {functions : List Json} :
    Json.parse text = .ok document → document.Holds functions →
      Reads .json text (functions.map Draft.ofJson)
  | sexp {text : String} {forms : List Sexp} :
    Sexp.parseForms text = .ok forms → Reads .sexp text (forms.map Draft.ofSexp)

/-- What is read is a well-formed draft with a sound tree, and the region graph is made of both. -/
def Accepts (reading : Except LoadFault Draft) (rg : RegionGraph) : Prop :=
  ∃ draft graph, reading = .ok draft ∧ draft.WellFormed graph ∧
    draft.tree.Sound graph.blocks.size ∧ rg = .ofTree graph draft.tree

/-- What is read is a fault, or a well-formed draft whose tree is not sound. -/
inductive Refuses (source? : Option String) : Except LoadFault Draft → DocumentError → Prop
  | description (fault : LoadFault) : Refuses source? (.error fault) (.load ⟨fault, source?⟩)
  | tree {draft : Draft} {graph : Cfg} {e : TreeError} (well : draft.WellFormed graph)
    (unsound : ¬ draft.tree.Sound graph.blocks.size) (named : e.graph = graph.name) :
    Refuses source? (.ok draft) (.tree e)

theorem drafts_of_reads {readings : List (Except LoadFault Draft)}
    (h : Reads format text readings) (source? : Option String) :
    drafts format text source? = .ok readings := by
  cases h with
  | @json _ document _ hparse hholds =>
      rw [drafts, hparse, hholds.unique document.holds_jsonItems]
  | sexp hparse => rw [drafts, hparse]

theorem accepts_of_finish {readings : List (Except LoadFault Draft)}
    (hreadings : drafts format text source? = .ok readings) {reading : Except LoadFault Draft}
    (hmem : reading ∈ readings) {rg : RegionGraph} (h : finish source? reading = .ok rg) :
    Accepts reading rg := by
  obtain ⟨d, rfl, hd⟩ := finish_eq_ok h
  obtain ⟨graph, hwell⟩ := wellFormed_of_mem_drafts hreadings hmem
  obtain ⟨hsound, hrg⟩ := hwell.toRegionGraph_eq_ok_iff.mp hd
  exact ⟨d, graph, rfl, hwell, hsound, hrg⟩

theorem refuses_of_finish {readings : List (Except LoadFault Draft)}
    (hreadings : drafts format text source? = .ok readings) {reading : Except LoadFault Draft}
    (hmem : reading ∈ readings) {e : DocumentError} (h : finish source? reading = .error e) :
    Refuses source? reading e := by
  cases reading with
  | error fault =>
      obtain rfl := Except.error.inj h
      exact .description fault
  | ok d =>
      obtain ⟨graph, hwell⟩ := wellFormed_of_mem_drafts hreadings hmem
      rw [finish] at h
      cases htree : d.toRegionGraph with
      | ok rg =>
          rw [htree] at h
          cases h
      | error e' =>
          rw [htree] at h
          obtain rfl := Except.error.inj h
          exact .tree hwell (hwell.not_sound_of_toRegionGraph_eq_error htree)
            (hwell.graph_of_toRegionGraph_eq_error htree)

theorem load_eq_mapM {readings : List (Except LoadFault Draft)}
    (h : Reads format text readings) (source? : Option String) :
    load format text source? = readings.mapM (finish source?) := by
  rw [load, drafts_of_reads h source?]
  rfl

/-- A document that can be read is accepted with all its functions, or refused for the first that is
not accepted. -/
theorem load_of_reads {readings : List (Except LoadFault Draft)}
    (h : Reads format text readings) (source? : Option String) :
    (∃ functions, load format text source? = .ok functions ∧
      List.Forall₂ Accepts readings functions) ∨
    ∃ before functions refused after e, load format text source? = .error e ∧
      readings = before ++ refused :: after ∧ List.Forall₂ Accepts before functions ∧
      Refuses source? refused e := by
  have hdrafts := drafts_of_reads h source?
  rw [load_eq_mapM h]
  cases hfinish : readings.mapM (finish source?) with
  | ok functions =>
      have hall := (List.forall₂_and_left _ _).mpr ⟨fun _ hmem => hmem, mapM_eq_ok_iff.mp hfinish⟩
      exact Or.inl ⟨functions, rfl, hall.imp fun reading rg hreading =>
        accepts_of_finish hdrafts hreading.1 hreading.2⟩
  | error e =>
      obtain ⟨before, functions, refused, after, rfl, hbefore, hrefused⟩ :=
        mapM_eq_error_iff.mp hfinish
      have hall := (List.forall₂_and_left _ _).mpr
        ⟨fun _ hmem => List.mem_append_left (refused :: after) hmem, hbefore⟩
      refine Or.inr ⟨before, functions, refused, after, e, rfl, rfl, ?_, ?_⟩
      · exact hall.imp fun reading rg hreading => accepts_of_finish hdrafts hreading.1 hreading.2
      · exact refuses_of_finish hdrafts (List.mem_append_right _ List.mem_cons_self) hrefused

theorem malformed_or_oversized_or_reads (format : Format) (text : String)
    (source? : Option String) :
    (∃ fault, load format text source? = .error (.load ⟨fault, source?⟩) ∧
      IsMalformed format text fault) ∨
    (∃ digits, load format text source? = .error (.oversized digits) ∧ format = .json ∧
      Json.parse text = .error (.oversized digits)) ∨
    ∃ readings, Reads format text readings := by
  cases format with
  | json =>
      rw [load, drafts]
      cases hparse : Json.parse text with
      | ok document => exact Or.inr (Or.inr ⟨_, .json hparse document.holds_jsonItems⟩)
      | error e =>
          cases e with
          | malformed e => exact Or.inl ⟨_, rfl, .json hparse⟩
          | oversized digits => exact Or.inr (Or.inl ⟨digits, rfl, rfl, rfl⟩)
  | sexp =>
      rw [load, drafts]
      cases hparse : Sexp.parseForms text with
      | ok forms => exact Or.inr (Or.inr ⟨_, .sexp hparse⟩)
      | error e => exact Or.inl ⟨_, rfl, .sexp hparse⟩

/-- Where loading fails, the text as a whole is at fault, or the first function that is not
accepted. -/
theorem cases_of_load_eq_error {e : DocumentError} (h : load format text source? = .error e) :
    (∃ fault, e = .load ⟨fault, source?⟩ ∧ IsMalformed format text fault) ∨
    (∃ digits, e = .oversized digits ∧ format = .json ∧
      Json.parse text = .error (.oversized digits)) ∨
    ∃ before functions refused after, Reads format text (before ++ refused :: after) ∧
      List.Forall₂ Accepts before functions ∧ Refuses source? refused e := by
  rcases malformed_or_oversized_or_reads format text source? with
    ⟨fault, hload, hmalformed⟩ | ⟨digits, hload, hparse⟩ | ⟨readings, hreads⟩
  · rw [hload] at h
    exact Or.inl ⟨fault, (Except.error.inj h).symm, hmalformed⟩
  · rw [hload] at h
    exact Or.inr (Or.inl ⟨digits, (Except.error.inj h).symm, hparse⟩)
  · rcases load_of_reads hreads source? with
      ⟨_, hload, _⟩ | ⟨before, functions, refused, after, e', hload, rfl, hbefore, hrefused⟩
    · rw [hload] at h
      cases h
    · rw [hload] at h
      obtain rfl := Except.error.inj h
      exact Or.inr (Or.inr ⟨before, functions, refused, after, hreads, hbefore, hrefused⟩)

theorem load_eq_oversized_iff {digits : Nat} :
    load format text source? = .error (.oversized digits) ↔
      format = .json ∧ Json.parse text = .error (.oversized digits) := by
  constructor
  · intro h
    rcases cases_of_load_eq_error h with
      ⟨_, heq, _⟩ | ⟨_, heq, hparse⟩ | ⟨_, _, _, _, _, _, hrefused⟩
    · cases heq
    · cases heq
      exact hparse
    · cases hrefused
  · rintro ⟨rfl, hparse⟩
    rw [load, drafts, hparse]
    rfl

/-! ### Functions that are asked for -/

/-- A choice succeeds exactly if every name is the name of a function. -/
theorem exists_select_eq_ok_iff {functions : List RegionGraph} {names : List String} :
    (∃ selected, select functions names = .ok selected) ↔
      ∀ name ∈ names, ∃ rg ∈ functions, rg.name = name := by
  cases names with
  | nil => simp [select]
  | cons first rest =>
      have hmissing : ((first :: rest).filter fun name =>
          (functions.reverse.find? (·.name == name)).isNone) = [] ↔
            ∀ name ∈ first :: rest, ∃ rg ∈ functions, rg.name = name := by
        rw [List.filter_eq_nil_iff]
        simp
      rw [← hmissing, select]
      dsimp only
      cases (first :: rest).filter fun name =>
          (functions.reverse.find? (·.name == name)).isNone with
      | nil => simp
      | cons => simp

theorem mem_of_mem_select {functions selected : List RegionGraph} {names : List String}
    (h : select functions names = .ok selected) {rg : RegionGraph} (hrg : rg ∈ selected) :
    rg ∈ functions := by
  rw [select] at h
  split at h
  · rwa [Except.ok.inj h]
  · dsimp only at h
    split at h
    · obtain rfl := Except.ok.inj h
      obtain ⟨name, _, hfind⟩ := List.mem_filterMap.mp hrg
      exact List.mem_reverse.mp (List.mem_of_find?_eq_some hfind)
    · cases h

/-! ### The source of a fault -/

theorem finish_of_accepts {reading : Except LoadFault Draft} {rg : RegionGraph}
    (h : Accepts reading rg) (source? : Option String) : finish source? reading = .ok rg := by
  obtain ⟨d, graph, rfl, hwell, hsound, rfl⟩ := h
  exact mapError_eq_ok_iff.mpr (hwell.toRegionGraph_eq_ok_iff.mpr ⟨hsound, rfl⟩)

theorem exists_finish_eq_tree {d : Draft} {graph : Cfg} (hwell : d.WellFormed graph)
    (hunsound : ¬ d.tree.Sound graph.blocks.size) :
    ∃ e, ∀ source?, finish source? (.ok d) = .error (.tree e) := by
  cases htree : d.toRegionGraph with
  | ok rg => exact absurd (hwell.toRegionGraph_eq_ok_iff.mp htree).1 hunsound
  | error e => exact ⟨e, fun _ => by rw [finish, htree]; rfl⟩

theorem load_eq_error_of_finish {before after : List (Except LoadFault Draft)}
    {refused : Except LoadFault Draft} {functions : List RegionGraph} {e : DocumentError}
    (hreads : Reads format text (before ++ refused :: after))
    (hbefore : List.Forall₂ Accepts before functions)
    (hrefused : finish source? refused = .error e) : load format text source? = .error e := by
  rw [load_eq_mapM hreads, mapM_eq_error_iff]
  exact ⟨before, functions, refused, after, rfl,
    hbefore.imp fun _ _ h => finish_of_accepts h source?, hrefused⟩

/-- The first function that is not accepted has a tree that is not sound. -/
def BreaksAtTree (format : Format) (text : String) : Prop :=
  ∃ before functions draft graph after, Reads format text (before ++ .ok draft :: after) ∧
    List.Forall₂ Accepts before functions ∧ draft.WellFormed graph ∧
    ¬ draft.tree.Sound graph.blocks.size

/-- The source of the document takes no part in a fault in a region tree. -/
theorem BreaksAtTree.exists_load_eq (h : BreaksAtTree format text) :
    ∃ e, ∀ source?, load format text source? = .error (.tree e) := by
  obtain ⟨before, functions, draft, graph, after, hreads, hbefore, hwell, hunsound⟩ := h
  obtain ⟨e, he⟩ := exists_finish_eq_tree hwell hunsound
  exact ⟨e, fun source? => load_eq_error_of_finish hreads hbefore (he source?)⟩

theorem breaksAtTree_of_load_eq_tree {e : TreeError}
    (h : load format text source? = .error (.tree e)) : BreaksAtTree format text := by
  rcases cases_of_load_eq_error h with
    ⟨_, heq, _⟩ | ⟨_, heq, _⟩ | ⟨before, functions, refused, after, hreads, hbefore, hrefused⟩
  · cases heq
  · cases heq
  · cases hrefused with
    | tree hwell hunsound _ =>
        exact ⟨before, functions, _, _, after, hreads, hbefore, hwell, hunsound⟩

theorem source?_of_load_eq_load {e : LoadError}
    (h : load format text source? = .error (.load e)) : e.source? = source? := by
  rcases cases_of_load_eq_error h with
    ⟨_, heq, _⟩ | ⟨_, heq, _⟩ | ⟨_, _, _, _, _, _, hrefused⟩
  · rw [DocumentError.load.inj heq]
  · cases heq
  · cases hrefused with
    | description fault => rfl

/-- A fault in a region tree is the same whatever the document is called. -/
theorem load_eq_tree_congr {e : TreeError} (h : load format text source? = .error (.tree e))
    (other? : Option String) : load format text other? = .error (.tree e) := by
  obtain ⟨e', hload⟩ := (breaksAtTree_of_load_eq_tree h).exists_load_eq
  rw [hload source?] at h
  rw [hload, h]

/-- A fault in a description, or in the text as a whole, is reported with the source of the
document. A fault in a region tree is reported without it, and this is how loading ends exactly if
the first function that is not accepted has a tree that is not sound. -/
theorem source_of_load_eq_error (format : Format) (text p : String) :
    (∀ e, load format text (some p) = .error (.load e) → e.diagnostic.source? = some p) ∧
    (∀ e, load format text (some p) = .error (.tree e) → e.diagnostic.source? = none ∧
      ∀ source?, load format text source? = .error (.tree e)) ∧
    ((∃ e, load format text (some p) = .error (.tree e)) ↔ BreaksAtTree format text) :=
  ⟨fun _ h => source?_of_load_eq_load h, fun _ h => ⟨rfl, load_eq_tree_congr h⟩,
    fun ⟨_, h⟩ => breaksAtTree_of_load_eq_tree h,
    fun h => h.exists_load_eq.imp fun _ hload => hload (some p)⟩

/-- The fault in a region tree that loading ends with. -/
def treeFault? : Except DocumentError (List RegionGraph) → Option TreeError
  | .error (.tree e) => some e
  | _ => none

theorem eq_error_of_treeFault? {found : Except DocumentError (List RegionGraph)} {e : TreeError}
    (h : treeFault? found = some e) : found = .error (.tree e) := by
  unfold treeFault? at h
  split at h
  · rw [Option.some.inj h]
  · cases h

/-- A block without a name is a fault with a source, and a block that no region owns is one
without. -/
theorem source_of_load_eq_error_both :
    (∃ e, load .sexp "(function f (block))" (some "in.sexp") = .error (.load e) ∧
      e.diagnostic.source? = some "in.sexp") ∧
    ∃ e, load .sexp "(function f (block a) (block b) (region :entry a (blocks a)))"
        (some "in.sexp") = .error (.tree e) ∧ e.diagnostic.source? = none ∧
      BreaksAtTree .sexp "(function f (block a) (block b) (region :entry a (blocks a)))" := by
  have hblock : load .sexp "(function f (block))" (some "in.sexp") =
      .error (.load ⟨.blockFormWithoutName "f", some "in.sexp"⟩) := by rfl
  have hregion : load .sexp "(function f (block a) (block b) (region :entry a (blocks a)))"
      (some "in.sexp") = .error (.tree ⟨"f", .notOwned ["b"]⟩) :=
    eq_error_of_treeFault? (by decide +kernel)
  obtain ⟨hload, -, -⟩ := source_of_load_eq_error .sexp "(function f (block))" "in.sexp"
  obtain ⟨-, htree, hbreaks⟩ := source_of_load_eq_error .sexp
    "(function f (block a) (block b) (region :entry a (blocks a)))" "in.sexp"
  exact ⟨⟨_, hblock, hload _ hblock⟩, _, hregion, (htree _ hregion).1, hbreaks.mp ⟨_, hregion⟩⟩

/-- A report of a block that no region owns names the function and not the source. -/
theorem load_tree_error_without_source :
    ∃ e, load .sexp "(function f (block a) (block b) (region :entry a (blocks a)))"
        (some "in.sexp") = .error e ∧ e.diagnostic.source? ≠ some "in.sexp" ∧
      e.diagnostic.text = "in function 'f': blocks not owned by any region: b" :=
  ⟨_, eq_error_of_treeFault? (e := ⟨"f", .notOwned ["b"]⟩) (by decide +kernel), by decide,
    by decide +kernel⟩

end Document

end FlowRegions

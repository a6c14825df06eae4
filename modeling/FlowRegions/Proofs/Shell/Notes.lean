import FlowRegions.Proofs.Shell.Loading

/-!
# What is said on the way

Loading and drawing put nothing out, and all that they report are log entries about their progress.
None of these is an error, so at the lowest verbosity nothing is reported at all.
-/

namespace FlowRegions.Shell

/-- The lines of the entries that a verbosity shows. -/
def logText (verbosity : Nat) (entries : List LogEntry) : String :=
  String.join ((entries.filter (·.isShown verbosity)).map LogEntry.line)

theorem logText_append (verbosity : Nat) (entries more : List LogEntry) :
    logText verbosity (entries ++ more) = logText verbosity entries ++ logText verbosity more := by
  rw [logText, List.filter_append, List.map_append, String.join_append]
  rfl

theorem logText_zero {entries : List LogEntry} (h : ∀ e ∈ entries, e.severity ≠ .error) :
    logText 0 entries = "" := by
  have hhidden : entries.filter (·.isShown 0) = [] := by
    rw [List.filter_eq_nil_iff]
    intro e he
    have hsevere := h e he
    rw [LogEntry.isShown]
    cases hseverity : e.severity with
    | error => exact absurd hseverity hsevere
    | info => decide
    | debug => decide
  rw [logText, hhidden]
  rfl

/-- The machines have emitted the same. -/
structure SameChannels (s s' : Machine) : Prop where
  out_eq : s'.out = s.out
  err_eq : s'.err = s.err

namespace Action

variable {α β : Type} {verbosity : Nat} {s s' : Machine}

/-- The action puts nothing out and reports log entries only, none of them an error. -/
def Notes (verbosity : Nat) (x : Action (StateM Machine) α) : Prop :=
  ∀ s, ∃ entries : List LogEntry, (∀ e ∈ entries, e.severity ≠ .error) ∧
    (x.on s).2.out = s.out ∧ (x.on s).2.err = s.err ++ logText verbosity entries

theorem Notes.exists_entries {x : Action (StateM Machine) α} (hx : x.Notes verbosity)
    {result : Except Fault α} (h : x.on s = (result, s')) :
    ∃ entries : List LogEntry, (∀ e ∈ entries, e.severity ≠ .error) ∧ s'.out = s.out ∧
      s'.err = s.err ++ logText verbosity entries := by
  have hnotes := hx s
  rwa [h] at hnotes

theorem notes_of_sameChannels {x : Action (StateM Machine) α}
    (h : ∀ s, SameChannels s (x.on s).2) : x.Notes verbosity := by
  intro s
  refine ⟨[], by simp, (h s).out_eq, ?_⟩
  rw [(h s).err_eq]
  exact (String.append_empty).symm

theorem notes_pure (a : α) : Notes verbosity (pure a) :=
  notes_of_sameChannels fun _ => ⟨rfl, rfl⟩

theorem notes_throw (e : Fault) : Notes verbosity (throw e : Action (StateM Machine) α) :=
  notes_of_sameChannels fun _ => ⟨rfl, rfl⟩

theorem notes_liftM {x : StateM Machine α} (h : ∀ s, SameChannels s (x.run s).2) :
    Notes verbosity (liftM x) :=
  notes_of_sameChannels h

theorem notes_liftExcept (result : Except Fault α) :
    Notes verbosity (liftM result : Action (StateM Machine) α) := by
  cases result with
  | ok a => exact notes_pure a
  | error e => exact notes_throw e

theorem notes_ofFile {x : StateM Machine (Except FileError α)}
    (h : ∀ s, SameChannels s (x.run s).2) : Notes verbosity (ofFile x) := by
  apply notes_of_sameChannels
  intro s
  have hsame := h s
  rw [on_ofFile]
  rcases hx : x.run s with ⟨result, s'⟩
  rw [hx] at hsame
  cases result <;> exact hsame

theorem notes_log {severity : Severity} (h : severity ≠ .error) (topic : Topic) (text : String) :
    Notes verbosity (log verbosity ⟨severity, topic, text⟩ : Action (StateM Machine) Unit) := by
  intro s
  refine ⟨[⟨severity, topic, text⟩], by simpa using h, ?_⟩
  rw [log, on_liftM, run_log]
  refine ⟨rfl, ?_⟩
  dsimp only
  rw [logText, List.filter_singleton]
  split <;> simp_all [String.join]

theorem Notes.bind {x : Action (StateM Machine) α} {f : α → Action (StateM Machine) β}
    (hx : x.Notes verbosity) (hf : ∀ a, (f a).Notes verbosity) : Notes verbosity (x >>= f) := by
  intro s
  obtain ⟨entries, hentries, hout, herr⟩ := hx s
  rw [on_bind]
  rcases h : x.on s with ⟨result, middle⟩
  rw [h] at hout herr
  cases result with
  | error e => exact ⟨entries, hentries, hout, herr⟩
  | ok a =>
      obtain ⟨more, hmore, hout', herr'⟩ := hf a middle
      refine ⟨entries ++ more, List.forall_mem_append.mpr ⟨hentries, hmore⟩, hout'.trans hout, ?_⟩
      rw [herr', herr, logText_append, String.append_assoc]

theorem notes_mapM {items : List α} {f : α → Action (StateM Machine) β}
    (hf : ∀ a, (f a).Notes verbosity) : Notes verbosity (items.mapM f) := by
  induction items with
  | nil => exact notes_pure _
  | cons a rest ih =>
      rw [List.mapM_cons]
      exact (hf a).bind fun _ => ih.bind fun _ => notes_pure _

theorem notes_forM {items : List α} {f : α → Action (StateM Machine) PUnit}
    (hf : ∀ a, (f a).Notes verbosity) : Notes verbosity (items.forM f) := by
  induction items with
  | nil => exact notes_pure _
  | cons a rest ih => exact (hf a).bind fun _ => ih

end Action

open Shell.Action

variable {verbosity : Nat}

/-! ### Loading -/

theorem notes_expandHome (p : Path) :
    (expandHome p : Action (StateM Machine) Path).Notes verbosity := by
  rw [expandHome]
  split
  · split
    · split
      · exact notes_throw _
      · refine (notes_liftM fun _ => ⟨rfl, rfl⟩).bind fun home? => ?_
        cases home? with
        | none => exact notes_throw _
        | some home => exact notes_pure _
    · exact notes_pure _
  · exact notes_pure _

theorem notes_resolve (value : Value) :
    (resolve value : Action (StateM Machine) Path).Notes verbosity := by
  cases value with
  | empty => exact notes_throw _
  | text text =>
      refine (notes_expandHome (.ofString text)).bind fun p => ?_
      split
      · exact notes_throw _
      · exact (notes_liftM fun _ => ⟨rfl, rfl⟩).bind fun _ => notes_pure _

theorem notes_findInput (value : Value) :
    (findInput value : Action (StateM Machine) Path).Notes verbosity := by
  refine (notes_resolve value).bind fun p => (notes_liftM fun _ => ⟨rfl, rfl⟩).bind fun result => ?_
  cases result with
  | ok => exact notes_pure _
  | error e =>
      dsimp only
      split
      · exact notes_throw _
      · exact notes_throw _

theorem notes_readText (p : Path) :
    (readText p : Action (StateM Machine) String).Notes verbosity := by
  refine (notes_liftM fun _ => ⟨rfl, rfl⟩).bind fun result => ?_
  cases result with
  | error e => cases e <;> exact notes_throw _
  | ok content =>
      dsimp only
      cases Text.ofBytes content with
      | ok text => exact notes_pure _
      | error e => exact notes_throw _

theorem notes_ofNote (note : Document.Note) :
    Notes verbosity (Action.log verbosity (.ofNote note) : Action (StateM Machine) Unit) := by
  cases note <;> exact notes_log (by decide) _ _

theorem notes_loadFile (p : Path) (formatName : String) :
    (loadFile verbosity p formatName : Action (StateM Machine) (List RegionGraph)).Notes
      verbosity := by
  rw [loadFile]
  refine (notes_liftExcept _).bind fun name => (notes_readText p).bind fun text => ?_
  refine (notes_log (by decide) _ _).bind fun _ => ?_
  cases Format.ofName? name with
  | none => exact notes_throw _
  | some format =>
      refine (notes_forM notes_ofNote).bind fun _ => ?_
      cases Document.load format text (some p.text) with
      | ok functions => exact notes_pure _
      | error e => exact notes_throw _

theorem notes_nameOf (value : Value) :
    (nameOf value : Action (StateM Machine) String).Notes verbosity := by
  cases value with
  | empty => exact notes_throw _
  | text name => exact notes_pure _

theorem notes_loadSource (source : Source) :
    (loadSource verbosity source : Action (StateM Machine) (List RegionGraph)).Notes
      verbosity := by
  rw [loadSource]
  refine (notes_findInput source.input).bind fun p => ?_
  refine (notes_loadFile p source.formatName).bind fun functions => ?_
  refine (notes_mapM notes_nameOf).bind fun names => ?_
  cases Document.select functions names with
  | ok selected => exact notes_pure _
  | error e => exact notes_throw _

/-! ### Drawing -/

theorem notes_draw (rendering : Rendering) (rg : RegionGraph) :
    (draw verbosity rendering rg : Action (StateM Machine) Dot.Drawing).Notes verbosity := by
  rw [draw]
  cases rendering.draw rg with
  | error e => exact notes_throw _
  | ok drawing =>
      refine (notes_log (by decide) _ _).bind fun _ => ?_
      exact (notes_log (by decide) _ _).bind fun _ => notes_pure _

theorem notes_write (p : Path) (content : ByteArray) :
    Notes verbosity (ofFile (Host.write p content : StateM Machine _)) := by
  apply notes_ofFile
  intro s
  have hwrite : (Host.write p content : StateM Machine (Except FileError Unit)).run s =
      s.write p.text content := rfl
  rw [hwrite, Machine.write]
  split <;> exact ⟨rfl, rfl⟩

theorem notes_openFile (p : Path) :
    (openFile p : Action (StateM Machine) Unit).Notes verbosity := by
  refine (notes_ofFile fun s => ?_).bind fun _ => notes_write p .empty
  exact ⟨rfl, rfl⟩

theorem notes_openTarget (target? : Option Value) :
    (openTarget target? : Action (StateM Machine) (Option Path)).Notes verbosity := by
  cases target? with
  | none => exact notes_pure _
  | some value =>
      rw [openTarget]
      split
      · exact notes_pure _
      · exact (notes_resolve value).bind fun p => (notes_openFile p).bind fun _ => notes_pure _

theorem notes_writeDrawing (rendering : Rendering) (directory : Path) (rg : RegionGraph) :
    (writeDrawing verbosity rendering directory rg : Action (StateM Machine) Path).Notes
      verbosity := by
  rw [writeDrawing]
  refine (notes_log (by decide) _ _).bind fun _ => (notes_openFile _).bind fun _ => ?_
  exact (notes_draw rendering rg).bind fun drawing => (notes_write _ _).bind fun _ => notes_pure _

end FlowRegions.Shell

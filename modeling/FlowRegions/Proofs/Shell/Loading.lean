import FlowRegions.Proofs.Description.Outcome
import FlowRegions.Proofs.Shell.Actions

/-!
# Loading on a machine

Loading asks the machine where the input is and what it holds, and reports. It succeeds exactly if
the input is a file with a readable document in a known form, in which all functions that are asked
for are described.
-/

namespace FlowRegions.Shell

open Shell.Action

/-! ### Finding the input -/

theorem exists_reports_expandHome (p : Path) :
    ∃ result, (expandHome p : Action (StateM Machine) Path).Reports result := by
  rw [expandHome]
  split
  · split
    · split
      · exact ⟨_, reports_throw _⟩
      · refine (reports_query (fun _ => rfl) fun _ _ => rfl).exists_bind fun home? => ?_
        cases home? with
        | none => exact ⟨_, reports_throw _⟩
        | some home => exact ⟨_, reports_pure _⟩
    · exact ⟨_, reports_pure _⟩
  · exact ⟨_, reports_pure _⟩

theorem isQuiet_expandHome (p : Path) : (expandHome p : Action (StateM Machine) Path).IsQuiet :=
  (exists_reports_expandHome p).elim fun _ h => h.isQuiet

theorem reports_resolve (value : Value) : (resolve value : Action (StateM Machine) Path).Reports
    fun s => ((resolve value).on s).1 := by
  suffices ∃ result, (resolve value : Action (StateM Machine) Path).Reports result from
    this.elim fun _ h => h.self
  cases value with
  | empty => exact ⟨_, reports_throw _⟩
  | text text =>
      obtain ⟨result, hexpand⟩ := exists_reports_expandHome (.ofString text)
      refine hexpand.exists_bind fun p => ?_
      split
      · exact ⟨_, reports_throw _⟩
      · exact ⟨_, (reports_query (fun _ => rfl) fun _ _ => rfl).bind fun _ => reports_pure _⟩

theorem isQuiet_resolve (value : Value) :
    (resolve value : Action (StateM Machine) Path).IsQuiet :=
  (reports_resolve value).isQuiet

/-- The path that was probed, if there is something. -/
def probed (p : Path) : Except FileError FileTree → Except Fault Path
  | .ok _ => .ok p
  | .error e =>
    if e = .failed .noEntry p.text ∨ e = .failed .notDirectory p.text then .error (.inputMissing p)
    else .error (.file e)

theorem reports_findInput (value : Value) :
    (findInput value : Action (StateM Machine) Path).Reports fun s =>
      ((resolve value).on s).1 >>= fun p => probed p (s.tree.stat s.here p.text) := by
  refine (reports_resolve value).bind fun p => ?_
  have hprobe : ∀ s : Machine, (Host.probe p : StateM Machine (Except FileError Unit)).run s =
      ((s.tree.stat s.here p.text).map fun _ => (), s) := fun _ => rfl
  refine ((reports_query (fun _ => rfl) fun _ _ => rfl).bind
    (g := fun result _ => match result with
      | .ok _ => .ok p
      | .error e => probed p (.error e)) fun result => ?_).congr fun s => ?_
  · cases result with
    | ok => exact reports_pure _
    | error e =>
        unfold probed
        dsimp only
        split
        · exact reports_throw _
        · exact reports_throw _
  · rw [hprobe]
    cases s.tree.stat s.here p.text <;> rfl

theorem isQuiet_findInput (value : Value) :
    (findInput value : Action (StateM Machine) Path).IsQuiet :=
  (reports_findInput value).isQuiet

/-! ### Reading the input -/

/-- The text in a file that was read. -/
def decoded (p : Path) : Except FileError ByteArray → Except Fault String
  | .ok content => (Text.ofBytes content).mapError .undecodable
  | .error .nul => .error (.file .nul)
  | .error (.failed fault _) => .error (faultAt p (.unreadable fault.wording))

theorem reports_readText (p : Path) : (readText p : Action (StateM Machine) String).Reports
    fun s => decoded p (s.tree.read s.here p.text) := by
  refine ((reports_query (fun _ => rfl) fun _ _ => rfl).bind
    (g := fun result _ => decoded p result) fun result => ?_).congr fun s => rfl
  cases result with
  | error e => cases e <;> exact reports_throw _
  | ok content =>
      dsimp only
      rw [decoded]
      cases Text.ofBytes content with
      | ok text => exact reports_pure _
      | error e => exact reports_throw _

theorem isQuiet_liftExcept {α : Type} (x : Except Fault α) :
    (liftM x : Action (StateM Machine) α).IsQuiet :=
  (reports_liftExcept x).isQuiet

/-- The functions that the text of the file at `p` describes. -/
def described (p : Path) (formatName text : String) : Except Fault (List RegionGraph) :=
  match Format.ofName? formatName with
  | none => .error (faultAt p (.unknownFormat formatName))
  | some format => (Document.load format text (some p.text)).mapError .document

/-- What loading from the file at `p` comes to. -/
def fileOutcome (p : Path) (formatName : String) (s : Machine) :
    Except Fault (List RegionGraph) := do
  let name ← formatNameFor p formatName
  let text ← decoded p (s.tree.read s.here p.text)
  described p name text

theorem reports_loadFile (verbosity : Nat) (p : Path) (formatName : String) :
    (loadFile verbosity p formatName : Action (StateM Machine) (List RegionGraph)).Reports
      (fileOutcome p formatName) := by
  rw [loadFile]
  refine (reports_liftExcept _).bind fun name => ?_
  refine (reports_readText p).bind fun text => ?_
  refine (reports_log verbosity _).bind (g := fun _ _ => described p name text) fun _ => ?_
  rw [described]
  cases Format.ofName? name with
  | none => exact reports_throw _
  | some format =>
      refine (reports_forM fun note => reports_log verbosity _).bind
        (g := fun _ _ => (Document.load format text (some p.text)).mapError .document)
        fun _ => ?_
      cases Document.load format text (some p.text) with
      | ok functions => exact reports_pure _
      | error e => exact reports_throw _

/-! ### Choosing functions -/

/-- The name that a value gives. -/
def nameIn : Value → Except Fault String
  | .empty => .error .noName
  | .text name => .ok name

theorem reports_nameOf (value : Value) :
    (nameOf value : Action (StateM Machine) String).Reports fun _ => nameIn value := by
  cases value with
  | empty => exact reports_throw _
  | text name => exact reports_pure _

/-- The functions among `functions` with these names. -/
def chosen (functions : List RegionGraph) (names : List String) :
    Except Fault (List RegionGraph) :=
  (Document.select functions names).mapError fun e => .document (.load e)

/-- What loading from a source comes to. -/
def Source.outcome (source : Source) (s : Machine) : Except Fault (List RegionGraph) := do
  let p ← ((resolve source.input).on s).1
  let p ← probed p (s.tree.stat s.here p.text)
  let functions ← fileOutcome p source.formatName s
  let names ← source.functions.mapM nameIn
  chosen functions names

theorem reports_loadSource (verbosity : Nat) (source : Source) :
    (loadSource verbosity source : Action (StateM Machine) (List RegionGraph)).Reports
      source.outcome := by
  rw [loadSource]
  refine ((reports_findInput source.input).bind fun p =>
    (reports_loadFile verbosity p source.formatName).bind fun functions =>
      (reports_mapM reports_nameOf).bind
        (g := fun names _ => chosen functions names) fun names => ?_).congr fun s => bind_assoc _ _ _
  rw [chosen]
  cases Document.select functions names with
  | ok functions => exact reports_pure _
  | error e => exact reports_throw _

theorem isQuiet_loadSource (verbosity : Nat) (source : Source) :
    (loadSource verbosity source : Action (StateM Machine) (List RegionGraph)).IsQuiet :=
  (reports_loadSource verbosity source).isQuiet

/-! ### When loading succeeds -/

theorem probed_eq_ok_iff {p q : Path} {found : Except FileError FileTree} :
    probed p found = .ok q ↔ found.isOk ∧ q = p := by
  cases found with
  | ok t => simp [probed, Except.isOk, Except.toBool, eq_comm]
  | error e =>
      unfold probed
      dsimp only
      split <;> simp [Except.isOk, Except.toBool]

theorem decoded_eq_ok_iff {p : Path} {found : Except FileError ByteArray} {text : String} :
    decoded p found = .ok text ↔ ∃ content, found = .ok content ∧ Text.ofBytes content = .ok text := by
  cases found with
  | ok content => simp [decoded, mapError_eq_ok_iff]
  | error e => cases e <;> simp [decoded]

theorem described_eq_ok_iff {p : Path} {formatName text : String} {functions : List RegionGraph} :
    described p formatName text = .ok functions ↔ ∃ format,
      Format.ofName? formatName = some format ∧
        Document.load format text (some p.text) = .ok functions := by
  unfold described
  cases Format.ofName? formatName with
  | none => simp
  | some format => simp [mapError_eq_ok_iff]

theorem mapM_nameIn_eq_ok_iff {values : List Value} {names : List String} :
    values.mapM nameIn = .ok names ↔ values = names.map .text := by
  have hname : ∀ value name, nameIn value = .ok name ↔ value = .text name := by
    intro value name
    cases value <;> simp [nameIn]
  rw [mapM_eq_ok_iff]
  simp only [hname]
  constructor
  · intro h
    induction h with
    | nil => rfl
    | cons hfirst _ ih => rw [List.map_cons, hfirst, ih]
  · rintro rfl
    rw [List.forall₂_map_left_iff, List.forall₂_same]
    exact fun _ _ => rfl

namespace Source

/-- The form in which the document at `p` is read. -/
def format? (source : Source) (p : Path) : Option Format :=
  if source.formatName.isEmpty then (Format.ofPath p).toOption
  else Format.ofName? source.formatName

/-- The source is the file at `p` with this content, it is read in this form, and its functions are
asked for by these names. -/
structure Refers (source : Source) (s : Machine) (p : Path) (content : ByteArray)
    (format : Format) (names : List String) : Prop where
  resolve_eq : ((resolve source.input).on s).1 = .ok p
  read_eq : s.tree.read s.here p.text = .ok content
  format_eq : source.format? p = some format
  functions_eq : source.functions = names.map .text

/-- The source is a file whose content is a text that describes functions, and these are the ones
that are asked for. -/
def Loads (source : Source) (s : Machine) (selected : List RegionGraph) : Prop :=
  ∃ p content format names text functions, source.Refers s p content format names ∧
    Text.ofBytes content = .ok text ∧
    Document.load format text (some p.text) = .ok functions ∧
    Document.select functions names = .ok selected

theorem format?_eq_some_iff {source : Source} {p : Path} {format : Format} :
    source.format? p = some format ↔ ∃ name, formatNameFor p source.formatName = .ok name ∧
      Format.ofName? name = some format := by
  have hname : ∀ format : Format, Format.ofName? format.name = some format := by
    intro format
    cases format <;> rfl
  rw [format?, formatNameFor]
  split
  · cases Format.ofPath p with
    | ok found => simp [hname]
    | error fault => simp
  · simp

/-- What choosing functions by name from a file with this content comes to. -/
def contentOutcome (p : Path) (content : ByteArray) (format : Format) (names : List String) :
    Except Fault (List RegionGraph) := do
  let text ← (Text.ofBytes content).mapError .undecodable
  let functions ← (Document.load format text (some p.text)).mapError .document
  chosen functions names

theorem contentOutcome_eq_ok_iff {p : Path} {content : ByteArray} {format : Format}
    {names : List String} {selected : List RegionGraph} :
    contentOutcome p content format names = .ok selected ↔ ∃ text functions,
      Text.ofBytes content = .ok text ∧
      Document.load format text (some p.text) = .ok functions ∧
      Document.select functions names = .ok selected := by
  simp only [contentOutcome, chosen, bind_eq_ok_iff, mapError_eq_ok_iff, exists_and_left]

theorem Refers.outcome_eq {source : Source} {s : Machine} {p : Path} {content : ByteArray}
    {format : Format} {names : List String} (h : source.Refers s p content format names) :
    source.outcome s = contentOutcome p content format names := by
  have hstat : (s.tree.stat s.here p.text).isOk := by
    obtain ⟨found, hfound, _⟩ := bind_eq_ok_iff.mp h.read_eq
    rw [hfound]
    rfl
  have hprobed := (probed_eq_ok_iff (p := p)).mpr ⟨hstat, rfl⟩
  obtain ⟨name, hname, hformat⟩ := format?_eq_some_iff.mp h.format_eq
  have hdescribed : ∀ text, described p name text =
      (Document.load format text (some p.text)).mapError .document := by
    intro text
    rw [described, hformat]
  have hnames := mapM_nameIn_eq_ok_iff.mpr h.functions_eq
  simp only [outcome, fileOutcome, h.resolve_eq, hprobed, hname, h.read_eq, decoded, hdescribed,
    hnames, contentOutcome, bind, Except.bind]
  cases (Text.ofBytes content).mapError Fault.undecodable <;> rfl

theorem outcome_eq_ok_iff {source : Source} {s : Machine} {selected : List RegionGraph} :
    source.outcome s = .ok selected ↔ source.Loads s selected := by
  constructor
  · intro h
    obtain ⟨p, hresolve, h⟩ := bind_eq_ok_iff.mp h
    obtain ⟨q, hprobed, h⟩ := bind_eq_ok_iff.mp h
    obtain ⟨functions, hfile, h⟩ := bind_eq_ok_iff.mp h
    obtain ⟨names, hnames, hchosen⟩ := bind_eq_ok_iff.mp h
    obtain ⟨_, rfl⟩ := probed_eq_ok_iff.mp hprobed
    obtain ⟨name, hname, h⟩ := bind_eq_ok_iff.mp hfile
    obtain ⟨text, hdecoded, hdescribed⟩ := bind_eq_ok_iff.mp h
    obtain ⟨content, hread, htext⟩ := decoded_eq_ok_iff.mp hdecoded
    obtain ⟨format, hformat, hload⟩ := described_eq_ok_iff.mp hdescribed
    exact ⟨q, content, format, names, text, functions,
      ⟨hresolve, hread, format?_eq_some_iff.mpr ⟨name, hname, hformat⟩,
        mapM_nameIn_eq_ok_iff.mp hnames⟩, htext, hload, mapError_eq_ok_iff.mp hchosen⟩
  · rintro ⟨p, content, format, names, text, functions, hrefers, htext, hload, hselect⟩
    rw [hrefers.outcome_eq, contentOutcome_eq_ok_iff]
    exact ⟨text, functions, htext, hload, hselect⟩

end Source

end FlowRegions.Shell

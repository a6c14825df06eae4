import FlowRegions.Proofs.Description.Documents
import FlowRegions.Proofs.Dot.ClusterTree
import FlowRegions.Proofs.Json.Strings
import FlowRegions.Proofs.Shell.DotEffects

/-!
# How printing ends

Printing the functions of a file to the output ends with status zero exactly if the file holds a
document with all of them, and then their drawings are put out. Otherwise nothing is. The status
is one for a text that is no such document, but two for content that is no text at all and for an
integer with too many digits. All this is about content within two limits: strings here hold no
surrogate that stands alone, and reading here never runs out of stack.
-/

namespace FlowRegions

/-! ### How deep a text nests -/

namespace Document

/-- What a place in a text lies in. -/
inductive Span where
  | forms
  | string
  | comment
deriving DecidableEq

/-- A scan of a text up to one place: what the place lies in, whether a backslash stands before it,
and how many calls every bracket takes that is open there, the innermost first. -/
structure Scan where
  span : Span := .forms
  escaped : Bool := false
  opened : List Nat := []

namespace Scan

def opening : Format → List Char
  | .json => ['[', '\x7b']
  | .sexp => ['(', '[']

def closing : Format → List Char
  | .json => [']', '\x7d']
  | .sexp => [')', ']']

/-- Scans one more character. A quotation takes a call that ends with the bracket around it. -/
def next (format : Format) (scan : Scan) (c : Char) : Scan :=
  if scan.escaped then { scan with escaped := false }
  else match scan.span with
    | .comment => if c = '\n' then { scan with span := .forms } else scan
    | .string =>
      if c = '\\' then { scan with escaped := true }
      else if c = '"' then { scan with span := .forms }
      else scan
    | .forms =>
      if c = '\\' then { scan with escaped := true }
      else if c = '"' then { scan with span := .string }
      else if c ∈ opening format then { scan with opened := 1 :: scan.opened }
      else if c ∈ closing format then { scan with opened := scan.opened.tail }
      else if format = .sexp ∧ c = ';' then { scan with span := .comment }
      else if format = .sexp ∧ c = '\'' then
        { scan with opened := (scan.opened.headD 0 + 1) :: scan.opened.tail }
      else scan

end Scan

/-- At no place in the text are more than `limit` calls open. -/
def NestsWithin (format : Format) (limit : Nat) (text : String) : Prop :=
  ∀ scan ∈ text.toList.scanl (Scan.next format) {}, scan.opened.sum ≤ limit

end Document

/-- Whatever a document gives can be drawn. -/
theorem RegionGraph.IsLoaded.exists_draw {rg : RegionGraph} (h : rg.IsLoaded)
    (rendering : Rendering) : ∃ drawing, rendering.draw rg = .ok drawing := by
  obtain ⟨graph, t, hsound, rfl⟩ := h.exists_eq_ofTree
  exact ⟨_, hsound.draw_eq rendering.look _⟩

namespace Shell

open Shell.Action

variable {s s' : Machine} {source : Source} {verbosity : Nat} {rendering : Rendering} {p : Path}
  {content : ByteArray} {format : Format} {names : List String} {selected : List RegionGraph}

/-! ### Content within limits -/

/-- How deep a text may nest. Reading, showing and drawing take at most three calls for one level,
and so a stack of a thousand calls is enough for them. -/
def deepestNesting : Nat := 250

/-- The source refers to a file with content within limits. Beyond them a run can end in other ways:
a string may hold a surrogate that stands alone, which is no character that can be put out, and a
stack of calls may be too small for the text. -/
structure Source.RefersWithinLimits (source : Source) (s : Machine) (p : Path)
    (content : ByteArray) (format : Format) (names : List String) : Prop
    extends source.Refers s p content format names where
  pairs_surrogates : ∀ text, Text.ofBytes content = .ok text → format = .json →
    Json.pairsSurrogates false text.toList = true
  nests_within : ∀ text, Text.ofBytes content = .ok text →
    Document.NestsWithin format deepestNesting text

/-! ### Content that is refused -/

/-- The content is no text in the encoding, or a text with an integer of too many digits. -/
def IsUnreadable (content : ByteArray) (format : Format) : Prop :=
  (∃ e, Text.ofBytes content = .error e) ∨
    ∃ text digits, Text.ofBytes content = .ok text ∧ format = .json ∧
      Json.parse text = .error (.oversized digits)

theorem isUnreadable_iff {text : String} (htext : Text.ofBytes content = .ok text)
    (source? : Option String) : IsUnreadable content format ↔
      ∃ digits, Document.load format text source? = .error (.oversized digits) := by
  simp [IsUnreadable, htext, Document.load_eq_oversized_iff]

theorem status_of_contentOutcome_eq_error {fault : Fault}
    (h : Source.contentOutcome p content format names = .error fault) :
    fault.status = 2 ∧ IsUnreadable content format ∨
      fault.status = 1 ∧ ¬ IsUnreadable content format := by
  rw [Source.contentOutcome] at h
  cases htext : Text.ofBytes content with
  | error e =>
      rw [htext] at h
      obtain rfl := Except.error.inj h
      exact Or.inl ⟨rfl, Or.inl ⟨e, htext⟩⟩
  | ok text =>
      have hunreadable : IsUnreadable content format ↔ _ := isUnreadable_iff htext (some p.text)
      rw [htext] at h
      cases hload : Document.load format text (some p.text) with
      | error e =>
          simp only [bind, Except.bind, Except.mapError, hload] at h
          obtain rfl := Except.error.inj h
          rw [hunreadable, hload]
          cases e with
          | load e => exact Or.inr ⟨rfl, by simp⟩
          | tree e => exact Or.inr ⟨rfl, by simp⟩
          | oversized digits => exact Or.inl ⟨rfl, digits, rfl⟩
      | ok functions =>
          simp only [bind, Except.bind, Except.mapError, hload] at h
          rw [hunreadable, hload]
          refine Or.inr ⟨?_, by simp⟩
          rw [chosen] at h
          cases hselect : Document.select functions names with
          | ok selected =>
              rw [hselect] at h
              cases h
          | error e =>
              rw [hselect] at h
              obtain rfl := Except.error.inj h
              rfl

/-! ### Printing to the output -/

theorem exists_mapM_draw (h : source.Loads s selected) (rendering : Rendering) :
    ∃ drawings, selected.mapM rendering.draw = .ok drawings := by
  obtain ⟨p, content, format, names, text, functions, _, _, hload, hselect⟩ := h
  have hloaded : ∀ rg ∈ selected, rg.IsLoaded := fun rg hrg =>
    ⟨format, text, some p.text, functions, hload, Document.mem_of_mem_select hselect hrg⟩
  clear hselect
  induction selected with
  | nil => exact ⟨[], rfl⟩
  | cons rg rest ih =>
      rw [List.forall_mem_cons] at hloaded
      obtain ⟨drawing, hdraw⟩ := hloaded.1.exists_draw rendering
      obtain ⟨drawings, hdraws⟩ := ih hloaded.2
      rw [List.mapM_cons, hdraw, hdraws]
      exact ⟨_, rfl⟩

/-- Makes the drawings that are printed. -/
def drawAll (verbosity : Nat) (source : Source) (rendering : Rendering) :
    Action (StateM Machine) (List Dot.Drawing) := do
  let functions ← loadSource verbosity source
  functions.mapM (draw verbosity rendering)

theorem reports_drawAll (verbosity : Nat) (source : Source) (rendering : Rendering) :
    (drawAll verbosity source rendering).Reports fun s => source.outcome s >>= fun functions =>
      functions.mapM fun rg => (rendering.draw rg).mapError .notAnalysed :=
  (reports_loadSource verbosity source).bind fun _ =>
    reports_mapM fun rg => reports_draw verbosity rendering rg

/-- The target stands for the output. -/
def IsOutput (target? : Option Value) : Prop :=
  target? = none ∨ target? = some (.text "-")

section

variable {target? : Option Value}

theorem on_execute_print (htarget : IsOutput target?) :
    ((Command.print source rendering target?).execute verbosity).on s =
      on (drawAll verbosity source rendering >>= fun drawings =>
        liftM (Host.emit .out (String.join (drawings.map Dot.Drawing.text)) :
          StateM Machine Unit)) s := by
  have hopen : (openTarget target?).on s = (.ok none, s) := by
    rcases htarget with rfl | rfl <;> rfl
  rw [Command.execute, on_bind_of_ok hopen, drawAll, bind_assoc]

theorem on_execute_print_of_loads (htarget : IsOutput target?) (h : source.Loads s selected)
    {drawings : List Dot.Drawing} (hdraw : selected.mapM rendering.draw = .ok drawings) :
    ∃ report, ((Command.print source rendering target?).execute verbosity).on s = (.ok (),
      { s with
        out := s.out ++ String.join (drawings.map Dot.Drawing.text)
        err := s.err ++ report }) := by
  have hdraws : selected.mapM (fun rg => (rendering.draw rg).mapError Fault.notAnalysed) =
      .ok drawings := by
    rw [mapM_eq_ok_iff] at hdraw ⊢
    exact hdraw.imp fun rg drawing => mapError_eq_ok_iff.mpr
  obtain ⟨report, hall⟩ := (reports_drawAll verbosity source rendering).on_eq s
  rw [Source.outcome_eq_ok_iff.mpr h] at hall
  have hall : (drawAll verbosity source rendering).on s =
      (.ok drawings, { s with err := s.err ++ report }) := by
    rw [← hdraws]
    exact hall
  refine ⟨report, ?_⟩
  rw [on_execute_print htarget, on_bind_of_ok hall]
  rfl

theorem on_execute_print_of_outcome_eq_error (htarget : IsOutput target?) {fault : Fault}
    (h : source.outcome s = .error fault) :
    ∃ report, ((Command.print source rendering target?).execute verbosity).on s =
      (.error fault, { s with err := s.err ++ report }) := by
  obtain ⟨report, hall⟩ := (reports_drawAll verbosity source rendering).on_eq s
  rw [h] at hall
  exact ⟨report, (on_execute_print htarget).trans (on_bind_of_error hall _)⟩

/-- How printing the functions of a file to the output ends, where its content is within limits. The
status is zero exactly if the file
holds a document with all functions that are asked for; then their drawings are put out, one behind
the other. With any other status nothing is put out. The status two means that the content is no
text or has an integer with too many digits, and every other content that is refused has the status
one. -/
theorem print_status {arguments : List String}
    (harguments : Invocation.ofArguments arguments =
      .ok ⟨verbosity, some (.print source rendering target?)⟩)
    (htarget : IsOutput target?)
    (hsource : source.RefersWithinLimits s p content format names) :
    ∃ status printed report, (runProgram arguments : StateM Machine Nat).run s =
        (status, { s with out := s.out ++ printed, err := s.err ++ report }) ∧
      (status = 0 ↔ ∃ text functions, Text.ofBytes content = .ok text ∧
        Document.load format text (some p.text) = .ok functions ∧
        ∀ name ∈ names, ∃ rg ∈ functions, rg.name = name) ∧
      (status = 2 ↔ IsUnreadable content format) ∧
      (status = 0 ∨ status = 1 ∨ status = 2) ∧
      (status ≠ 0 → printed = "") ∧
      (status = 0 → ∃ selected drawings, source.Loads s selected ∧
        List.Forall₂ (fun rg drawing => rendering.draw rg = .ok drawing) selected drawings ∧
        printed = String.join (drawings.map Dot.Drawing.text)) := by
  have hloads : (∃ selected, source.outcome s = .ok selected) ↔
      ∃ text functions, Text.ofBytes content = .ok text ∧
        Document.load format text (some p.text) = .ok functions ∧
        ∀ name ∈ names, ∃ rg ∈ functions, rg.name = name := by
    simp only [hsource.outcome_eq, Source.contentOutcome_eq_ok_iff,
      ← Document.exists_select_eq_ok_iff]
    constructor
    · rintro ⟨selected, text, functions, htext, hload, hselect⟩
      exact ⟨text, functions, htext, hload, selected, hselect⟩
    · rintro ⟨text, functions, htext, hload, selected, hselect⟩
      exact ⟨selected, text, functions, htext, hload, hselect⟩
  rw [← hloads]
  cases houtcome : source.outcome s with
  | ok selected =>
      have hselected := Source.outcome_eq_ok_iff.mp houtcome
      obtain ⟨drawings, hdraw⟩ := exists_mapM_draw hselected rendering
      obtain ⟨report, hexecute⟩ := on_execute_print_of_loads htarget hselected hdraw
      refine ⟨0, _, report, runProgram_of_ok harguments hexecute, by simp, ?_, Or.inl rfl, by simp,
        fun _ => ⟨selected, drawings, hselected, mapM_eq_ok_iff.mp hdraw, rfl⟩⟩
      rw [hsource.outcome_eq, Source.contentOutcome_eq_ok_iff] at houtcome
      obtain ⟨text, functions, htext, hload, _⟩ := houtcome
      simp [isUnreadable_iff htext (some p.text), hload]
  | error fault =>
      obtain ⟨report, hexecute⟩ := on_execute_print_of_outcome_eq_error htarget houtcome
      obtain ⟨report', hrun⟩ := runProgram_of_fault harguments hexecute
      rw [hsource.outcome_eq] at houtcome
      have hfault := status_of_contentOutcome_eq_error houtcome
      refine ⟨fault.status, "", report ++ report', ?_, by simp [fault.status_ne_zero], ?_,
        Or.inr (hfault.symm.imp And.left And.left), fun _ => rfl,
        fun hzero => absurd hzero fault.status_ne_zero⟩
      · rw [hrun, String.append_empty, String.append_assoc]
      · rcases hfault with ⟨hstatus, h⟩ | ⟨hstatus, h⟩
        · simp [hstatus, h]
        · simp [hstatus, h]

end

/-- A machine with a document of two functions. -/
def twoFunctions : Machine := oneDocument "(function f (block a)) (function g (block b))"

theorem refersWithinLimits_twoFunctions :
    Source.RefersWithinLimits { input := .text "in.sexp", functions := [.text "g"] } twoFunctions
      ⟨"/", ["in.sexp"]⟩ "(function f (block a)) (function g (block b))".toUTF8 .sexp ["g"] where
  resolve_eq := by rfl
  read_eq := by rfl
  format_eq := by decide +kernel
  functions_eq := rfl
  pairs_surrogates _ _ hformat := by cases hformat
  nests_within text h := by
    have htext : Text.ofBytes "(function f (block a)) (function g (block b))".toUTF8 =
        .ok "(function f (block a)) (function g (block b))" := by decide +kernel
    rw [htext] at h
    rw [← Except.ok.inj h, Document.NestsWithin]
    decide +kernel

/-- One function of two is asked for and printed. -/
theorem print_status_named : ∃ g drawing report,
    g.name = "g" ∧ ({} : Rendering).draw g = .ok drawing ∧
    (runProgram ["print", "in.sexp", "--function", "g"] : StateM Machine Nat).run twoFunctions =
      (0, { twoFunctions with out := drawing.text, err := report }) := by
  have harguments : Invocation.ofArguments ["print", "in.sexp", "--function", "g"] =
      .ok ⟨0, some (.print { input := .text "in.sexp", functions := [.text "g"] } {} none)⟩ := by
    decide +kernel
  have hstatus : ((runProgram ["print", "in.sexp", "--function", "g"] : StateM Machine Nat).run
      twoFunctions).1 = 0 := by decide +kernel
  have hnames : (Source.outcome { input := .text "in.sexp", functions := [.text "g"] }
      twoFunctions).toOption.map (List.map RegionGraph.name) = some ["g"] := by decide +kernel
  obtain ⟨status, printed, report, hrun, _, _, _, _, hprinted⟩ :=
    print_status harguments (Or.inl rfl) refersWithinLimits_twoFunctions
  rw [hrun] at hstatus
  obtain rfl : status = 0 := hstatus
  obtain ⟨selected, drawings, hloads, hdraws, rfl⟩ := hprinted rfl
  rw [Source.outcome_eq_ok_iff.mpr hloads] at hnames
  obtain ⟨g, rfl, hg⟩ := List.map_eq_singleton_iff.mp (Option.some.inj hnames)
  obtain ⟨drawing, rest, hdraw, hrest, rfl⟩ := List.forall₂_cons_left_iff.mp hdraws
  obtain rfl := List.forall₂_nil_left_iff.mp hrest
  have hout : twoFunctions.out ++ String.join (List.map Dot.Drawing.text [drawing]) =
      drawing.text := by simp [String.join, twoFunctions, oneDocument]
  rw [hout] at hrun
  exact ⟨g, drawing, _, hg, hdraw, hrun⟩

/-- A machine with a file that holds one byte and no text. -/
def noText : Machine where
  tree := .directory [("in.json", .file ⟨#[0xff]⟩)]

/-- A file that is no text ends a run like a file that is missing. -/
theorem print_status_undecodable :
    noText.tree.content? ["in.json"] = some ⟨#[0xff]⟩ ∧
    ((runProgram ["print", "in.json"] : StateM Machine Nat).run noText).1 = 2 ∧
    ((runProgram ["print", "none.json"] : StateM Machine Nat).run noText).1 = 2 := by
  decide +kernel

end Shell

end FlowRegions

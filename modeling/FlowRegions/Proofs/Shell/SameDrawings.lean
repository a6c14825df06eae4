import FlowRegions.Proofs.Shell.DotEffects
import FlowRegions.Proofs.Shell.Notes
import FlowRegions.Proofs.Shell.PrintEffects
import FlowRegions.Proofs.Shell.PrintStatus

/-!
# Printing and drawing to files

The same input with the same options gives the same drawings, whether they are printed one behind
the other or each is drawn to a file of its own. Printing to a file opens it before anything is
loaded, so the input must be another file: printed onto itself it is empty before it is read.
-/

namespace FlowRegions.Shell

open Shell.Action

variable {s s' s₁ : Machine} {source : Source} {verbosity : Nat} {rendering : Rendering}
  {selected : List RegionGraph} {drawings : List Dot.Drawing} {target? : Option Value}

/-- The source gives these functions on the machine, and these are their drawings. -/
structure Source.Draws (source : Source) (rendering : Rendering) (s : Machine)
    (selected : List RegionGraph) (drawings : List Dot.Drawing) : Prop where
  loads : source.Loads s selected
  drawn : List.Forall₂ (fun rg drawing => rendering.draw rg = .ok drawing) selected drawings

theorem Source.Draws.unique (h : source.Draws rendering s selected drawings)
    {selected' : List RegionGraph} {drawings' : List Dot.Drawing}
    (h' : source.Draws rendering s selected' drawings') :
    selected' = selected ∧ drawings' = drawings := by
  have hselected : selected' = selected := by
    have hloads := Source.outcome_eq_ok_iff.mpr h.loads
    rw [Source.outcome_eq_ok_iff.mpr h'.loads] at hloads
    exact Except.ok.inj hloads
  refine ⟨hselected, ?_⟩
  have hdrawn := mapM_eq_ok_iff.mpr h.drawn
  rw [← hselected, mapM_eq_ok_iff.mpr h'.drawn] at hdrawn
  exact Except.ok.inj hdrawn

/-- The documents of drawings, one behind the other. -/
def documents (drawings : List Dot.Drawing) : String :=
  String.join (drawings.map Dot.Drawing.text)

/-! ### Printing -/

/-- What the functions of the input were printed as: put out, or written to the file that is the
target. -/
inductive Printed (s : Machine) (target? : Option Value) (text : String) (s' : Machine) : Prop
  | out (target_eq : IsOutput target?) (tree_eq : s'.tree = s.tree)
      (out_eq : s'.out = s.out ++ text)
  | file {p : Path} {l : Location} {opened : Machine}
      (opens : (openTarget target?).on s = (.ok (some p), opened))
      (wrote : Wrote s p l text.toUTF8 s') (out_eq : s'.out = s.out)

/-- The input is there, and it is not the file that is emptied when the target is opened. Nothing is
opened if the target stands for the output. -/
def Source.IsApart (source : Source) (target? : Option Value) (s : Machine) : Prop :=
  ∀ p opened, (openTarget target?).on s = (.ok (some p), opened) →
    ∃ q l, ((resolve source.input).on s).1 = .ok q ∧ s.tree.find s.here q.text = .ok l ∧
      opened.tree.find opened.here p.text ≠ .ok l

theorem draws_of_on_drawAll (h : (drawAll verbosity source rendering).on s = (.ok drawings, s')) :
    SameFiles s s' ∧ s'.out = s.out ∧ ∃ selected, source.Draws rendering s selected drawings := by
  have hreports := reports_drawAll verbosity source rendering
  obtain ⟨report, hon⟩ := hreports.on_eq s
  rw [h] at hon
  obtain ⟨hresult, rfl⟩ := Prod.mk.inj hon
  refine ⟨⟨rfl, rfl, rfl⟩, rfl, ?_⟩
  obtain ⟨selected, hloads, hdraws⟩ := bind_eq_ok_iff.mp hresult.symm
  refine ⟨selected, Source.outcome_eq_ok_iff.mp hloads, ?_⟩
  exact (mapM_eq_ok_iff.mp hdraws).imp fun rg drawing => mapError_eq_ok_iff.mp

theorem isOutput_of_openTarget (h : (openTarget target?).on s = (.ok none, s₁)) :
    IsOutput target? := by
  cases target? with
  | none => exact Or.inl rfl
  | some value =>
      rw [openTarget] at h
      split at h
      · next hvalue => exact Or.inr (congrArg some hvalue)
      · obtain ⟨p, _, _, hrest⟩ := exists_of_on_bind h
        obtain ⟨_, _, _, hreturn⟩ := exists_of_on_bind hrest
        cases (Prod.mk.inj hreturn).1

/-- What is loaded once a file was opened could be loaded before, unless it comes from that file. -/
theorem Wrote.loads {p q : Path} {l l' : Location} (h : Wrote s p l .empty s₁)
    (hhere : s.tree.HasDirectory s.here) (hresolve : ((resolve source.input).on s).1 = .ok q)
    (hfind : s.tree.find s.here q.text = .ok l') (hne : l' ≠ l)
    (hloads : source.Loads s₁ selected) : source.Loads s selected := by
  obtain ⟨q', content, format, names, text, functions, hrefers, hdescribed⟩ := hloads
  have hsame := hrefers.resolve_eq
  rw [on_resolve_congr h.here_eq h.homes_eq, hresolve] at hsame
  obtain rfl := Except.ok.inj hsame
  refine ⟨q, content, format, names, text, functions,
    ⟨hresolve, ?_, hrefers.format_eq, hrefers.functions_eq⟩, hdescribed⟩
  obtain ⟨l'', hfind', hcontent⟩ := FileTree.read_eq_ok_iff.mp hrefers.read_eq
  rw [h.here_eq, FileTree.find_of_keeps h.keeps hhere hfind] at hfind'
  obtain rfl := Except.ok.inj hfind'
  rw [h.keeps.contents l' hne] at hcontent
  exact FileTree.read_eq_ok_iff.mpr ⟨l', hfind, hcontent⟩

/-- What is printed are the drawings of the input as it is once the target was opened, which are the
drawings of the input as it was if the target is another file. -/
theorem exists_of_on_execute_print (hhere : s.tree.HasDirectory s.here)
    (h : ((Command.print source rendering target?).execute verbosity).on s = (.ok (), s')) :
    ∃ p? opened selected drawings, (openTarget target?).on s = (.ok p?, opened) ∧
      source.Draws rendering opened selected drawings ∧
      Printed s target? (documents drawings) s' ∧
      (source.IsApart target? s → source.Draws rendering s selected drawings) := by
  rw [Command.execute] at h
  obtain ⟨p?, opened, hopen, hrest⟩ := exists_of_on_bind h
  obtain ⟨functions, loaded, hload, hrest⟩ := exists_of_on_bind hrest
  obtain ⟨drawings, drawn, hmap, hlast⟩ := exists_of_on_bind hrest
  have hdraw : (drawAll verbosity source rendering).on opened = (.ok drawings, drawn) :=
    (on_bind_of_ok hload _).trans hmap
  obtain ⟨hsame, hout, selected, hdraws⟩ := draws_of_on_drawAll hdraw
  refine ⟨p?, opened, selected, drawings, hopen, hdraws, ?_⟩
  obtain ⟨_, _, hopenedOut, _⟩ := (@notes_openTarget 0 target?).exists_entries hopen
  rcases openTarget_eq_ok hhere hopen with ⟨rfl, rfl⟩ | ⟨p, l, rfl, hopened⟩
  · obtain ⟨_, rfl⟩ := Prod.mk.inj hlast
    exact ⟨.out (isOutput_of_openTarget hopen) hsame.tree_eq
      (congrArg (· ++ documents drawings) hout), fun _ => hdraws⟩
  · have hdrawn := hopened.after hsame
    obtain ⟨l', hwritten⟩ := wrote_of_on_write (hdrawn.hasDirectory_here hhere) hlast
    obtain ⟨_, _, hwrittenOut, _⟩ := (@notes_write 0 p _).exists_entries hlast
    refine ⟨.file hopen (hdrawn.trans hwritten hhere) (hwrittenOut.trans (hout.trans hopenedOut)),
      fun hapart => ⟨?_, hdraws.drawn⟩⟩
    obtain ⟨q, place, hresolve, hfind, hne⟩ := hapart p opened hopen
    refine hopened.loads hhere hresolve hfind ?_ hdraws.loads
    rintro rfl
    exact hne hopened.find_eq

/-! ### Drawing to files -/

/-- The line about a file that was written. -/
def announcement (p : Path) : String := s!"Writing '{p.text}'...\n"

/-- The report on one function: log entries about the progress, and the line about its file. -/
def IsReport (verbosity : Nat) (p : Path) (report : String) : Prop :=
  ∃ entries : List LogEntry, (∀ e ∈ entries, e.severity ≠ .error) ∧
    report = logText verbosity entries ++ announcement p

theorem IsReport.eq_of_zero {p : Path} {report : String} (h : IsReport 0 p report) :
    report = announcement p := by
  obtain ⟨entries, hentries, rfl⟩ := h
  rw [logText_zero hentries, String.empty_append]

theorem on_announce (p : Path) (s : Machine) :
    (announce p).on s = (.ok (), { s with err := s.err ++ announcement p }) := rfl

theorem eq_of_on_writeDrawing {directory p : Path} {rg : RegionGraph}
    (h : (writeDrawing verbosity rendering directory rg).on s = (.ok p, s')) :
    p = drawingPath rendering directory rg := by
  rw [writeDrawing] at h
  obtain ⟨_, _, _, hrest⟩ := exists_of_on_bind h
  obtain ⟨_, _, _, hrest⟩ := exists_of_on_bind hrest
  obtain ⟨_, _, _, hrest⟩ := exists_of_on_bind hrest
  obtain ⟨_, _, _, hreturn⟩ := exists_of_on_bind hrest
  exact (Except.ok.inj (Prod.mk.inj hreturn).1).symm

/-- Every function is told of once, in order. -/
theorem exists_reports_of_on_drawEach {directory : Path}
    (h : (drawEach verbosity rendering directory selected).on s = (.ok (), s')) :
    s'.out = s.out ∧ ∃ reports : List String,
      List.Forall₂ (fun rg => IsReport verbosity (drawingPath rendering directory rg))
        selected reports ∧
      s'.err = s.err ++ String.join reports := by
  induction selected generalizing s with
  | nil =>
      obtain ⟨_, rfl⟩ := Prod.mk.inj h
      exact ⟨rfl, [], .nil, String.append_empty.symm⟩
  | cons rg rest ih =>
      obtain ⟨_, announced, hfirst, hrest⟩ := exists_of_on_bind h
      obtain ⟨p, drawn, hdraw, hannounce⟩ := exists_of_on_bind hfirst
      obtain ⟨entries, hentries, hout, herr⟩ :=
        (notes_writeDrawing rendering directory rg).exists_entries hdraw
      obtain rfl := eq_of_on_writeDrawing hdraw
      rw [on_bind_of_ok (on_announce _ drawn)] at hannounce
      obtain ⟨_, rfl⟩ := Prod.mk.inj hannounce
      obtain ⟨hout', reports, hreports, herr'⟩ := ih hrest
      refine ⟨hout'.trans hout, _ :: reports, .cons ⟨entries, hentries, rfl⟩ hreports, ?_⟩
      rw [herr']
      dsimp only
      rw [herr, String.join_cons, String.append_assoc, String.append_assoc, String.append_assoc]

/-- Every function was drawn to a file: the paths lead to these places, and the drawings are there
if the places are distinct. Other files are as they were, and there is one line about every file. -/
structure DrawnEach (s : Machine) (verbosity : Nat) (rendering : Rendering) (directory : Path)
    (selected : List RegionGraph) (drawings : List Dot.Drawing) (places : List Location)
    (s' : Machine) : Prop where
  found : List.Forall₂ (fun rg place =>
    s'.tree.find s.here (drawingPath rendering directory rg).text = .ok place) selected places
  contents : places.Nodup → List.Forall₂ (fun place (drawing : Dot.Drawing) =>
    s'.tree.content? place = some drawing.text.toUTF8) places drawings
  kept : ∀ l, l ∉ places → s'.tree.content? l = s.tree.content? l
  out_eq : s'.out = s.out
  told : ∃ (entries : List LogEntry) (reports : List String),
    (∀ e ∈ entries, e.severity ≠ .error) ∧
    List.Forall₂ (fun rg => IsReport verbosity (drawingPath rendering directory rg))
      selected reports ∧
    s'.err = s.err ++ logText verbosity entries ++ String.join reports

theorem DrawnEach.err_eq {directory : Path} {places : List Location}
    (h : DrawnEach s 0 rendering directory selected drawings places s') :
    s'.err = s.err ++
      String.join (selected.map fun rg => announcement (drawingPath rendering directory rg)) := by
  obtain ⟨entries, reports, hentries, hreports, herr⟩ := h.told
  have hplain : selected.map (fun rg => announcement (drawingPath rendering directory rg)) =
      reports := by
    rw [← List.forall₂_eq_eq_eq, List.forall₂_map_left_iff]
    exact hreports.imp fun rg report hreport => hreport.eq_of_zero.symm
  rw [herr, logText_zero hentries, String.append_empty, hplain]

theorem texts_of_isDrawn {t : FileTree} {here : Location} {directory : Path}
    {writes : List (Location × ByteArray)}
    (hwrites : List.Forall₂ (IsDrawn t here rendering directory) selected writes)
    (hdrawn : List.Forall₂ (fun rg drawing => rendering.draw rg = .ok drawing) selected drawings) :
    List.Forall₂ (fun write (drawing : Dot.Drawing) => write.2 = drawing.text.toUTF8)
      writes drawings := by
  induction hwrites generalizing drawings with
  | nil =>
      obtain rfl := List.forall₂_nil_left_iff.mp hdrawn
      exact .nil
  | cons hfirst _ ih =>
      obtain ⟨drawing, rest, hdrawing, hrest, rfl⟩ := List.forall₂_cons_left_iff.mp hdrawn
      obtain ⟨drawing', hdrawing', htext⟩ := hfirst.drawn
      rw [hdrawing] at hdrawing'
      obtain rfl := Except.ok.inj hdrawing'
      exact .cons htext (ih hrest)

theorem exists_of_on_execute_dot {directory : String} (hhere : s.tree.HasDirectory s.here)
    (h : ((Command.dot source rendering directory none).execute verbosity).on s = (.ok (), s')) :
    ∃ selected drawings places, source.Draws rendering s selected drawings ∧
      DrawnEach s verbosity rendering (.ofString directory) selected drawings places s' := by
  rw [execute_dot] at h
  obtain ⟨selected, loaded, hload, hdraw⟩ := exists_of_on_bind h
  have hloads : source.Loads s selected := by
    have hresult := (reports_loadSource verbosity source).fst_on s
    rw [hload] at hresult
    exact Source.outcome_eq_ok_iff.mp hresult.symm
  obtain ⟨drawings, hdraws⟩ := exists_mapM_draw hloads rendering
  have hdrawn := mapM_eq_ok_iff.mp hdraws
  have hloaded := (isQuiet_loadSource verbosity source).sameFiles hload
  obtain ⟨hlast, writes, hwrites, hkeeps, hcontents⟩ :=
    exists_of_on_drawEach (hloaded.hasDirectory_here hhere) hdraw
  obtain ⟨entries, hentries, hout, herr⟩ := (notes_loadSource source).exists_entries hload
  obtain ⟨hout', reports, hreports, herr'⟩ := exists_reports_of_on_drawEach hdraw
  rw [hlast, hloaded.here_eq] at hwrites
  rw [hloaded.tree_eq] at hkeeps
  refine ⟨selected, drawings, writes.map (·.1), ⟨hloads, hdrawn⟩, ?_, fun hnodup => ?_,
    hkeeps.contents, hout'.trans hout, entries, reports, hentries, hreports, ?_⟩
  · rw [List.forall₂_map_right_iff]
    exact hwrites.imp fun rg write => IsDrawn.found
  · rw [List.forall₂_map_left_iff]
    have hstays : ∀ write ∈ writes, s'.tree.content? write.1 = some write.2 := by
      intro write hwrite
      rw [hcontents, lookup_reverse_of_mem hnodup hwrite, Option.some_or]
    exact ((List.forall₂_and_left _ _).mpr ⟨hstays, texts_of_isDrawn hwrites hdrawn⟩).imp
      fun write drawing hwrite => hwrite.2 ▸ hwrite.1
  · rw [herr', herr]

/-! ### Both commands -/

section

variable {printArguments dotArguments : List String} {verbosity' : Nat} {directory : String}

/-- The same input and options have the same drawings, however they are asked for. Where printing
succeeds, it gives the drawings one behind the other, of the input as it is once the target was
opened. Where drawing to files succeeds, it leaves each drawing in a file of its own, if the files
are distinct, and no other file is changed. -/
theorem print_and_dot_draw_alike
    (hprint : Invocation.ofArguments printArguments =
      .ok ⟨verbosity, some (.print source rendering target?)⟩)
    (hdot : Invocation.ofArguments dotArguments =
      .ok ⟨verbosity', some (.dot source rendering directory none)⟩)
    (hhere : s.tree.HasDirectory s.here) :
    (((runProgram printArguments : StateM Machine Nat).run s).1 = 0 →
      ∃ p? opened selected drawings, (openTarget target?).on s = (.ok p?, opened) ∧
        source.Draws rendering opened selected drawings ∧
        Printed s target? (documents drawings)
          ((runProgram printArguments : StateM Machine Nat).run s).2 ∧
        (source.IsApart target? s → source.Draws rendering s selected drawings)) ∧
    (((runProgram dotArguments : StateM Machine Nat).run s).1 = 0 →
      ∃ selected drawings places, source.Draws rendering s selected drawings ∧
        DrawnEach s verbosity' rendering (.ofString directory) selected drawings places
          ((runProgram dotArguments : StateM Machine Nat).run s).2) ∧
    ∀ selected drawings selected' drawings', source.Draws rendering s selected drawings →
      source.Draws rendering s selected' drawings' →
        selected' = selected ∧ drawings' = drawings := by
  refine ⟨fun hzero => ?_, fun hzero => ?_, fun _ _ _ _ hdraws hdraws' => hdraws.unique hdraws'⟩
  · obtain ⟨s', hexecute, hrun⟩ := exists_of_status_eq_zero hprint hzero
    rw [hrun]
    exact exists_of_on_execute_print hhere hexecute
  · obtain ⟨s', hexecute, hrun⟩ := exists_of_status_eq_zero hdot hzero
    rw [hrun]
    exact exists_of_on_execute_dot hhere hexecute

end

/-- Two functions, printed to one file and drawn to two. -/
theorem print_and_dot_draw_alike_twoFunctions : ∃ selected drawings,
    selected.map RegionGraph.name = ["f", "g"] ∧
    Source.Draws { input := .text "in.sexp" } {} twoFunctions selected drawings ∧
    Printed twoFunctions (some (.text "all.dot")) (documents drawings)
      ((runProgram ["print", "in.sexp", "-o", "all.dot"] : StateM Machine Nat).run
        twoFunctions).2 ∧
    ∃ places, places.length = 2 ∧
      DrawnEach twoFunctions 0 {} (.ofString "out") selected drawings places
        ((runProgram ["dot", "in.sexp", "-o", "out"] : StateM Machine Nat).run twoFunctions).2 := by
  have hprint : Invocation.ofArguments ["print", "in.sexp", "-o", "all.dot"] =
      .ok ⟨0, some (.print { input := .text "in.sexp" } {} (some (.text "all.dot")))⟩ := by
    decide +kernel
  have hdot : Invocation.ofArguments ["dot", "in.sexp", "-o", "out"] =
      .ok ⟨0, some (.dot { input := .text "in.sexp" } {} "out" none)⟩ := by decide +kernel
  have hprinted : ((runProgram ["print", "in.sexp", "-o", "all.dot"] : StateM Machine Nat).run
      twoFunctions).1 = 0 := by decide +kernel
  have hdrawn : ((runProgram ["dot", "in.sexp", "-o", "out"] : StateM Machine Nat).run
      twoFunctions).1 = 0 := by decide +kernel
  have hnames : (Source.outcome { input := .text "in.sexp" } twoFunctions).toOption.map
      (List.map RegionGraph.name) = some ["f", "g"] := by decide +kernel
  have hopened : ((openTarget (some (.text "all.dot"))).on twoFunctions).1.toOption =
      some (some ⟨"/", ["all.dot"]⟩) := by decide +kernel
  have hapart : Source.IsApart { input := .text "in.sexp" } (some (.text "all.dot"))
      twoFunctions := by
    intro p opened hopen
    have hplace : ((openTarget (some (.text "all.dot"))).on twoFunctions).2.tree.find
        ((openTarget (some (.text "all.dot"))).on twoFunctions).2.here "/all.dot" ≠
          .ok ["in.sexp"] := by decide +kernel
    rw [hopen] at hopened hplace
    obtain rfl : p = ⟨"/", ["all.dot"]⟩ := Option.some.inj (Option.some.inj hopened)
    exact ⟨⟨"/", ["in.sexp"]⟩, ["in.sexp"], by rfl, by rfl, hplace⟩
  obtain ⟨hfile, heach, hsame⟩ := print_and_dot_draw_alike hprint hdot (s := twoFunctions) ⟨_, rfl⟩
  obtain ⟨_, _, selected, drawings, _, _, hfile, hdraws⟩ := hfile hprinted
  have hdraws := hdraws hapart
  obtain ⟨selected', drawings', places, hdraws', heach⟩ := heach hdrawn
  obtain ⟨hselected, hdrawings⟩ := hsame selected drawings selected' drawings' hdraws hdraws'
  rw [hselected, hdrawings] at heach
  rw [Source.outcome_eq_ok_iff.mpr hdraws.loads] at hnames
  have hnames : selected.map RegionGraph.name = ["f", "g"] := Option.some.inj hnames
  refine ⟨selected, drawings, hnames, hdraws, hfile, places, ?_, heach⟩
  rw [← heach.found.length_eq, ← List.length_map, hnames]
  rfl

/-- A document with a function that is printed onto itself is lost and nothing is left, where its
drawing has a text and is what drawing to files gives. -/
theorem print_onto_input_draws_nothing : ∃ selected drawings places,
    Source.Draws { input := .text "in.sexp" } {} (oneDocument "(function f (block a))")
      selected drawings ∧
    documents drawings ≠ "" ∧
    ((runProgram ["print", "in.sexp", "-o", "in.sexp"] : StateM Machine Nat).run
      (oneDocument "(function f (block a))")).1 = 0 ∧
    ((runProgram ["print", "in.sexp", "-o", "in.sexp"] : StateM Machine Nat).run
      (oneDocument "(function f (block a))")).2.tree.content? ["in.sexp"] = some .empty ∧
    ((runProgram ["dot", "in.sexp", "-o", "out"] : StateM Machine Nat).run
      (oneDocument "(function f (block a))")).1 = 0 ∧
    DrawnEach (oneDocument "(function f (block a))") 0 {} (.ofString "out") selected drawings places
      ((runProgram ["dot", "in.sexp", "-o", "out"] : StateM Machine Nat).run
        (oneDocument "(function f (block a))")).2 := by
  have hdot : Invocation.ofArguments ["dot", "in.sexp", "-o", "out"] =
      .ok ⟨0, some (.dot { input := .text "in.sexp" } {} "out" none)⟩ := by decide +kernel
  have hzero : ((runProgram ["dot", "in.sexp", "-o", "out"] : StateM Machine Nat).run
      (oneDocument "(function f (block a))")).1 = 0 := by decide +kernel
  have htext : ((Source.outcome { input := .text "in.sexp" }
      (oneDocument "(function f (block a))")).bind fun selected =>
        (selected.mapM ({} : Rendering).draw).mapError .notAnalysed).toOption.map
          (fun drawings => (documents drawings).isEmpty) = some false := by decide +kernel
  obtain ⟨s', hexecute, hrun⟩ := exists_of_status_eq_zero hdot hzero
  obtain ⟨selected, drawings, places, hdraws, hdrawn⟩ := exists_of_on_execute_dot ⟨_, rfl⟩ hexecute
  rw [hrun]
  refine ⟨selected, drawings, places, hdraws, fun hempty => ?_, by decide +kernel,
    by decide +kernel, rfl, hdrawn⟩
  rw [Source.outcome_eq_ok_iff.mpr hdraws.loads, Except.bind,
    mapM_eq_ok_iff.mpr hdraws.drawn] at htext
  have htext : (documents drawings).isEmpty = false := Option.some.inj htext
  rw [hempty] at htext
  cases htext

end FlowRegions.Shell

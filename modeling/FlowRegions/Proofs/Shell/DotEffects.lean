import FlowRegions.Proofs.Files.PathText
import FlowRegions.Proofs.Shell.Loading
import Mathlib.Data.List.Forall2
import Mathlib.Data.List.Nodup

/-!
# What drawing to files does

Every function is drawn to a file of its own name. The files are written one after the other, and
what is written last at a location stays. So each function has its file as long as the file names
are distinct and have no slashes; then nothing else is written either.
-/

namespace FlowRegions.Shell

open Shell.Action

variable {s s' s₁ : Machine} {rendering : Rendering} {directory : Path} {rg : RegionGraph}
  {functions : List RegionGraph} {writes : List (Location × ByteArray)}

/-- Where the drawing of a function goes, and its text. -/
structure IsDrawn (t : FileTree) (here : Location) (rendering : Rendering) (directory : Path)
    (rg : RegionGraph) (write : Location × ByteArray) : Prop where
  found : t.find here (drawingPath rendering directory rg).text = .ok write.1
  drawn : ∃ drawing, rendering.draw rg = .ok drawing ∧ write.2 = drawing.text.toUTF8

/-! ### One drawing -/

theorem eq_ok_of_on_draw {verbosity : Nat} {drawing : Dot.Drawing}
    (h : (draw verbosity rendering rg).on s = (.ok drawing, s')) :
    rendering.draw rg = .ok drawing := by
  rw [draw] at h
  cases hdraw : rendering.draw rg with
  | error e =>
      rw [hdraw] at h
      cases h
  | ok drawing' =>
      rw [hdraw] at h
      obtain ⟨_, _, _, h⟩ := exists_of_on_bind h
      obtain ⟨_, _, _, h⟩ := exists_of_on_bind h
      exact congrArg Except.ok (Except.ok.inj (Prod.mk.inj h).1)

/-- Writing a drawing leaves its text at the location of its path and touches nothing else. -/
theorem wrote_of_on_writeDrawing {verbosity : Nat} {p : Path} (hhere : s.tree.HasDirectory s.here)
    (h : (writeDrawing verbosity rendering directory rg).on s = (.ok p, s')) :
    ∃ drawing l, rendering.draw rg = .ok drawing ∧
      Wrote s (drawingPath rendering directory rg) l drawing.text.toUTF8 s' := by
  rw [writeDrawing] at h
  obtain ⟨_, logged, hlog, hrest⟩ := exists_of_on_bind h
  obtain ⟨_, opened, hopen, hrest⟩ := exists_of_on_bind hrest
  obtain ⟨drawing, drawn, hdraw, hrest⟩ := exists_of_on_bind hrest
  obtain ⟨_, written, hwrite, hreturn⟩ := exists_of_on_bind hrest
  obtain ⟨_, hlast⟩ := Prod.mk.inj hreturn
  have hlogged := (isQuiet_log verbosity _).sameFiles hlog
  obtain ⟨l, hopened⟩ := wrote_of_on_openFile (hlogged.hasDirectory_here hhere) hopen
  have hdrawn := (hopened.before hlogged).after ((isQuiet_draw verbosity _ _).sameFiles hdraw)
  obtain ⟨l', hwritten⟩ := wrote_of_on_write (hdrawn.hasDirectory_here hhere) hwrite
  rw [hlast] at hwritten
  exact ⟨drawing, l', eq_ok_of_on_draw hdraw, hdrawn.trans hwritten hhere⟩

/-! ### All drawings -/

/-- Draws one function after the other and tells of each file. -/
def drawEach (verbosity : Nat) (rendering : Rendering) (directory : Path)
    (functions : List RegionGraph) : Action (StateM Machine) Unit :=
  functions.forM fun rg => do
    announce (← writeDrawing verbosity rendering directory rg)
    return ()

theorem execute_dot (verbosity : Nat) (source : Source) (rendering : Rendering)
    (directory : String) :
    ((Command.dot source rendering directory none).execute verbosity :
      Action (StateM Machine) Unit) =
        loadSource verbosity source >>= drawEach verbosity rendering (.ofString directory) := rfl

theorem isQuiet_announce (p : Path) : (announce p : Action (StateM Machine) Unit).IsQuiet :=
  isQuiet_liftM fun _ => ⟨rfl, rfl, rfl⟩

theorem exists_of_on_drawEach {verbosity : Nat} (hhere : s.tree.HasDirectory s.here)
    (h : (drawEach verbosity rendering directory functions).on s = (.ok (), s')) :
    s'.here = s.here ∧ ∃ writes, List.Forall₂
      (IsDrawn s'.tree s'.here rendering directory) functions writes ∧
      s.tree.Keeps (· ∈ writes.map (·.1)) s'.tree ∧
      ∀ l, s'.tree.content? l = (writes.reverse.lookup l).or (s.tree.content? l) := by
  induction functions generalizing s with
  | nil =>
      obtain ⟨_, rfl⟩ := Prod.mk.inj h
      exact ⟨rfl, [], .nil, .refl _ _, fun l => rfl⟩
  | cons rg rest ih =>
      obtain ⟨_, announced, hfirst, hrest⟩ := exists_of_on_bind h
      obtain ⟨p, drawn, hdraw, hannounce⟩ := exists_of_on_bind hfirst
      obtain ⟨drawing, l, hdrawing, hwrote⟩ := wrote_of_on_writeDrawing hhere hdraw
      have hquiet := (isQuiet_announce p).bind fun _ => isQuiet_pure ()
      have hwrote' := hwrote.after (hquiet.sameFiles hannounce)
      have hdirectory := hwrote'.hasDirectory_here hhere
      obtain ⟨hlast, writes, hwrites, hkeeps, hcontents⟩ := ih hdirectory hrest
      refine ⟨hlast.trans hwrote'.here_eq, (l, drawing.text.toUTF8) :: writes,
        .cons ⟨?_, drawing, hdrawing, rfl⟩ hwrites, ?_, fun l' => ?_⟩
      · rw [hlast]
        exact FileTree.find_of_keeps hkeeps hdirectory hwrote'.find_eq
      · refine (hwrote'.keeps.mono ?_).trans (hkeeps.mono ?_)
        · rintro l' rfl
          exact List.mem_cons_self
        · intro l' hl'
          exact List.mem_cons_of_mem _ hl'
      · -- Later texts come first in the look-up, and the first drawing is the last to be asked.
        rw [hcontents l', List.reverse_cons, List.lookup_append, Option.or_assoc]
        apply congrArg
        by_cases hl' : l' = l
        · rw [hl', hwrote'.content_eq, List.lookup_cons_self, Option.some_or]
        · rw [hwrote'.keeps.contents l' hl', List.lookup_cons, beq_false_of_ne hl']
          rfl

/-! ### File names -/

theorem toList_fileNameFor (rendering : Rendering) (function : String) :
    (rendering.fileNameFor function).toList =
      rendering.stem.toList ++ ['.'] ++ function.toList ++ ['.', 'd', 'o', 't'] := by
  simp [Rendering.fileNameFor, toString]

theorem fileNameFor_injective (rendering : Rendering) :
    Function.Injective rendering.fileNameFor := by
  intro function other hsame
  have htext := congrArg String.toList hsame
  rw [toList_fileNameFor, toList_fileNameFor] at htext
  exact String.toList_injective (List.append_cancel_left (List.append_cancel_right htext))

theorem fileNameFor_ne (rendering : Rendering) (function : String) {name : String}
    (h : 't' ∉ name.toList) : rendering.fileNameFor function ≠ name := by
  rintro rfl
  apply h
  rw [toList_fileNameFor]
  simp

/-- A file name without slashes leads into the directory for results. -/
theorem IsDrawn.exists_directory {t : FileTree} {here : Location} {directory : String}
    {write : Location × ByteArray} (hhere : t.HasDirectory here)
    (h : IsDrawn t here rendering (.ofString directory) rg write)
    (hname : '/' ∉ (rendering.fileNameFor rg.name).toList) :
    ∃ d, t.find here (Path.ofString directory).text = .ok d ∧ t.HasDirectory d ∧
      write.1 = d ++ [rendering.fileNameFor rg.name] := by
  have hfound := h.found
  have hpart : Path.IsPart (rendering.fileNameFor rg.name) :=
    ⟨fileNameFor_ne rendering rg.name (by decide), hname⟩
  rw [drawingPath, Path.join_ofString _ hpart (fileNameFor_ne rendering rg.name (by decide))]
    at hfound
  exact FileTree.find_push_eq_ok hhere (Path.isRead_ofString directory) hpart
    (fileNameFor_ne rendering rg.name (by decide)) (fileNameFor_ne rendering rg.name (by decide))
    hfound

theorem map_fst_eq {d : Location}
    (h : List.Forall₂ (fun rg (write : Location × ByteArray) =>
      write.1 = d ++ [rendering.fileNameFor rg.name]) functions writes) :
    writes.map (·.1) = (functions.map (·.name)).map (d ++ [rendering.fileNameFor ·]) := by
  induction h with
  | nil => rfl
  | cons hfirst _ ih => rw [List.map_cons, List.map_cons, List.map_cons, hfirst, ih]

theorem nodup_map_fst {found : Except FileError Location}
    (h : List.Forall₂ (fun rg (write : Location × ByteArray) =>
      ∃ d, found = .ok d ∧ write.1 = d ++ [rendering.fileNameFor rg.name]) functions writes)
    (hnames : (functions.map (·.name)).Nodup) : (writes.map (·.1)).Nodup := by
  cases found with
  | error e =>
      cases h with
      | nil => exact List.nodup_nil
      | cons hfirst =>
          obtain ⟨_, hfound, _⟩ := hfirst
          cases hfound
  | ok d =>
      have hplaces := map_fst_eq (h.imp fun rg write hwrite => by
        obtain ⟨d', hd', hplace⟩ := hwrite
        rwa [← Except.ok.inj hd'] at hplace)
      rw [hplaces]
      refine hnames.map fun function other hsame => ?_
      exact fileNameFor_injective rendering (List.singleton_inj.mp (List.append_cancel_left hsame))

theorem lookup_reverse_of_mem {α β : Type*} [BEq α] [LawfulBEq α] {pairs : List (α × β)}
    {pair : α × β} (hnodup : (pairs.map (·.1)).Nodup) (h : pair ∈ pairs) :
    pairs.reverse.lookup pair.1 = some pair.2 := by
  induction pairs with
  | nil => cases h
  | cons first rest ih =>
      obtain ⟨hnew, hrest⟩ := List.nodup_cons.mp hnodup
      rw [List.reverse_cons, List.lookup_append]
      rcases List.mem_cons.mp h with rfl | h
      · have hnone : rest.reverse.lookup pair.1 = none := by
          rw [List.lookup_eq_none_iff]
          intro other hother
          rw [bne_iff_ne]
          intro hsame
          exact hnew (List.mem_map.mpr ⟨other, List.mem_reverse.mp hother, hsame.symm⟩)
        rw [hnone, Option.none_or, List.lookup_cons_self]
      · rw [ih hrest h, Option.some_or]

theorem exists_rel_of_mem {α β : Type*} {R : α → β → Prop} {xs : List α} {ys : List β}
    (h : List.Forall₂ R xs ys) {y : β} (hy : y ∈ ys) : ∃ x ∈ xs, R x y := by
  induction h with
  | nil => cases hy
  | @cons x y' xs ys hfirst _ ih =>
      rcases List.mem_cons.mp hy with rfl | hy
      · exact ⟨x, List.mem_cons_self, hfirst⟩
      · obtain ⟨x', hx', hrel⟩ := ih hy
        exact ⟨x', List.mem_cons_of_mem x hx', hrel⟩

/-! ### The command -/

/-- A run that succeeds writes the drawing of every function where the path of its file leads, and
nothing else; of several drawings at one location the last one stays. So the drawings are all there,
and directly in the directory for results, if the file names have no slashes and the functions have
distinct names. -/
theorem dot_writes_last_drawing {arguments : List String} {verbosity : Nat} {source : Source}
    {directory : String}
    (harguments : Invocation.ofArguments arguments =
      .ok ⟨verbosity, some (.dot source rendering directory none)⟩)
    (hhere : s.tree.HasDirectory s.here)
    (hstatus : ((runProgram arguments : StateM Machine Nat).run s).1 = 0) :
    ∃ functions loaded s' writes,
      (runProgram arguments : StateM Machine Nat).run s = (0, s') ∧
      (loadSource verbosity source).on s = (.ok functions, loaded) ∧
      List.Forall₂ (IsDrawn s'.tree s.here rendering (.ofString directory)) functions writes ∧
      (∀ l, s'.tree.content? l = (writes.reverse.lookup l).or (s.tree.content? l)) ∧
      ((∀ rg ∈ functions, '/' ∉ (rendering.fileNameFor rg.name).toList) →
        List.Forall₂ (fun rg write => ∃ d,
          s'.tree.find s.here (Path.ofString directory).text = .ok d ∧ s'.tree.HasDirectory d ∧
            write.1 = d ++ [rendering.fileNameFor rg.name]) functions writes ∧
        (∀ l, (∀ d, s'.tree.find s.here (Path.ofString directory).text = .ok d → ¬ d <+: l) →
          s'.tree.content? l = s.tree.content? l) ∧
        ((functions.map (·.name)).Nodup → (writes.map (·.1)).Nodup ∧
          ∀ write ∈ writes, s'.tree.content? write.1 = some write.2)) := by
  obtain ⟨s', hexecute, hrun⟩ := exists_of_status_eq_zero harguments hstatus
  rw [execute_dot] at hexecute
  obtain ⟨functions, loaded, hload, hdraw⟩ := exists_of_on_bind hexecute
  have hloaded := (isQuiet_loadSource verbosity source).sameFiles hload
  obtain ⟨hlast, writes, hwrites, hkeeps, hcontents⟩ :=
    exists_of_on_drawEach (hloaded.hasDirectory_here hhere) hdraw
  rw [hlast, hloaded.here_eq] at hwrites
  rw [hloaded.tree_eq] at hkeeps hcontents
  refine ⟨functions, loaded, s', writes, hrun, hload, hwrites, hcontents, fun hnames => ?_⟩
  have hplaces := ((List.forall₂_and_left _ _).mpr ⟨hnames, hwrites⟩).imp fun rg write hwrite =>
    hwrite.2.exists_directory (hkeeps.directories s.here hhere) hwrite.1
  refine ⟨hplaces, fun l hl => hkeeps.contents l fun hmem => ?_, fun hdistinct => ?_⟩
  · obtain ⟨write, hwrite, rfl⟩ := List.mem_map.mp hmem
    obtain ⟨rg, _, d, hd, _, hplace⟩ := exists_rel_of_mem hplaces hwrite
    exact hl d hd (hplace ▸ List.prefix_append d _)
  · have hnodup := nodup_map_fst (hplaces.imp fun rg write ⟨d, hd, _, hplace⟩ => ⟨d, hd, hplace⟩)
      hdistinct
    refine ⟨hnodup, fun write hwrite => ?_⟩
    rw [hcontents, lookup_reverse_of_mem hnodup hwrite, Option.some_or]

/-- A machine with one document in the second form. -/
def oneDocument (text : String) : Machine where
  tree := .directory [("in.sexp", .file text.toUTF8)]

/-- Two functions of different names: each has its drawing in a file of its own. -/
theorem dot_writes_last_drawing_distinct : ∃ f g s' writes,
    (runProgram ["dot", "in.sexp", "-o", "out"] : StateM Machine Nat).run
      (oneDocument "(function f (block a)) (function g (block b))") = (0, s') ∧
    f.name = "f" ∧ g.name = "g" ∧
    List.Forall₂ (IsDrawn s'.tree [] {} (.ofString "out")) [f, g] writes ∧
    (writes.map (·.1)).Nodup ∧ ∀ write ∈ writes, s'.tree.content? write.1 = some write.2 := by
  have harguments : Invocation.ofArguments ["dot", "in.sexp", "-o", "out"] =
      .ok ⟨0, some (.dot { input := .text "in.sexp" } {} "out" none)⟩ := by decide +kernel
  have hstatus : ((runProgram ["dot", "in.sexp", "-o", "out"] : StateM Machine Nat).run
      (oneDocument "(function f (block a)) (function g (block b))")).1 = 0 := by decide +kernel
  have hnames : ((loadSource 0 { input := .text "in.sexp" }).on
      (oneDocument "(function f (block a)) (function g (block b))")).1.toOption.map
        (List.map RegionGraph.name) = some ["f", "g"] := by decide +kernel
  obtain ⟨functions, loaded, s', writes, hrun, hload, hdrawn, _, hplain⟩ :=
    dot_writes_last_drawing harguments ⟨_, rfl⟩ hstatus
  rw [hload] at hnames
  have hnames : functions.map RegionGraph.name = ["f", "g"] := Option.some.inj hnames
  obtain ⟨f, rest, rfl, hf, hrest⟩ := List.map_eq_cons_iff.mp hnames
  obtain ⟨g, rest, rfl, hg, hrest⟩ := List.map_eq_cons_iff.mp hrest
  obtain rfl := List.map_eq_nil_iff.mp hrest
  have hslashes : ∀ rg ∈ [f, g],
      '/' ∉ (({} : Rendering).fileNameFor rg.name).toList := by
    intro rg hrg
    rcases List.mem_pair.mp hrg with rfl | rfl
    · rw [hf]
      decide
    · rw [hg]
      decide
  obtain ⟨_, _, hdistinct⟩ := hplain hslashes
  obtain ⟨hnodup, hcontents⟩ := hdistinct (by rw [hnames]; decide)
  exact ⟨f, g, s', writes, hrun, hf, hg, hdrawn, hnodup, hcontents⟩

/-- Two functions of one name are loaded and one file is written. A name with slashes takes its
drawing out of the directory for results. -/
theorem dot_loses_drawing :
    ((loadSource 0 { input := .text "in.sexp" }).on
      (oneDocument "(function f (block a)) (function f (block b))")).1.toOption.map List.length =
        some 2 ∧
    ((runProgram ["dot", "in.sexp", "-o", "out"] : StateM Machine Nat).run
      (oneDocument "(function f (block a)) (function f (block b))")).1 = 0 ∧
    ((runProgram ["dot", "in.sexp", "-o", "out"] : StateM Machine Nat).run
      (oneDocument "(function f (block a)) (function f (block b))")).2.tree.files.map (·.1) =
        [["out", "reg.f.dot"], ["in.sexp"]] ∧
    ((runProgram ["dot", "in.sexp", "-o", "out"] : StateM Machine Nat).run
      (oneDocument "(function \"/../../up\" (block a))")).1 = 0 ∧
    ((runProgram ["dot", "in.sexp", "-o", "out"] : StateM Machine Nat).run
      (oneDocument "(function \"/../../up\" (block a))")).2.tree.files.map (·.1) =
        [["up.dot"], ["in.sexp"]] := by
  decide +kernel

end FlowRegions.Shell

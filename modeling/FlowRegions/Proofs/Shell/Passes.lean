import FlowRegions.Proofs.Shell.DotEffects

/-!
# Running a pass

A pass that writes files does what drawing to files does, on every system and with every outcome, as
long as both draw alike. Their options lead to the same rendering with one exception: a prefix that
is given and empty stays empty for drawing to files, and gives way to that of the pass otherwise.
-/

namespace FlowRegions.Shell

open Shell.Action

/-! ### One command for another -/

section

variable {m : Type → Type} [Monad m] [LawfulMonad m] [Host m] {verbosity : Nat} {source : Source}
  {directory : String} {pass : Pass}

omit [LawfulMonad m] in
theorem runPass_eq (hviewer : pass.opensViewer = false) (rendering : Rendering)
    (directory : Path) (rg : RegionGraph) :
    (runPass verbosity pass rendering directory rg : Action m (Option Path)) =
      writeDrawing verbosity rendering directory rg >>= fun p => pure (some p) := by
  rw [runPass, hviewer]
  rfl

/-- A pass that opens no viewer draws to files. -/
theorem execute_run_eq (hfind : Pass.find? pass.name = some pass)
    (hviewer : pass.opensViewer = false) (onlySimple : Bool) (stem? : Option String) :
    ((Command.run (.text pass.name) source onlySimple stem? directory).execute verbosity :
      Action m Unit) =
    (Command.dot source (pass.rendering onlySimple stem?) directory none).execute verbosity := by
  have hname : (nameOf (.text pass.name) : Action m String) = pure pass.name := rfl
  rw [Command.execute, Command.execute, hname, pure_bind, hfind]
  apply bind_congr
  intro functions
  apply congrArg (functions.forM ·)
  funext rg
  simp only [runPass_eq hviewer, bind_assoc, pure_bind, bind_pure_unit]

end

/-! ### The same options -/

theorem Value.nonempty?_eq_some_iff {value : Value} {text : String} :
    value.nonempty? = some text ↔ value = .text text ∧ text.isEmpty = false := by
  cases value with
  | empty => simp [Value.nonempty?]
  | text s =>
      rw [Value.nonempty?, Value.text.injEq]
      split
      · next hempty =>
          refine ⟨nofun, ?_⟩
          rintro ⟨rfl, h⟩
          rw [hempty] at h
          cases h
      · next hempty =>
          rw [Option.some_inj]
          refine ⟨?_, And.left⟩
          rintro rfl
          exact ⟨rfl, Bool.not_eq_true _ ▸ hempty⟩

/-- The findings name the same input, ask for it in the same form, for the same functions and the
same emphasis, and send the results to the same place. -/
structure SameOptions (found found' : List Finding) : Prop where
  input_eq : Finding.operandOf "INPUT" found' = Finding.operandOf "INPUT" found
  values_eq : ∀ rule ∈ [OptionRule.format, .function, .onlySimple, .output],
    Finding.valuesOf rule found' = Finding.valuesOf rule found

/-- The findings lead to the same prefix: it is given and not empty, or it is left to the pass. -/
def SameStem (found found' : List Finding) : Prop :=
  (∃ value, Finding.valueOf? .stem found = some value ∧ value.nonempty?.isSome ∧
    Finding.valueOf? .stem found' = some value) ∨
  Finding.valueOf? .stem found = none ∧ Finding.textOf? .stem found' = none

variable {found found' : List Finding} {pass : Pass}

namespace SameOptions

variable (h : SameOptions found found')

include h

theorem textOf?_eq {rule : OptionRule}
    (hrule : rule ∈ [OptionRule.format, .function, .onlySimple, .output]) :
    Finding.textOf? rule found' = Finding.textOf? rule found := by
  rw [Finding.textOf?, Finding.textOf?, Finding.valueOf?, Finding.valueOf?, h.values_eq rule hrule]

theorem sourceOf_eq : Command.sourceOf found' = Command.sourceOf found := by
  rw [Command.sourceOf, Command.sourceOf, h.input_eq, h.textOf?_eq (by decide),
    h.values_eq .function (by decide)]

theorem directoryOf_eq : Command.directoryOf found' = Command.directoryOf found := by
  rw [Command.directoryOf, Command.directoryOf, h.textOf?_eq (by decide)]

theorem renderingOf_eq (hreg : pass.stem = "reg")
    (hnames : Finding.has .namesOnly found = pass.namesOnly) (hstem : SameStem found found') :
    Command.renderingOf found =
      pass.rendering (Finding.has .onlySimple found') (Finding.textOf? .stem found') := by
  have hsimple : Finding.has .onlySimple found' = Finding.has .onlySimple found := by
    rw [Finding.has, Finding.has, h.values_eq .onlySimple (by decide)]
  rw [Command.renderingOf, hnames, hsimple, Pass.rendering.eq_def]
  rcases hstem with ⟨value, hvalue, hsome, hvalue'⟩ | ⟨hnone, hnone'⟩
  · obtain ⟨text, htext⟩ := Option.isSome_iff_exists.mp hsome
    have htext' : Finding.textOf? .stem found' = some text := by
      rw [Finding.textOf?, hvalue']
      exact htext
    obtain ⟨rfl, hempty⟩ := Value.nonempty?_eq_some_iff.mp htext
    rw [hvalue, htext']
    simp [Value.shown, hempty]
  · rw [hnone, hnone']
    simp [hreg]

end SameOptions

section

variable {m : Type → Type} [Monad m] [LawfulMonad m] [Host m] {verbosity : Nat}
  {dotArguments runArguments : List String}

theorem find?_of_mem_all {pass : Pass} (h : pass ∈ Pass.all) (hviewer : pass.opensViewer = false) :
    Pass.find? pass.name = some pass ∧ pass.stem = "reg" := by
  revert h hviewer
  revert pass
  decide

/-- With the same options, drawing to files and running the pass that writes such files come to the
same on every system, whatever the input is and however they end. -/
theorem runProgram_run_eq (hpass : pass ∈ Pass.all) (hviewer : pass.opensViewer = false)
    (hdot : Invocation.ofArguments dotArguments =
      .ok ⟨verbosity, some (.ofFindings .dot found)⟩)
    (hrun : Invocation.ofArguments runArguments =
      .ok ⟨verbosity, some (.ofFindings .run found')⟩)
    (hname : Finding.operandOf "PASS" found' = .text pass.name)
    (hnames : Finding.has .namesOnly found = pass.namesOnly)
    (himage : Finding.textOf? .imageFormat found = none) (hsame : SameOptions found found')
    (hstem : SameStem found found') :
    (runProgram runArguments : m Nat) = runProgram dotArguments := by
  obtain ⟨hfind, hreg⟩ := find?_of_mem_all hpass hviewer
  rw [runProgram, runProgram, hdot, hrun]
  dsimp only
  rw [Invocation.run, Invocation.run]
  dsimp only
  rw [Command.ofFindings, Command.ofFindings, hname, himage, execute_run_eq hfind hviewer,
    hsame.renderingOf_eq hreg hnames hstem, hsame.sourceOf_eq, hsame.directoryOf_eq]

end

/-- The findings for an input, a directory for results and a prefix. -/
def inputOutputStem : List Finding :=
  [.operand "INPUT" (.text "in.sexp"), .option .output (.text "out"), .option .stem (.text "p")]

/-- Drawings with blocks by their names alone, as a command and as a pass. -/
theorem runProgram_run_namesOnly :
    (runProgram ["run", "dot-regions-only", "in.sexp", "-o", "out", "--prefix", "p"] :
      StateM Machine Nat) =
    runProgram ["dot", "--regions-only", "in.sexp", "-o", "out", "--prefix", "p"] := by
  have hdot : Invocation.ofArguments
      ["dot", "--regions-only", "in.sexp", "-o", "out", "--prefix", "p"] =
        .ok ⟨0, some (.ofFindings .dot (.option .namesOnly .empty :: inputOutputStem))⟩ := by
    decide +kernel
  have hrun : Invocation.ofArguments
      ["run", "dot-regions-only", "in.sexp", "-o", "out", "--prefix", "p"] =
        .ok ⟨0, some (.ofFindings .run
          (.operand "PASS" (.text "dot-regions-only") :: inputOutputStem))⟩ := by
    decide +kernel
  obtain ⟨pass, hpass, hname, hnames, hviewer⟩ : ∃ pass ∈ Pass.all,
      pass.name = "dot-regions-only" ∧ pass.namesOnly = true ∧ pass.opensViewer = false := by
    decide
  exact runProgram_run_eq hpass hviewer hdot hrun (hname ▸ rfl) (hnames ▸ rfl) rfl
    ⟨by decide, by decide⟩ (Or.inl ⟨.text "p", by decide, by decide, by decide⟩)

/-- An empty prefix names the file that is drawn to, and the pass puts its own in its place. -/
theorem run_ignores_empty_prefix :
    ((runProgram ["dot", "in.sexp", "--prefix", "", "-o", "out"] : StateM Machine Nat).run
      (oneDocument "(function f (block a))")).2.tree.files.map (·.1) =
        [["out", ".f.dot"], ["in.sexp"]] ∧
    ((runProgram ["run", "dot-regions", "in.sexp", "--prefix", "", "-o", "out"] :
      StateM Machine Nat).run (oneDocument "(function f (block a))")).2.tree.files.map (·.1) =
        [["out", "reg.f.dot"], ["in.sexp"]] ∧
    ((runProgram ["dot", "in.sexp", "--prefix", "", "-o", "out"] : StateM Machine Nat).run
      (oneDocument "(function f (block a))")).1 = 0 ∧
    ((runProgram ["run", "dot-regions", "in.sexp", "--prefix", "", "-o", "out"] :
      StateM Machine Nat).run (oneDocument "(function f (block a))")).1 = 0 := by
  decide +kernel

end FlowRegions.Shell

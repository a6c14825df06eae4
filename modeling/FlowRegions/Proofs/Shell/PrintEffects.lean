import FlowRegions.Proofs.Shell.Loading

/-!
# What printing does to files

Printing to a file opens it first and loads the functions afterwards. Where loading fails, the file
is left empty, and the input itself is lost if it is the file that is printed to. All other files
are as they were.
-/

namespace FlowRegions.Shell

open Shell.Action

variable {s s' s₁ : Machine} {p q : Path} {l : Location}

/-! ### The target -/

theorem run_home? (user : String) (s : Machine) :
    (Host.home? user : StateM Machine (Option Path)).run s = (s.homes.lookup user, s) := rfl

theorem on_expandHome_congr (hhomes : s'.homes = s.homes) (p : Path) :
    ((expandHome p).on s').1 = ((expandHome p).on s).1 := by
  rw [expandHome]
  split
  · split
    · split
      · rfl
      · rw [on_bind, on_bind, on_liftM, on_liftM, run_home?, run_home?, hhomes]
        dsimp only
        split <;> rfl
    · rfl
  · rfl

theorem on_resolve_congr (hhere : s'.here = s.here) (hhomes : s'.homes = s.homes) (value : Value) :
    ((resolve value).on s').1 = ((resolve value).on s).1 := by
  cases value with
  | empty => rfl
  | text text =>
      have hexpand := on_expandHome_congr hhomes (.ofString text)
      rw [resolve, on_bind, on_bind]
      rcases hs : (expandHome (.ofString text)).on s with ⟨result, middle⟩
      rcases hs' : (expandHome (.ofString text)).on s' with ⟨result', middle'⟩
      have hmiddle := (isQuiet_expandHome (.ofString text)).sameFiles hs
      have hmiddle' := (isQuiet_expandHome (.ofString text)).sameFiles hs'
      rw [hs, hs'] at hexpand
      obtain rfl : result' = result := hexpand
      cases result' with
      | error e => rfl
      | ok p =>
          dsimp only
          split
          · rfl
          · have hsame : middle'.here = middle.here := by
              rw [hmiddle.here_eq, hmiddle'.here_eq]
              exact hhere
            rw [on_bind, on_bind, on_liftM, on_liftM]
            exact congrArg (fun l => Except.ok (Path.resolve ⟨"/", l⟩ p)) hsame

theorem openTarget_eq_ok {target? : Option Value} {p? : Option Path}
    (hhere : s.tree.HasDirectory s.here) (h : (openTarget target?).on s = (.ok p?, s')) :
    p? = none ∧ s' = s ∨ ∃ p l, p? = some p ∧ Wrote s p l .empty s' := by
  cases target? with
  | none =>
      obtain ⟨hp, hs⟩ := Prod.mk.inj h
      exact Or.inl ⟨(Except.ok.inj hp).symm, hs.symm⟩
  | some value =>
      rw [openTarget] at h
      split at h
      · obtain ⟨hp, hs⟩ := Prod.mk.inj h
        exact Or.inl ⟨(Except.ok.inj hp).symm, hs.symm⟩
      · obtain ⟨p, middle, hresolve, hrest⟩ := exists_of_on_bind h
        obtain ⟨_, opened, hopen, hreturn⟩ := exists_of_on_bind hrest
        have hresolved := (isQuiet_resolve value).sameFiles hresolve
        obtain ⟨hp, rfl⟩ := Prod.mk.inj hreturn
        obtain ⟨l, hwrote⟩ := wrote_of_on_openFile (hresolved.hasDirectory_here hhere) hopen
        exact Or.inr ⟨p, l, (Except.ok.inj hp).symm, hwrote.before hresolved⟩

/-! ### Loading nothing -/

theorem ofBytes_empty : Text.ofBytes .empty = .ok "" := by
  simp [Text.ofBytes, Text.decodeFrom]
  rfl

theorem eq_nil_of_load_empty {format : Format} {source? : Option String}
    {functions : List RegionGraph} (h : Document.load format "" source? = .ok functions) :
    functions = [] := by
  cases format with
  | json => cases h
  | sexp =>
      have hdrafts : Document.drafts .sexp "" source? = .ok [] := rfl
      rw [Document.load, hdrafts] at h
      exact (Except.ok.inj h).symm

theorem eq_nil_of_select_nil {names : List String} {functions : List RegionGraph}
    (h : Document.select [] names = .ok functions) : functions = [] := by
  cases names with
  | nil => exact (Except.ok.inj h).symm
  | cons name rest =>
      simp [Document.select] at h

theorem of_on_readText {text : String} (h : (readText p).on s = (.ok text, s')) :
    ∃ content, s.tree.read s.here p.text = .ok content ∧ Text.ofBytes content = .ok text := by
  obtain ⟨result, middle, hread, hdecode⟩ := exists_of_on_bind h
  obtain ⟨hresult, rfl⟩ := Prod.mk.inj hread
  obtain rfl : s.tree.read s.here p.text = result := Except.ok.inj hresult
  cases hcontent : s.tree.read s.here p.text with
  | error e =>
      rw [hcontent] at hdecode
      cases e <;> cases hdecode
  | ok content =>
      rw [hcontent] at hdecode
      dsimp only at hdecode
      cases htext : Text.ofBytes content with
      | error e =>
          rw [htext] at hdecode
          cases hdecode
      | ok text' =>
          rw [htext] at hdecode
          obtain rfl := Except.ok.inj (Prod.mk.inj hdecode).1
          exact ⟨content, rfl, htext⟩

theorem of_on_findInput {value : Value} (h : (findInput value).on s = (.ok p, s')) :
    ((resolve value).on s).1 = .ok p := by
  obtain ⟨p', middle, hresolve, hprobe⟩ := exists_of_on_bind h
  obtain ⟨result, _, _, hmatch⟩ := exists_of_on_bind hprobe
  rw [hresolve]
  cases result with
  | ok => exact congrArg Except.ok (Except.ok.inj (Prod.mk.inj hmatch).1)
  | error e =>
      dsimp only at hmatch
      split at hmatch <;> cases hmatch

/-- An empty file describes no function, in whatever form it is read. -/
theorem eq_nil_of_on_loadFile {verbosity : Nat} {formatName : String}
    {functions : List RegionGraph} (hread : s.tree.read s.here p.text = .ok .empty)
    (h : (loadFile verbosity p formatName).on s = (.ok functions, s')) : functions = [] := by
  rw [loadFile] at h
  obtain ⟨name, named, hname, h⟩ := exists_of_on_bind h
  obtain ⟨text, _, htext, h⟩ := exists_of_on_bind h
  obtain ⟨_, _, _, h⟩ := exists_of_on_bind h
  have hnamed := (isQuiet_liftExcept _).sameFiles hname
  obtain ⟨content, hcontent, hdecode⟩ := of_on_readText htext
  rw [hnamed.tree_eq, hnamed.here_eq, hread] at hcontent
  obtain rfl := Except.ok.inj hcontent
  rw [ofBytes_empty] at hdecode
  obtain rfl := Except.ok.inj hdecode
  cases hformat : Format.ofName? name with
  | none =>
      rw [hformat] at h
      cases h
  | some format =>
      rw [hformat] at h
      obtain ⟨_, _, _, h⟩ := exists_of_on_bind h
      cases hfunctions : Document.load format "" (some p.text) with
      | error e =>
          rw [hfunctions] at h
          cases h
      | ok loaded =>
          rw [hfunctions] at h
          rw [← Except.ok.inj (Prod.mk.inj h).1]
          exact eq_nil_of_load_empty hfunctions

theorem eq_nil_of_on_loadSource {verbosity : Nat} {source : Source}
    {functions : List RegionGraph} (hq : ((resolve source.input).on s).1 = .ok q)
    (hread : s.tree.read s.here q.text = .ok .empty)
    (h : (loadSource verbosity source).on s = (.ok functions, s')) : functions = [] := by
  rw [loadSource] at h
  obtain ⟨p, found, hfind, h⟩ := exists_of_on_bind h
  obtain ⟨loaded, _, hload, h⟩ := exists_of_on_bind h
  obtain ⟨names, _, _, h⟩ := exists_of_on_bind h
  have hp := of_on_findInput hfind
  rw [hq] at hp
  obtain rfl := Except.ok.inj hp
  have hfound := (isQuiet_findInput source.input).sameFiles hfind
  rw [← hfound.tree_eq, ← hfound.here_eq] at hread
  obtain rfl := eq_nil_of_on_loadFile hread hload
  cases hselect : Document.select [] names with
  | error e =>
      rw [hselect] at h
      cases h
  | ok selected =>
      rw [hselect] at h
      rw [← Except.ok.inj (Prod.mk.inj h).1]
      exact eq_nil_of_select_nil hselect

/-! ### Printing -/

/-- Paths that led to files lead to them still after one was written, which alone reads as new. -/
theorem Wrote.read_eq_ok {content old : ByteArray} {l' : Location} {text : String}
    (h : Wrote s p l content s') (hhere : s.tree.HasDirectory s.here)
    (hfind : s.tree.find s.here text = .ok l') (hold : s.tree.content? l' = some old) :
    s'.tree.read s'.here text = .ok (if l' = l then content else old) := by
  rw [FileTree.read_eq_ok_iff, h.here_eq]
  refine ⟨l', FileTree.find_of_keeps h.keeps hhere hfind, ?_⟩
  split
  · next hl =>
      rw [hl]
      exact h.content_eq
  · next hl =>
      rw [h.keeps.contents l' hl]
      exact hold

section

variable {arguments : List String} {verbosity : Nat} {source : Source} {rendering : Rendering}
  {target? : Option Value} {p? : Option Path}

theorem on_execute_print_of_error {fault : Fault} (hopen : (openTarget target?).on s = (.ok p?, s₁))
    (hload : (loadSource verbosity source).on s₁ = (.error fault, s')) :
    ((Command.print source rendering target?).execute verbosity).on s = (.error fault, s') := by
  rw [Command.execute, on_bind_of_ok hopen, on_bind_of_error hload]

/-- Printing onto the input: whatever the document said, an empty file is left. -/
theorem content?_of_print_onto_input
    (harguments : Invocation.ofArguments arguments =
      .ok ⟨verbosity, some (.print source rendering target?)⟩)
    (hhere : s.tree.HasDirectory s.here)
    (hopen : (openTarget target?).on s = (.ok (some p), s₁)) (hwrote : Wrote s p l .empty s₁)
    (hq : ((resolve source.input).on s).1 = .ok q)
    (hsame : s₁.tree.find s.here q.text = .ok l) :
    ((runProgram arguments : StateM Machine Nat).run s).2.tree.content? l = some .empty := by
  have hread : s₁.tree.read s₁.here q.text = .ok .empty := by
    rw [FileTree.read_eq_ok_iff, hwrote.here_eq]
    exact ⟨l, hsame, hwrote.content_eq⟩
  rcases hload : (loadSource verbosity source).on s₁ with ⟨result, s₂⟩
  have hwrote₂ := hwrote.after ((isQuiet_loadSource verbosity source).sameFiles hload)
  cases result with
  | error fault =>
      have hexecute : ((Command.print source rendering target?).execute verbosity).on s =
          (.error fault, s₂) := on_execute_print_of_error hopen hload
      obtain ⟨s₃, hrun, hlogged⟩ := runProgram_of_error harguments hexecute
      rw [hrun]
      exact (hwrote₂.after hlogged).content_eq
  | ok functions =>
      -- The empty file describes no function, and so there is nothing to write into it.
      obtain rfl := eq_nil_of_on_loadSource
        ((on_resolve_congr hwrote.here_eq hwrote.homes_eq source.input).trans hq) hread hload
      have hexecute : ((Command.print source rendering target?).execute verbosity).on s =
          on (ofFile (Host.write p (String.join []).toUTF8)) s₂ := by
        rw [Command.execute, on_bind_of_ok hopen, on_bind_of_ok hload]
        rfl
      rcases hwrite : on (ofFile (Host.write p (String.join []).toUTF8)) s₂ with ⟨result, s₃⟩
      rw [hwrite] at hexecute
      cases result with
      | ok =>
          obtain ⟨l', hlast⟩ := wrote_of_on_write (hwrote₂.hasDirectory_here hhere) hwrite
          obtain rfl := hwrote₂.location_eq hlast hhere
          rw [runProgram_of_ok harguments hexecute]
          exact hlast.content_eq
      | error fault =>
          obtain ⟨s₄, hrun, hlogged⟩ := runProgram_of_error harguments hexecute
          rw [hrun]
          exact ((hwrote₂.after (sameFiles_of_on_write hwrite)).after hlogged).content_eq

/-- The target is opened before anything is loaded. So when loading fails, the run ends with a
status other than zero and leaves what opening left: everything as it was without a target, and
otherwise an empty file at the target and all other files as they were. What is read from then on is
empty at the target, and a target that is the input ends up empty however the run ends. -/
theorem print_opens_before_loading
    (harguments : Invocation.ofArguments arguments =
      .ok ⟨verbosity, some (.print source rendering target?)⟩)
    (hhere : s.tree.HasDirectory s.here) (hopen : (openTarget target?).on s = (.ok p?, s₁)) :
    (∀ fault s₂, (loadSource verbosity source).on s₁ = (.error fault, s₂) →
      fault.status ≠ 0 ∧ ∃ s', s'.tree = s₁.tree ∧
        (runProgram arguments : StateM Machine Nat).run s = (fault.status, s')) ∧
    (p? = none → s₁ = s) ∧
    ∀ p, p? = some p → ∃ l, Wrote s p l .empty s₁ ∧
      ((∀ l', s₁.tree.content? l' = s.tree.content? l') ↔ s.tree.content? l = some .empty) ∧
      (∀ text l' content, s.tree.find s.here text = .ok l' → s.tree.content? l' = some content →
        s₁.tree.read s₁.here text = .ok (if l' = l then .empty else content)) ∧
      ∀ q, ((resolve source.input).on s).1 = .ok q → s₁.tree.find s.here q.text = .ok l →
        ((runProgram arguments : StateM Machine Nat).run s).2.tree.content? l = some .empty := by
  refine ⟨fun fault s₂ hload => ⟨fault.status_ne_zero, ?_⟩, fun hnone => ?_, fun p hp => ?_⟩
  · have hloaded := (isQuiet_loadSource verbosity source).sameFiles hload
    obtain ⟨s', hrun, hlogged⟩ :=
      runProgram_of_error harguments (on_execute_print_of_error hopen hload)
    exact ⟨s', (hloaded.trans hlogged).tree_eq, hrun⟩
  · rcases openTarget_eq_ok hhere hopen with ⟨_, hs⟩ | ⟨p, _, hp, _⟩
    · exact hs
    · rw [hnone] at hp
      cases hp
  · subst hp
    rcases openTarget_eq_ok hhere hopen with ⟨hnone, _⟩ | ⟨p', l, hp, hwrote⟩
    · cases hnone
    · obtain rfl := Option.some.inj hp
      refine ⟨l, hwrote, ⟨fun hsame => ?_, fun hold l' => ?_⟩, ?_, ?_⟩
      · rw [← hsame l]
        exact hwrote.content_eq
      · by_cases hl : l' = l
        · rw [hl, hwrote.content_eq, hold]
        · exact hwrote.keeps.contents l' hl
      · intro text l' content hfind hold
        exact hwrote.read_eq_ok hhere hfind hold
      · intro q hq hsame
        exact content?_of_print_onto_input harguments hhere hopen hwrote hq hsame

end

/-- A machine with one file, which holds the letter `a`. -/
def oneFile (name : String) : Machine where
  tree := .directory [(name, .file ⟨#[97]⟩)]

/-- The input is missing, and the target is emptied all the same. -/
theorem print_opens_before_loading_missing : ∃ l s',
    (runProgram ["print", "none.json", "-o", "out.dot"] : StateM Machine Nat).run
      (oneFile "out.dot") = (2, s') ∧
    s'.tree.content? l = some .empty ∧ (oneFile "out.dot").tree.Keeps (· = l) s'.tree := by
  have harguments : Invocation.ofArguments ["print", "none.json", "-o", "out.dot"] =
      .ok ⟨0, some (.print { input := .text "none.json" } {} (some (.text "out.dot")))⟩ := by
    decide +kernel
  have hhere : (oneFile "out.dot").tree.HasDirectory (oneFile "out.dot").here := ⟨_, rfl⟩
  have htarget : ((openTarget (some (.text "out.dot"))).on
      (oneFile "out.dot")).1.toOption.join.isSome = true := by decide +kernel
  have hmissing : ((loadSource 0 { input := .text "none.json" }).on
      ((openTarget (some (.text "out.dot"))).on (oneFile "out.dot")).2).1.isOk = false := by
    decide +kernel
  have hstatus : ((runProgram ["print", "none.json", "-o", "out.dot"] : StateM Machine Nat).run
      (oneFile "out.dot")).1 = 2 := by decide +kernel
  rcases hopen : (openTarget (some (.text "out.dot"))).on (oneFile "out.dot") with ⟨result, s₁⟩
  rw [hopen] at htarget hmissing
  rcases hload : (loadSource 0 { input := .text "none.json" }).on s₁ with ⟨loaded, s₂⟩
  rw [hload] at hmissing
  obtain ⟨p, rfl⟩ : ∃ p, result = .ok (some p) := by
    rcases result with e | _ | p
    · cases htarget
    · cases htarget
    · exact ⟨p, rfl⟩
  cases loaded with
  | ok => cases hmissing
  | error fault =>
      obtain ⟨hfail, _, heffect⟩ := print_opens_before_loading harguments hhere hopen
      obtain ⟨_, s', htree, hrun⟩ := hfail fault s₂ hload
      obtain ⟨l, hwrote, _⟩ := heffect p rfl
      rw [hrun] at hstatus
      obtain hstatus : fault.status = 2 := hstatus
      rw [hstatus] at hrun
      exact ⟨l, s', hrun, htree ▸ hwrote.content_eq, htree ▸ hwrote.keeps⟩

/-- A run that fails for want of an input empties its target, and a run onto its own input empties
that. -/
theorem print_empties_target :
    (oneFile "out.dot").tree.content? ["out.dot"] = some ⟨#[97]⟩ ∧
    ((runProgram ["print", "none.json", "-o", "out.dot"] : StateM Machine Nat).run
      (oneFile "out.dot")).1 = 2 ∧
    ((runProgram ["print", "none.json", "-o", "out.dot"] : StateM Machine Nat).run
      (oneFile "out.dot")).2.tree.content? ["out.dot"] = some .empty ∧
    ((runProgram ["print", "in.sexp", "-o", "in.sexp"] : StateM Machine Nat).run
      (oneFile "in.sexp")).1 = 0 ∧
    ((runProgram ["print", "in.sexp", "-o", "in.sexp"] : StateM Machine Nat).run
      (oneFile "in.sexp")).2.tree.content? ["in.sexp"] = some .empty := by
  decide +kernel

end FlowRegions.Shell

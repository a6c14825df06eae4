import FlowRegions.Proofs.Files.Locating
import FlowRegions.Shell.Machine
import FlowRegions.Shell.Program

/-!
# Actions on a machine

An action takes a machine to another and gives a result or a fault. Most of what a command does
only asks the machine and reports; the rest touches the files that it opens and writes.
-/

namespace FlowRegions.Shell

namespace Action

variable {α β : Type} {s s' : Machine}

/-- What an action gives on a machine, and the machine afterwards. -/
def on (x : Action (StateM Machine) α) (s : Machine) : Except Fault α × Machine :=
  StateT.run (ExceptT.run x) s

@[simp] theorem on_liftM (x : StateM Machine α) (s : Machine) :
    on (liftM x : Action (StateM Machine) α) s = (.ok (x.run s).1, (x.run s).2) := rfl

theorem on_bind (x : Action (StateM Machine) α) (f : α → Action (StateM Machine) β) (s : Machine) :
    on (x >>= f) s = match x.on s with
      | (.ok a, s') => (f a).on s'
      | (.error e, s') => (.error e, s') := by
  unfold on ExceptT.run StateT.run
  simp only [bind, ExceptT.bind, ExceptT.mk, StateT.bind, ExceptT.bindCont]
  rcases x s with ⟨result, s'⟩
  cases result <;> rfl

theorem on_bind_of_ok {x : Action (StateM Machine) α} {a : α} (h : x.on s = (.ok a, s'))
    (f : α → Action (StateM Machine) β) : on (x >>= f) s = (f a).on s' := by
  rw [on_bind, h]

theorem on_bind_of_error {x : Action (StateM Machine) α} {e : Fault} (h : x.on s = (.error e, s'))
    (f : α → Action (StateM Machine) β) : on (x >>= f) s = (.error e, s') := by
  rw [on_bind, h]

/-- An action that succeeds is made of parts that succeed. -/
theorem exists_of_on_bind {x : Action (StateM Machine) α} {f : α → Action (StateM Machine) β}
    {b : β} (h : on (x >>= f) s = (.ok b, s')) :
    ∃ a middle, x.on s = (.ok a, middle) ∧ (f a).on middle = (.ok b, s') := by
  rw [on_bind] at h
  rcases hx : x.on s with ⟨result, middle⟩
  rw [hx] at h
  cases result with
  | ok a => exact ⟨a, middle, rfl, h⟩
  | error e => cases h

theorem on_ofFile (x : StateM Machine (Except FileError α)) (s : Machine) :
    on (ofFile x) s = match x.run s with
      | (.ok a, s') => (.ok a, s')
      | (.error e, s') => (.error (.file e), s') := by
  rw [ofFile, on_bind, on_liftM]
  dsimp only
  rcases x.run s with ⟨result, s'⟩
  cases result <;> rfl

/-! ### Quiet actions -/

/-- Two machines have the same files, and paths mean the same on them. -/
structure SameFiles (s s' : Machine) : Prop where
  tree_eq : s'.tree = s.tree
  here_eq : s'.here = s.here
  homes_eq : s'.homes = s.homes

theorem SameFiles.refl (s : Machine) : SameFiles s s := ⟨rfl, rfl, rfl⟩

theorem SameFiles.trans {s'' : Machine} (h : SameFiles s s') (h' : SameFiles s' s'') :
    SameFiles s s'' where
  tree_eq := h'.tree_eq.trans h.tree_eq
  here_eq := h'.here_eq.trans h.here_eq
  homes_eq := h'.homes_eq.trans h.homes_eq

theorem SameFiles.hasDirectory_here (h : SameFiles s s') (hhere : s.tree.HasDirectory s.here) :
    s'.tree.HasDirectory s'.here := by
  rw [h.tree_eq, h.here_eq]
  exact hhere

/-- The action leaves the files of every machine alone. -/
def IsQuiet (x : Action (StateM Machine) α) : Prop :=
  ∀ s, SameFiles s (x.on s).2

theorem IsQuiet.sameFiles {x : Action (StateM Machine) α} (hx : x.IsQuiet)
    {result : Except Fault α} (h : x.on s = (result, s')) : SameFiles s s' := by
  have hquiet := hx s
  rwa [h] at hquiet

theorem isQuiet_pure (a : α) : IsQuiet (pure a) := SameFiles.refl

theorem isQuiet_liftM {x : StateM Machine α} (h : ∀ s, SameFiles s (x.run s).2) :
    IsQuiet (liftM x) := h

theorem IsQuiet.bind {x : Action (StateM Machine) α} {f : α → Action (StateM Machine) β}
    (hx : x.IsQuiet) (hf : ∀ a, (f a).IsQuiet) : IsQuiet (x >>= f) := by
  intro s
  rw [on_bind]
  rcases h : x.on s with ⟨result, middle⟩
  cases result with
  | error e => exact hx.sameFiles h
  | ok a => exact (hx.sameFiles h).trans (hf a middle)

/-! ### Reports -/

/-- The action asks the machine and adds to the error channel, and changes nothing else. Its result
does not depend on what was reported before. -/
structure Reports (x : Action (StateM Machine) α) (result : Machine → Except Fault α) : Prop where
  on_eq : ∀ s, ∃ report, x.on s = (result s, { s with err := s.err ++ report })
  blind : ∀ s err, result { s with err } = result s

namespace Reports

variable {x : Action (StateM Machine) α} {f : α → Action (StateM Machine) β}
  {result result' : Machine → Except Fault α} {g : α → Machine → Except Fault β}

theorem fst_on (hx : x.Reports result) (s : Machine) : (x.on s).1 = result s := by
  obtain ⟨report, hreport⟩ := hx.on_eq s
  rw [hreport]

theorem congr (hx : x.Reports result) (h : ∀ s, result s = result' s) : x.Reports result' := by
  rwa [← funext h]

theorem self (hx : x.Reports result) : x.Reports fun s => (x.on s).1 :=
  hx.congr fun s => (hx.fst_on s).symm

theorem isQuiet (hx : x.Reports result) : x.IsQuiet := by
  intro s
  obtain ⟨report, hreport⟩ := hx.on_eq s
  rw [hreport]
  exact ⟨rfl, rfl, rfl⟩

theorem bind (hx : x.Reports result) (hf : ∀ a, (f a).Reports (g a)) :
    Reports (x >>= f) fun s => result s >>= fun a => g a s where
  on_eq s := by
    obtain ⟨report, hreport⟩ := hx.on_eq s
    rw [on_bind, hreport]
    cases result s with
    | error e => exact ⟨report, rfl⟩
    | ok a =>
        obtain ⟨report', hreport'⟩ := (hf a).on_eq { s with err := s.err ++ report }
        refine ⟨report ++ report', ?_⟩
        dsimp only
        rw [hreport', (hf a).blind, String.append_assoc]
        rfl
  blind s err := by
    rw [hx.blind]
    apply congrArg (_ >>= ·)
    funext a
    exact (hf a).blind s err

theorem exists_bind (hx : x.Reports result) (hf : ∀ a, ∃ result, (f a).Reports result) :
    ∃ result, Reports (x >>= f) result := by
  choose g hg using hf
  exact ⟨_, hx.bind hg⟩

end Reports

theorem append_no_report (s : Machine) : { s with err := s.err ++ "" } = s := by
  rw [String.append_empty]

theorem reports_pure (a : α) : Reports (pure a) fun _ => .ok a where
  on_eq s := ⟨"", by rw [append_no_report]; rfl⟩
  blind _ _ := rfl

theorem reports_throw (e : Fault) :
    Reports (throw e : Action (StateM Machine) α) fun _ => .error e where
  on_eq s := ⟨"", by rw [append_no_report]; rfl⟩
  blind _ _ := rfl

theorem reports_liftExcept (result : Except Fault α) :
    Reports (liftM result : Action (StateM Machine) α) fun _ => result := by
  cases result with
  | ok a => exact reports_pure a
  | error e => exact reports_throw e

theorem reports_query {x : StateM Machine α} (hkeeps : ∀ s, (x.run s).2 = s)
    (hblind : ∀ s err, (x.run { s with err }).1 = (x.run s).1) :
    Reports (liftM x) fun s => .ok (x.run s).1 where
  on_eq s := ⟨"", by rw [append_no_report, on_liftM, hkeeps]⟩
  blind s err := congrArg Except.ok (hblind s err)

theorem reports_mapM {items : List α} {f : α → Action (StateM Machine) β}
    {g : α → Machine → Except Fault β} (hf : ∀ a, (f a).Reports (g a)) :
    Reports (items.mapM f) fun s => items.mapM fun a => g a s := by
  induction items with
  | nil => exact reports_pure _
  | cons a rest ih =>
      rw [List.mapM_cons]
      refine ((hf a).bind fun b => ih.bind fun bs => reports_pure (b :: bs)).congr fun s => ?_
      rw [List.mapM_cons]
      rfl

theorem reports_forM {items : List α} {f : α → Action (StateM Machine) PUnit}
    (hf : ∀ a, (f a).Reports fun _ => .ok ()) : Reports (items.forM f) fun _ => .ok () := by
  induction items with
  | nil => exact reports_pure _
  | cons a rest ih => exact (hf a).bind fun _ => ih

theorem run_log (verbosity : Nat) (e : LogEntry) (s : Machine) :
    (Shell.log verbosity e : StateM Machine Unit).run s =
      ((), { s with err := s.err ++ if e.isShown verbosity then e.line else "" }) := by
  rw [Shell.log]
  split
  · rfl
  · rw [append_no_report]
    rfl

theorem reports_log (verbosity : Nat) (e : LogEntry) :
    Reports (log verbosity e : Action (StateM Machine) Unit) fun _ => .ok () where
  on_eq s := by
    rw [log, on_liftM, run_log]
    exact ⟨_, rfl⟩
  blind _ _ := rfl

theorem isQuiet_log (verbosity : Nat) (e : LogEntry) :
    IsQuiet (log verbosity e : Action (StateM Machine) Unit) :=
  (reports_log verbosity e).isQuiet

end Action

open Shell.Action

/-! ### Drawing -/

theorem reports_draw (verbosity : Nat) (rendering : Rendering) (rg : RegionGraph) :
    (draw verbosity rendering rg : Action (StateM Machine) Dot.Drawing).Reports
      fun _ => (rendering.draw rg).mapError .notAnalysed := by
  rw [draw]
  cases rendering.draw rg with
  | error e => exact reports_throw _
  | ok drawing =>
      refine (reports_log verbosity _).bind (g := fun _ _ => .ok drawing) fun _ => ?_
      exact (reports_log verbosity _).bind fun _ => reports_pure _

theorem isQuiet_draw (verbosity : Nat) (rendering : Rendering) (rg : RegionGraph) :
    (draw verbosity rendering rg : Action (StateM Machine) Dot.Drawing).IsQuiet :=
  (reports_draw verbosity rendering rg).isQuiet

/-! ### Writing -/

/-- The path leads to a location at which there is now a file with the content. No other file was
touched, and paths mean what they meant. -/
structure Wrote (s : Machine) (p : Path) (l : Location) (content : ByteArray) (s' : Machine) :
    Prop where
  here_eq : s'.here = s.here
  homes_eq : s'.homes = s.homes
  find_eq : s'.tree.find s'.here p.text = .ok l
  content_eq : s'.tree.content? l = some content
  keeps : s.tree.Keeps (· = l) s'.tree

namespace Wrote

variable {s s' s'' : Machine} {p : Path} {l l' : Location} {content content' : ByteArray}

theorem hasDirectory_here (h : Wrote s p l content s') (hhere : s.tree.HasDirectory s.here) :
    s'.tree.HasDirectory s'.here := by
  rw [h.here_eq]
  exact h.keeps.directories s.here hhere

theorem location_eq (h : Wrote s p l content s') (h' : Wrote s' p l' content' s'')
    (hhere : s.tree.HasDirectory s.here) : l' = l := by
  have hfind := FileTree.find_of_keeps h'.keeps (h.hasDirectory_here hhere) h.find_eq
  rw [← h'.here_eq, h'.find_eq] at hfind
  exact Except.ok.inj hfind

/-- Of two writings to one path the second one counts. -/
theorem trans (h : Wrote s p l content s') (h' : Wrote s' p l' content' s'')
    (hhere : s.tree.HasDirectory s.here) : Wrote s p l' content' s'' := by
  obtain rfl := h.location_eq h' hhere
  exact ⟨h'.here_eq.trans h.here_eq, h'.homes_eq.trans h.homes_eq, h'.find_eq, h'.content_eq,
    h.keeps.trans h'.keeps⟩

theorem before (h' : Wrote s' p l content s'') (h : SameFiles s s') :
    Wrote s p l content s'' where
  here_eq := h'.here_eq.trans h.here_eq
  homes_eq := h'.homes_eq.trans h.homes_eq
  find_eq := h'.find_eq
  content_eq := h'.content_eq
  keeps := h.tree_eq ▸ h'.keeps

theorem after (h : Wrote s p l content s') (h' : SameFiles s' s'') : Wrote s p l content s'' where
  here_eq := h'.here_eq.trans h.here_eq
  homes_eq := h'.homes_eq.trans h.homes_eq
  find_eq := by
    rw [h'.tree_eq, h'.here_eq]
    exact h.find_eq
  content_eq := h'.tree_eq ▸ h.content_eq
  keeps := h'.tree_eq ▸ h.keeps

end Wrote

variable {s s' : Machine} {p : Path}

theorem on_write (p : Path) (content : ByteArray) (s : Machine) :
    on (ofFile (Host.write p content)) s =
      match s.tree.write s.here p.text content with
      | .ok tree => (.ok (), { s with tree })
      | .error e => (.error (.file e), s) := by
  have hwrite : (Host.write p content : StateM Machine (Except FileError Unit)).run s =
      s.write p.text content := rfl
  rw [on_ofFile, hwrite, Machine.write]
  cases s.tree.write s.here p.text content <;> rfl

theorem wrote_of_on_write {content : ByteArray} (hhere : s.tree.HasDirectory s.here)
    (h : on (ofFile (Host.write p content)) s = (.ok (), s')) : ∃ l, Wrote s p l content s' := by
  rw [on_write] at h
  cases htree : s.tree.write s.here p.text content with
  | error e =>
      rw [htree] at h
      cases h
  | ok tree =>
      rw [htree] at h
      obtain ⟨_, rfl⟩ := Prod.mk.inj h
      obtain ⟨l, hfind, _, hcontent, hkeeps⟩ := FileTree.write_eq_ok hhere htree
      exact ⟨l, rfl, rfl, FileTree.find_of_keeps hkeeps hhere hfind, hcontent, hkeeps⟩

theorem sameFiles_of_on_write {content : ByteArray} {fault : Fault}
    (h : on (ofFile (Host.write p content)) s = (.error fault, s')) : SameFiles s s' := by
  rw [on_write] at h
  split at h
  · cases h
  · rw [← (Prod.mk.inj h).2]
    exact .refl s

/-- Opening a file empties it, or makes it as an empty one. -/
theorem wrote_of_on_openFile (hhere : s.tree.HasDirectory s.here)
    (h : (openFile p).on s = (.ok (), s')) : ∃ l, Wrote s p l .empty s' := by
  rw [openFile] at h
  obtain ⟨_, middle, hmake, hwrite⟩ := exists_of_on_bind h
  have hdirectories : (Host.makeDirectories p.parent : StateM Machine (Except FileError Unit)).run s
      = s.makeDirectories p.parent := rfl
  have hmade := FileTree.makeDirectories_keeps hhere p.parent p.parent.parts.length
  rw [on_ofFile, hdirectories, Machine.makeDirectories] at hmake
  rcases hresult : s.tree.makeDirectories s.here p.parent p.parent.parts.length with
    ⟨tree, result⟩
  rw [hresult] at hmake hmade
  cases result with
  | error e => cases hmake
  | ok =>
      obtain ⟨_, rfl⟩ := Prod.mk.inj hmake
      obtain ⟨l, hwrote⟩ := wrote_of_on_write (hmade.directories s.here hhere) hwrite
      refine ⟨l, hwrote.here_eq, hwrote.homes_eq, hwrote.find_eq, hwrote.content_eq, ?_⟩
      exact (hmade.mono fun _ => False.elim).trans hwrote.keeps

/-! ### Runs of the program -/

theorem Fault.status_ne_zero (e : Fault) : e.status ≠ 0 := by
  unfold status
  split <;> decide

section

variable {arguments : List String} {verbosity : Nat} {command : Command}

theorem runProgram_of_ok
    (harguments : Invocation.ofArguments arguments = .ok ⟨verbosity, some command⟩)
    (h : (command.execute verbosity).on s = (.ok (), s')) :
    (runProgram arguments : StateM Machine Nat).run s = (0, s') := by
  have hrun : (ExceptT.run (command.execute verbosity : Action (StateM Machine) Unit)) s =
      (.ok (), s') := h
  rw [runProgram, harguments]
  dsimp only
  rw [Invocation.run]
  simp only [bind, StateT.bind, StateT.run, hrun]
  rfl

theorem runProgram_of_fault
    (harguments : Invocation.ofArguments arguments = .ok ⟨verbosity, some command⟩) {fault : Fault}
    (h : (command.execute verbosity).on s = (.error fault, s')) :
    ∃ report, (runProgram arguments : StateM Machine Nat).run s =
      (fault.status, { s' with err := s'.err ++ report }) := by
  have hrun : (ExceptT.run (command.execute verbosity : Action (StateM Machine) Unit)) s =
      (.error fault, s') := h
  have hlog := run_log verbosity fault.entry s'
  refine ⟨if fault.entry.isShown verbosity then fault.entry.line else "", ?_⟩
  rw [runProgram, harguments]
  dsimp only
  rw [Invocation.run]
  simp only [StateT.run] at hlog
  simp only [bind, StateT.bind, StateT.run, hrun, hlog]
  rfl

theorem runProgram_of_error
    (harguments : Invocation.ofArguments arguments = .ok ⟨verbosity, some command⟩) {fault : Fault}
    (h : (command.execute verbosity).on s = (.error fault, s')) :
    ∃ s'', (runProgram arguments : StateM Machine Nat).run s = (fault.status, s'') ∧
      SameFiles s' s'' := by
  obtain ⟨report, hrun⟩ := runProgram_of_fault harguments h
  exact ⟨_, hrun, rfl, rfl, rfl⟩

theorem exists_of_status_eq_zero
    (harguments : Invocation.ofArguments arguments = .ok ⟨verbosity, some command⟩)
    (h : ((runProgram arguments : StateM Machine Nat).run s).1 = 0) :
    ∃ s', (command.execute verbosity).on s = (.ok (), s') ∧
      (runProgram arguments : StateM Machine Nat).run s = (0, s') := by
  rcases hexecute : (command.execute verbosity).on s with ⟨result, s'⟩
  cases result with
  | ok => exact ⟨s', rfl, runProgram_of_ok harguments hexecute⟩
  | error fault =>
      obtain ⟨s'', hrun, _⟩ := runProgram_of_error harguments hexecute
      rw [hrun] at h
      exact absurd h fault.status_ne_zero

end

end FlowRegions.Shell

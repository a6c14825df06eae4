import FlowRegions.Proofs.Shell.DotEffects
import FlowRegions.Proofs.Shell.Loading

/-!
# Commands without functions

Drawing to files and running a pass begin with loading. Where loading fails, or where there is no
such pass, nothing has been done yet, and a report is all that is left of the run.
-/

namespace FlowRegions.Shell

open Shell.Action

variable {s s' : Machine} {source : Source} {verbosity : Nat}

/-- The command draws to files or runs a pass, with functions from the source. -/
inductive Command.DrawsFrom (source : Source) : Command → Prop
  | dot (rendering : Rendering) (directory : String) (imageFormat? : Option String) :
    DrawsFrom source (.dot source rendering directory imageFormat?)
  | run (pass : Value) (onlySimple : Bool) (stem? : Option String) (directory : String) :
    DrawsFrom source (.run pass source onlySimple stem? directory)

/-- Whatever is to be done with the functions is not begun if they cannot be loaded. -/
theorem exists_on_loadSource_bind (hsource : ∀ selected, ¬ source.Loads s selected)
    (rest : List RegionGraph → Action (StateM Machine) Unit) :
    ∃ fault report, on (loadSource verbosity source >>= rest) s =
      (.error fault, { s with err := s.err ++ report }) := by
  obtain ⟨report, hload⟩ := (reports_loadSource verbosity source).on_eq s
  cases houtcome : source.outcome s with
  | ok selected => exact absurd (Source.outcome_eq_ok_iff.mp houtcome) (hsource selected)
  | error fault =>
      rw [houtcome] at hload
      exact ⟨fault, report, on_bind_of_error hload rest⟩

theorem exists_on_throw (fault : Fault) :
    ∃ fault' report, on (throw fault : Action (StateM Machine) Unit) s =
      (.error fault', { s with err := s.err ++ report }) := by
  obtain ⟨report, hthrow⟩ := (reports_throw fault).on_eq s
  exact ⟨fault, report, hthrow⟩

theorem exists_on_execute {command : Command} (hcommand : command.DrawsFrom source)
    (hsource : ∀ selected, ¬ source.Loads s selected) :
    ∃ fault report, (command.execute verbosity).on s =
      (.error fault, { s with err := s.err ++ report }) := by
  cases hcommand with
  | dot rendering directory imageFormat? => exact exists_on_loadSource_bind hsource _
  | run pass onlySimple stem? directory =>
      rw [Command.execute]
      cases pass with
      | empty => exact exists_on_throw .noName
      | text name =>
          have hname : (nameOf (.text name)).on s = (.ok name, s) := rfl
          rw [on_bind_of_ok hname]
          cases Pass.find? name with
          | none => exact exists_on_throw (.unknownPass name)
          | some pass => exact exists_on_loadSource_bind hsource _

/-- A run that draws to files or runs a pass fails if the functions cannot be loaded, and then it
leaves everything as it was but for a report: all files and directories, what was put out before,
and the tools that were started. -/
theorem unchanged_of_not_loads {arguments : List String} {command : Command}
    (harguments : Invocation.ofArguments arguments = .ok ⟨verbosity, some command⟩)
    (hcommand : command.DrawsFrom source) (hsource : ∀ selected, ¬ source.Loads s selected) :
    ∃ status report, status ≠ 0 ∧ (runProgram arguments : StateM Machine Nat).run s =
      (status, { s with err := s.err ++ report }) := by
  obtain ⟨fault, report, hexecute⟩ := exists_on_execute hcommand hsource
  obtain ⟨report', hrun⟩ := runProgram_of_fault harguments hexecute
  refine ⟨fault.status, report ++ report', fault.status_ne_zero, ?_⟩
  rw [hrun, String.append_assoc]

/-- The second function has no blocks, and the first one is not drawn either. -/
theorem unchanged_of_not_loads_second : ∃ report,
    (runProgram ["run", "dot-regions", "in.sexp", "-o", "out"] : StateM Machine Nat).run
      (oneDocument "(function f (block a)) (function g)") =
        (1, { oneDocument "(function f (block a)) (function g)" with err := report }) := by
  have harguments : Invocation.ofArguments ["run", "dot-regions", "in.sexp", "-o", "out"] =
      .ok ⟨0, some (.run (.text "dot-regions") { input := .text "in.sexp" } false none "out")⟩ := by
    decide +kernel
  have houtcome : (Source.outcome { input := .text "in.sexp" }
      (oneDocument "(function f (block a)) (function g)")).isOk = false := by decide +kernel
  have hsource : ∀ selected, ¬ Source.Loads { input := .text "in.sexp" }
      (oneDocument "(function f (block a)) (function g)") selected := by
    intro selected hloads
    rw [Source.outcome_eq_ok_iff.mpr hloads] at houtcome
    cases houtcome
  have hstatus : ((runProgram ["run", "dot-regions", "in.sexp", "-o", "out"] :
      StateM Machine Nat).run (oneDocument "(function f (block a)) (function g)")).1 = 1 := by
    decide +kernel
  obtain ⟨status, report, _, hrun⟩ := unchanged_of_not_loads harguments (.run _ _ _ _) hsource
  rw [hrun] at hstatus
  obtain rfl : status = 1 := hstatus
  exact ⟨_, hrun⟩

end FlowRegions.Shell

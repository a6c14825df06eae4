import FlowRegions.Shell.Fault

/-!
# Loading

Functions are loaded from a file in the form that is asked for, or else in the form that the suffix
of the file's name tells.
-/

namespace FlowRegions.Shell

variable {m : Type → Type} [Monad m] [Host m]

/-- A fault in the description that is read from `p`. -/
def faultAt (p : Path) (fault : LoadFault) : Fault :=
  .document (.load ⟨fault, some p.text⟩)

/-- The form of the document at `p`; an empty name leaves the choice to the suffix. -/
def formatNameFor (p : Path) (formatName : String) : Except Fault String :=
  if formatName.isEmpty then
    match Format.ofPath p with
    | .ok format => .ok format.name
    | .error fault => .error (faultAt p fault)
  else .ok formatName

def readText (p : Path) : Action m String := do
  match ← (Host.read p : m _) with
  | .error .nul => throw (.file .nul)
  | .error (.failed fault _) => throw (faultAt p (.unreadable fault.wording))
  | .ok content =>
    match Text.ofBytes content with
    | .ok text => return text
    | .error e => throw (.undecodable e)

/-- Loads the functions that the file at `p` describes. -/
def loadFile (verbosity : Nat) (p : Path) (formatName : String) : Action m (List RegionGraph) := do
  let name ← formatNameFor p formatName
  let text ← readText p
  Action.log verbosity ⟨.info, .loader, s!"loading {p.text} ({name})"⟩
  match Format.ofName? name with
  | none => throw (faultAt p (.unknownFormat name))
  | some format =>
    (Document.notes format text).forM fun note => Action.log verbosity (.ofNote note)
    match Document.load format text (some p.text) with
    | .ok functions => return functions
    | .error e => throw (.document e)

end FlowRegions.Shell

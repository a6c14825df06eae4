import FlowRegions.Description.OfJson
import FlowRegions.Description.OfSexp
import FlowRegions.Files.Path

/-!
# Documents

A document describes functions in one of two forms.  It is read as a whole: the first function that
is refused decides.
-/

namespace FlowRegions

/-- The form of a document. -/
inductive Format where
  | json
  | sexp
deriving DecidableEq, Repr

namespace Format

def name : Format → String
  | json => "json"
  | sexp => "sexp"

def ofName? (name : String) : Option Format :=
  if name = "json" then some json else if name = "sexp" then some sexp else none

def jsonSuffixes : List String := [".json"]

def sexpSuffixes : List String := [".sexp", ".rgn", ".lisp"]

/-- The form of the document in a file, by the suffix of its name. -/
def ofPath (p : Path) : Except LoadFault Format :=
  if jsonSuffixes.contains p.suffix then .ok json
  else if sexpSuffixes.contains p.suffix then .ok sexp
  else .error (.unknownSuffix p.suffix)

end Format

namespace Document

/-- Something learned while a document is read. -/
inductive Note where
  /-- So many regions own so many blocks of a function. -/
  | indexed (regions blocks : Nat) (function : String)
  /-- A function was accepted; its summary. -/
  | accepted (summary : String)
deriving DecidableEq, Repr

/-- The items of a JSON document: those under `functions`, those of a list, or the document. -/
def jsonItems (document : Json) : List Json :=
  let inner := match document with
    | .object fields => (Json.lookup? "functions" fields).getD document
    | _ => document
  match inner with
  | .array items => items
  | item => [item]

/-- The drafts of a document, one after the other and each read or refused by itself. -/
def drafts (format : Format) (text : String) (source? : Option String) :
    Except DocumentError (List (Except LoadFault Draft)) :=
  match format with
  | .json =>
    match Json.parse text with
    | .ok document => .ok ((jsonItems document).map Draft.ofJson)
    | .error (.malformed e) => .error (.load ⟨.json e, source?⟩)
    | .error (.oversized digits) => .error (.oversized digits)
  | .sexp =>
    match Sexp.parseForms text with
    | .ok forms => .ok (forms.map Draft.ofSexp)
    | .error e => .error (.load ⟨.sexp e, source?⟩)

/-- Turns a draft into a region graph, and names the source of a fault in its description. -/
def finish (source? : Option String) (draft : Except LoadFault Draft) :
    Except DocumentError RegionGraph :=
  match draft with
  | .error fault => .error (.load ⟨fault, source?⟩)
  | .ok draft => draft.toRegionGraph.mapError .tree

def load (format : Format) (text : String) (source? : Option String) :
    Except DocumentError (List RegionGraph) := do
  (← drafts format text source?).mapM (finish source?)

/-- What is learned about one draft, whether it is accepted or not. -/
def draftNotes (draft : Draft) : List Note :=
  let ws := (draft.planted.index 0 0)
  let blocks := (ws.analyses[0]?.map (·.ownership.owners.length)).getD 0
  let indexed := Note.indexed (ws.walk 0).length blocks draft.workspace.onlyGraph.name
  match draft.toRegionGraph with
  | .error _ => [indexed]
  | .ok rg => [indexed, .accepted (rg.workspace.analysisSummary rg.analysis)]

/-- What is learned about drafts up to the first that is refused. -/
def notesOf : List (Except LoadFault Draft) → List Note
  | [] => []
  | .error _ :: _ => []
  | .ok draft :: rest =>
    draftNotes draft ++ (if draft.toRegionGraph.isOk then notesOf rest else [])

def notes (format : Format) (text : String) : List Note :=
  match drafts format text none with
  | .error _ => []
  | .ok found => notesOf found

/-- The functions called by `names`, in the order of the names; of several with one name the last.
Without names, all functions. -/
def select (functions : List RegionGraph) (names : List String) :
    Except LoadError (List RegionGraph) :=
  if names.isEmpty then .ok functions
  else
    let find (name : String) := functions.reverse.find? (·.name == name)
    let missing := names.filter fun name => (find name).isNone
    if missing.isEmpty then .ok (names.filterMap find)
    else .error { fault := .noSuchFunction missing }

end Document

end FlowRegions

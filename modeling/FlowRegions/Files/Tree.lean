import FlowRegions.Files.Path
import FlowRegions.Text.Quoted

/-!
# File trees

Files and directories, each at a location: the names that lead to it from the root.  Operations
take paths relative to a working directory and fail as a file system does.
-/

namespace FlowRegions

/-- Why a file operation failed: the number of the error and its usual wording. -/
structure FileFault where
  code : Nat
  wording : String
deriving DecidableEq, Repr

namespace FileFault

def noEntry : FileFault := ⟨2, "No such file or directory"⟩

def alreadyExists : FileFault := ⟨17, "File exists"⟩

def notDirectory : FileFault := ⟨20, "Not a directory"⟩

def isDirectory : FileFault := ⟨21, "Is a directory"⟩

def nameTooLong : FileFault := ⟨36, "File name too long"⟩

end FileFault

/-- A failed file operation. -/
inductive FileError where
  /-- The path holds the character NUL. -/
  | nul
  | failed (fault : FileFault) (path : String)
deriving DecidableEq, Repr

def FileError.message : FileError → String
  | nul => "embedded null byte"
  | failed fault path => s!"[Errno {fault.code}] {fault.wording}: {Text.quoted path}"

/-- Is something else there already? -/
def FileError.isCollision : FileError → Bool
  | nul => false
  | failed fault _ => fault = .alreadyExists

/-- A location: the names that lead to it from the root. -/
abbrev Location := List String

/-- A file with its content, or a directory with what its names lead to. -/
inductive FileTree where
  | file (content : ByteArray)
  | directory (entries : List (String × FileTree))

namespace FileTree

/-- What a name leads to; from a file it leads nowhere. -/
def child? : FileTree → String → Option FileTree
  | file _, _ => none
  | directory entries, name => entries.lookup name

/-- Lets a name of a directory lead to `child`.  A file stays as it is. -/
def setChild : FileTree → String → FileTree → FileTree
  | file content, _, _ => file content
  | directory entries, name, child =>
    directory ((name, child) :: entries.filter (·.1 ≠ name))

def get? : FileTree → Location → Option FileTree
  | t, [] => some t
  | t, name :: rest =>
    match t.child? name with
    | none => none
    | some child => child.get? rest

/-- Puts something at a location in place of what was there, with the directories that lead to it.
Behind a file nothing is put. -/
def put : FileTree → Location → FileTree → FileTree
  | _, [], new => new
  | t, name :: rest, new => t.setChild name (((t.child? name).getD (directory [])).put rest new)

mutual

def files : FileTree → List (Location × ByteArray)
  | file content => [([], content)]
  | directory entries => filesBelow entries

def filesBelow : List (String × FileTree) → List (Location × ByteArray)
  | [] => []
  | (name, child) :: rest => child.files.map (fun f => (name :: f.1, f.2)) ++ filesBelow rest

end

theorem lookup_filter_ne {name other : String} (h : other ≠ name)
    (entries : List (String × FileTree)) :
    (entries.filter (·.1 ≠ name)).lookup other = entries.lookup other := by
  induction entries with
  | nil => rfl
  | cons first rest ih =>
    obtain ⟨key, child⟩ := first
    by_cases hk : key = name
    · have ho : (other == key) = false := by simpa [hk] using h
      rw [List.lookup_cons, ho, List.filter_cons_of_neg (by simpa using hk)]
      exact ih
    · rw [List.filter_cons_of_pos (by simpa using hk), List.lookup_cons, List.lookup_cons, ih]

@[simp] theorem child?_setChild_self (entries : List (String × FileTree)) (name : String)
    (child : FileTree) : ((directory entries).setChild name child).child? name = some child := by
  simp [child?, setChild]

theorem child?_setChild_of_ne (t : FileTree) {name other : String} (h : other ≠ name)
    (child : FileTree) : (t.setChild name child).child? other = t.child? other := by
  cases t with
  | file content => rfl
  | directory entries =>
    have ho : (other == name) = false := by simpa using h
    have hf := lookup_filter_ne h entries
    simpa [child?, setChild, List.lookup_cons, ho] using hf

/-- Is there no file on the way to a location? -/
def leadsTo : FileTree → Location → Bool
  | _, [] => true
  | file _, _ :: _ => false
  | directory entries, name :: rest =>
    match entries.lookup name with
    | none => true
    | some child => child.leadsTo rest

/-- From an empty directory no file is on any way. -/
@[simp] theorem leadsTo_empty (l : Location) : (directory []).leadsTo l = true := by
  cases l <;> rfl

theorem get?_put_self {t : FileTree} {l : Location} (h : t.leadsTo l = true) (new : FileTree) :
    (t.put l new).get? l = some new := by
  induction l generalizing t with
  | nil => rfl
  | cons name rest ih =>
    cases t with
    | file content => simp [leadsTo] at h
    | directory entries =>
      rw [put, get?, child?_setChild_self]
      apply ih
      rw [leadsTo] at h
      rw [child?]
      cases hl : entries.lookup name with
      | none => exact leadsTo_empty rest
      | some child => simpa [hl] using h

theorem get?_put_of_ne (t : FileTree) {name other : String} (h : other ≠ name)
    (rest behind : Location) (new : FileTree) :
    (t.put (name :: rest) new).get? (other :: behind) = t.get? (other :: behind) := by
  rw [put, get?, get?, child?_setChild_of_ne t h]

/-- The longest name, in bytes, that an entry may have. -/
def maxNameBytes : Nat := 255

/-- The longest path, in bytes, that an operation takes. -/
def maxPathBytes : Nat := 4095

/-- The names that were walked through with what they led to, the last one first. -/
abbrev Trail := List (String × FileTree)

/-- Where a trail has led. -/
def Trail.location (trail : Trail) : Location := (trail.map (·.1)).reverse

/-- What a trail from a root has led to. -/
def Trail.place (root : FileTree) : Trail → FileTree
  | [] => root
  | (_, t) :: _ => t

/-- Walks on through names as far as they lead. -/
def walk (root : FileTree) (trail : Trail) : Location → Trail
  | [] => trail
  | name :: rest =>
    match (trail.place root).child? name with
    | none => trail
    | some t => walk root ((name, t) :: trail) rest

/-- The location that components lead to behind a trail.  All but the last must lead to
directories; the last may lead nowhere. -/
def locate (root : FileTree) (trail : Trail) : List String → Except FileFault Location
  | [] => .ok trail.location
  | part :: rest =>
    if part = "." then locate root trail rest
    else if part = ".." then locate root trail.tail rest
    else if maxNameBytes < part.utf8ByteSize then .error .nameTooLong
    else if rest.isEmpty then .ok (trail.location ++ [part])
    else match (trail.place root).child? part with
      | none => .error .noEntry
      | some (file _) => .error .notDirectory
      | some (directory entries) => locate root ((part, directory entries) :: trail) rest

/-- The location that the text of a path means in a working directory. -/
def find (t : FileTree) (here : Location) (text : String) : Except FileError Location :=
  if text.toList.contains '\x00' then .error .nul
  else if text.isEmpty then .error (.failed .noEntry text)
  else if maxPathBytes < text.utf8ByteSize then .error (.failed .nameTooLong text)
  else
    let start := if text.toList.head? = some '/' then [] else t.walk [] here
    (t.locate start (Path.components text)).mapError (.failed · text)

def stat (t : FileTree) (here : Location) (text : String) : Except FileError FileTree := do
  match t.get? (← t.find here text) with
  | none => throw (.failed .noEntry text)
  | some found => return found

def read (t : FileTree) (here : Location) (text : String) : Except FileError ByteArray := do
  match ← t.stat here text with
  | file content => return content
  | directory _ => throw (.failed .isDirectory text)

/-- Writes a file, which need not be there before. -/
def write (t : FileTree) (here : Location) (text : String) (content : ByteArray) :
    Except FileError FileTree := do
  let l ← t.find here text
  match t.get? l with
  | some (directory _) => throw (.failed .isDirectory text)
  | _ => return t.put l (file content)

/-- Makes a directory in one that is there, unless it is there itself. -/
def makeDirectory (t : FileTree) (here : Location) (text : String) :
    Except FileError FileTree := do
  let l ← t.find here text
  match t.get? l with
  | some (directory _) => return t
  | some (file _) => throw (.failed .alreadyExists text)
  | none => return t.put l (directory [])

/-- The tree after an attempt to make a directory, and how the attempt went. -/
def attemptDirectory (t : FileTree) (here : Location) (text : String) :
    FileTree × Except FileError Unit :=
  match t.makeDirectory here text with
  | .ok t => (t, .ok ())
  | .error e => (t, .error e)

/-- Makes a directory.  Only if there is no directory to put it in, that one is made first, and so
on for so many levels.  What was made before a failure stays. -/
def makeDirectories (t : FileTree) (here : Location) (p : Path) :
    Nat → FileTree × Except FileError Unit
  | 0 => t.attemptDirectory here p.text
  | levels + 1 =>
    match t.attemptDirectory here p.text with
    | (t, .ok ()) => (t, .ok ())
    | (t, .error e) =>
      if e = .failed .noEntry p.text then
        match t.makeDirectories here p.parent levels with
        | (t, .error e) => (t, .error e)
        | (t, .ok ()) => t.attemptDirectory here p.text
      else (t, .error e)

/-- Makes a directory, and first those on the way to it that are not there, component by component.
A dot behind such a directory is taken for made.  What is in the place of a directory on the way is
left for the next component to fail on.  What was made before a failure stays.  The fuel bounds the
components. -/
def makeWay (t : FileTree) (here : Location) : Nat → String → FileTree × Except FileError Unit
  | 0, text => t.attemptDirectory here text
  | fuel + 1, text =>
    let (front, last) := Path.splitLast text
    if front.isEmpty || last.isEmpty || (t.stat here front).isOk then t.attemptDirectory here text
    else
      let arrive (t : FileTree) : FileTree × Except FileError Unit :=
        if last = "." then (t, .ok ()) else t.attemptDirectory here text
      match t.makeWay here fuel front with
      | (t, .ok ()) => arrive t
      | (t, .error e) => if e.isCollision then arrive t else (t, .error e)

end FileTree

end FlowRegions

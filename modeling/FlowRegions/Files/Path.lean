import FlowRegions.Text.LowerCase

/-!
# Paths

A path is a root and the parts behind it.  Empty parts and single dots are dropped when a path is
read; a part of two dots is kept.
-/

namespace FlowRegions

/-- A path.  The root is empty for a relative path, and one or two slashes otherwise. -/
structure Path where
  root : String := ""
  parts : List String := []
deriving DecidableEq, Repr

namespace Path

def pieces : List Char → List (List Char)
  | [] => [[]]
  | c :: rest =>
    match pieces rest with
    | [] => [[c]]
    | piece :: others => if c = '/' then [] :: piece :: others else (c :: piece) :: others

/-- What stands between the slashes of a text. -/
def components (s : String) : List String :=
  ((pieces s.toList).map String.ofList).filter (· ≠ "")

/-- The parts of a text: its components but for single dots. -/
def partsOf (s : String) : List String :=
  (components s).filter (· ≠ ".")

/-- Splits a text into what leads to its last component, and that component, which is empty behind a
slash.  The slashes between them are dropped, unless nothing stands in front of them. -/
def splitLast (s : String) : String × String :=
  let last := s.toList.reverse.takeWhile (· ≠ '/')
  let front := s.toList.reverse.drop last.length
  let bare := front.dropWhile (· = '/')
  (String.ofList (if bare.isEmpty then front else bare).reverse, String.ofList last.reverse)

/-- The root of a text: exactly two slashes are a root of their own. -/
def rootOf (s : String) : String :=
  match (s.toList.takeWhile (· = '/')).length with
  | 0 => ""
  | 2 => "//"
  | _ => "/"

def ofString (s : String) : Path := ⟨rootOf s, partsOf s⟩

/-- The text of a path; the empty relative path is a dot. -/
def text (p : Path) : String :=
  if p.root.isEmpty && p.parts.isEmpty then "." else p.root ++ "/".intercalate p.parts

/-- The last part, empty if there is none. -/
def name (p : Path) : String := p.parts.getLastD ""

def parent (p : Path) : Path := { p with parts := p.parts.dropLast }

/-- The path `q` seen from `p`; a rooted path stays as it is. -/
def join (p q : Path) : Path :=
  if q.root.isEmpty then { p with parts := p.parts ++ q.parts } else q

/-- The part of a name from its last dot on, unless the dot is the first or the last character. -/
def suffixOf (name : String) : String :=
  let tail := name.toList.reverse.takeWhile (· ≠ '.')
  let stem := name.toList.take (name.length - tail.length - 1)
  if tail.isEmpty || stem.isEmpty then "" else String.ofList ('.' :: tail.reverse)

def suffix (p : Path) : String := Text.lowerCase (suffixOf p.name)

/-- Is there a part with the character NUL, which no name in a file system holds? -/
def hasNul (p : Path) : Bool :=
  p.parts.any fun part => part.toList.contains '\x00'

/-- Follows parts from a directory: two dots lead to the directory above. -/
def follow (directory : List String) : List String → List String
  | [] => directory
  | part :: rest =>
    if part = ".." then follow directory.dropLast rest else follow (directory ++ [part]) rest

/-- The absolute path without double dots that `p` means in a working directory. -/
def resolve (here p : Path) : Path := ⟨"/", follow [] (here.join p).parts⟩

@[simp] theorem parts_ofString (s : String) : (ofString s).parts = partsOf s := rfl

end Path

end FlowRegions

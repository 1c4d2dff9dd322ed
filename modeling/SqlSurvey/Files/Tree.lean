import SqlSurvey.Files.Path

/-!
# File trees

A directory tree with the contents of its files, and what a path in it leads to. Paths are followed name
by name: every name but the last must be a directory's.
-/

namespace SqlSurvey

/-- A place in a tree: the names that lead to it from the root directory. -/
abbrev Place : Type := List (List Char)

/-- What may be at a place. -/
inductive Entry where
  | directory
  /-- A file of text. -/
  | text (contents : List Char)
  /-- A file of anything else. -/
  | binary
deriving DecidableEq, Repr

namespace Entry

/-- Whether an entry is a file. -/
def isFile : Entry → Bool
  | directory => false
  | text _ => true
  | binary => true

/-- The text of a file. -/
def text? : Entry → Option (List Char)
  | text contents => some contents
  | _ => none

end Entry

/-- A tree of files. The directories that lead to an entry need no entry of their own. -/
structure FileTree where
  /-- Where relative paths start. -/
  workingDirectory : Place
  entries : List (Place × Entry)
deriving Repr

namespace FileTree

/-- What is at a place. -/
def at? (t : FileTree) (place : Place) : Option Entry :=
  match t.entries.find? fun e => e.1 == place with
  | some e => some e.2
  | none => if place.isEmpty || t.entries.any fun e => place.isPrefixOf e.1 then some .directory else none

/-- The place that pieces of a path lead to. Each must be looked up in a directory; an empty one and a single dot
lead nowhere else, two dots lead to the directory above. -/
def follow (t : FileTree) : List (List Char) → Place → Option Place
  | [], place => some place
  | piece :: r, place =>
    if t.at? place = some .directory then
      if piece = [] ∨ piece = ['.'] then t.follow r place
      else if piece = ['.', '.'] then t.follow r place.dropLast
      else t.follow r (place ++ [piece])
    else none

/-- The place that a path leads to, whether or not anything is there. The empty path leads nowhere. -/
def place? (t : FileTree) (p : Path) : Option Place :=
  if p.text = [] then none
  else t.follow p.pieces (if p.isAbsolute then [] else t.workingDirectory)

/-- What a path leads to. -/
def entry? (t : FileTree) (p : Path) : Option Entry := (t.place? p).bind t.at?

/-- Whether a path leads to a file. -/
def isFile (t : FileTree) (p : Path) : Bool := (t.entry? p).any Entry.isFile

/-- Whether a path leads to a directory. -/
def isDirectory (t : FileTree) (p : Path) : Bool := t.entry? p == some .directory

/-- The text of the file that a path leads to. -/
def read? (t : FileTree) (p : Path) : Option (List Char) := (t.entry? p).bind Entry.text?

/-- The files below a place, each with the names that lead to it from there. -/
def filesBelow (t : FileTree) (place : Place) : List Place :=
  t.entries.filterMap fun e => if e.2.isFile then place.isPrefixOf? e.1 else none

/-- The path of the working directory. -/
def workingPath (t : FileTree) : Path := t.workingDirectory.foldl Path.child ⟨['/']⟩

end FileTree

end SqlSurvey

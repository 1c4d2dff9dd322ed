/-!
# Paths

Paths as text, with the components they are read as: repeated slashes and single dots between components do not
count. Joining and taking the parent keep the text of what they do not touch.
-/

namespace SqlSurvey

/-- A path, as it is written. -/
structure Path where
  text : List Char
deriving DecidableEq, Repr, Inhabited

namespace Path

/-- A step that a path takes. -/
inductive Component where
  /-- To the root directory. -/
  | root
  /-- A single dot at the beginning. -/
  | here
  /-- To the directory above. -/
  | up
  /-- To what a directory holds under a name. -/
  | name (s : List Char)
deriving DecidableEq, Repr

/-- The path of a text. -/
def ofString (s : String) : Path := ⟨s.toList⟩

/-- The text of a path. -/
def toString (p : Path) : String := String.ofList p.text

/-- Whether a path starts at the root directory. -/
def isAbsolute (p : Path) : Bool := p.text.head? == some '/'

/-! ## Components -/

/-- The texts between the slashes of a path, which may be empty. -/
def pieces (p : Path) : List (List Char) := p.text.splitOnP fun c => c == '/'

/-- The component that a piece of a path stands for, if it stands for one. Only at the beginning does a single
dot. -/
def component? (isFirst : Bool) (piece : List Char) : Option Component :=
  if piece = [] then none
  else if piece = ['.'] then (if isFirst then some .here else none)
  else if piece = ['.', '.'] then some .up
  else some (.name piece)

/-- The components of pieces, each with the number of characters up to its end. `start` counts the
characters before the pieces. -/
def componentEnds (isFirst : Bool) (start : Nat) : List (List Char) → List (Component × Nat)
  | [] => []
  | piece :: r =>
    let stop := start + piece.length
    let rest := componentEnds false (stop + 1) r
    match component? isFirst piece with
    | some c => (c, stop) :: rest
    | none => rest

/-- The components of a path, each with the number of characters up to its end. -/
def ends (p : Path) : List (Component × Nat) :=
  let relative := componentEnds true 0 p.pieces
  if p.isAbsolute then (.root, 1) :: relative else relative

/-- The components of a path. -/
def components (p : Path) : List Component := p.ends.map Prod.fst

/-- The name in the last component of a path. -/
def fileName? (p : Path) : Option (List Char) :=
  match p.components.getLast? with
  | some (.name s) => some s
  | _ => none

/-- What stands behind the last dot of a file name. A dot at the beginning does not count. -/
def extension? (p : Path) : Option (List Char) := do
  let name ← p.fileName?
  let ending := name.reverse.takeWhile fun c => c != '.'
  if name.length ≤ ending.length + 1 then none else some ending.reverse

/-! ## Operations -/

/-- A path from another one. An absolute path is not changed. -/
def join (p q : Path) : Path :=
  if q.isAbsolute then q
  else if p.text = [] ∨ p.text.getLast? = some '/' then ⟨p.text ++ q.text⟩
  else ⟨p.text ++ '/' :: q.text⟩

/-- A name in the directory of a path. -/
def child (p : Path) (name : List Char) : Path := p.join ⟨name⟩

/-- The paths of the directories above a path, the nearest first: the path up to the end of each component but the
last, and for a relative path the empty one. -/
def above (p : Path) : List Path :=
  (p.ends.reverse.tail.map fun e => ⟨p.text.take e.2⟩) ++
    if p.isAbsolute || p.ends.isEmpty then [] else [⟨[]⟩]

/-- A path without its last component. The root directory and the empty path have none. -/
def parent? (p : Path) : Option Path := p.above.head?

/-- What follows the components of a base in those of a path. -/
def componentsBelow (p base : Path) : Option (List Component) :=
  base.components.isPrefixOf? p.components

/-- A path from the root directory, where relative paths start at a working directory. Repeated slashes and single
dots are left out, steps upward are kept. -/
def absolute (p workingDirectory : Path) : Path :=
  if p.text = [] then p
  else
    let start : Path :=
      if ['/', '/'].isPrefixOf p.text && !(['/', '/', '/'].isPrefixOf p.text) then ⟨['/', '/']⟩
      else if p.isAbsolute then ⟨['/']⟩
      else workingDirectory
    let joined := p.components.foldl push start
    if p.text.getLast? = some '/' then joined.join ⟨[]⟩ else joined
where
  /-- A path with one more component. -/
  push (p : Path) : Component → Path
    | .root => p
    | .here => p
    | .up => p.child ['.', '.']
    | .name s => p.child s

/-! ## Order -/

/-- The place of a component in the order of components, which compares names by their characters. -/
def Component.rank : Component → List Nat
  | root => [0]
  | here => [1]
  | up => [2]
  | name s => 3 :: s.map Char.toNat

/-- Whether a path comes before another one: it has fewer components, or as many that are smaller. -/
def shallower (p q : Path) : Bool :=
  let m := p.components.length
  let n := q.components.length
  decide (m < n) ||
    (m == n && decide (p.components.map Component.rank < q.components.map Component.rank))

end Path

end SqlSurvey

import SqlSurvey.Files.Tree

/-!
# Detection

Where the schema and the functions of a project are looked for: in well-known directories first, and the schema then
anywhere below the base, nearest first. Directories of dependencies and of build results are passed over.
-/

namespace SqlSurvey

/-- The files of a project that were found. -/
structure FoundFiles where
  schemaPath : Option Path
  functionsPath : Option Path
deriving DecidableEq, Repr

namespace FoundFiles

/-- The names a schema file may have, the likeliest first. -/
def schemaNames : List String := ["schema.ts", "schema.js"]

/-- The names a functions file may have, the likeliest first. -/
def functionsNames : List String :=
  ["index.ts", "index.js", "queries.ts", "queries.js", "db.ts", "db.js"]

/-- The well-known directories, the likeliest first. -/
def knownDirectories : List String :=
  [".", "src/db", "src/database", "db", "database", "lib/db", "lib/database"]

/-- The directories whose contents do not count. -/
def passedOver : List String := ["node_modules", ".git", "dist", "target"]

/-- The first of some names that a file in a directory has. -/
def inDirectory? (t : FileTree) (directory : Path) (names : List String) : Option Path :=
  (names.map fun n => directory.join (.ofString n)).find? t.isFile

/-- The first of some names that a file in a well-known directory has. -/
def known? (t : FileTree) (base : Path) (names : List String) : Option Path :=
  knownDirectories.findSome? fun d => inDirectory? t (base.join (.ofString d)) names

/-! ## Search below a directory -/

/-- A path with one more piece, where the working directory itself is left out. -/
def extend (p : Path) (piece : List Char) : Path :=
  if p.components = [.here] then ⟨piece⟩ else p.child piece

/-- The path that the paths found below a directory begin with: that of the directory without single dots at its
beginning. There is none if a slash too many follows such a dot. -/
def searchRoot? (base : Path) : Option Path :=
  if base.isAbsolute then
    -- what stands before the first name is kept as it is written
    let slashes := base.pieces.takeWhile fun s => s == [] || s == ['.']
    let start : Path := ⟨(base.text ++ ['/']).take (slashes.foldl (fun n s => n + s.length + 1) 0)⟩
    some ((base.pieces.drop slashes.length).foldl extend start)
  else
    let start : Path := ⟨['.']⟩
    base.pieces.foldlM (fun (p : Path) piece => if (extend p piece).text = [] then none else some (extend p piece))
      start

/-- Whether a path found below a base leads through a directory that is passed over. -/
def isPassedOver (base p : Path) : Bool :=
  ((p.componentsBelow base).getD p.components).any fun c =>
    passedOver.any fun d => c == .name d.toList

/-- The files of some names below a directory. -/
def below (t : FileTree) (base : Path) (names : List String) : List Path :=
  match searchRoot? base, t.place? base with
  | some root, some place =>
    let named := (t.filesBelow place).filter fun r =>
      names.any fun n => r.getLast? == some n.toList
    (named.map fun r => r.foldl extend root).filter fun p => !isPassedOver base p
  | _, _ => []

/-- The path with the fewest components; of several the first in their order. -/
def shallowest? (ps : List Path) : Option Path :=
  ps.foldl (fun best p =>
    match best with
    | none => some p
    | some b => if p.shallower b then some p else some b) none

/-- The files of the project in a directory. Beside a schema that is found by searching, the functions are looked
for too. -/
def detect (t : FileTree) (base : Path) : FoundFiles :=
  let schema := known? t base schemaNames
  let functions := known? t base functionsNames
  if schema.isNone && t.isDirectory base then
    let found := shallowest? (below t base schemaNames)
    { schemaPath := found
      functionsPath := functions.or
        ((found.bind Path.parent?).bind fun d => inDirectory? t d functionsNames) }
  else ⟨schema, functions⟩

end FoundFiles

end SqlSurvey

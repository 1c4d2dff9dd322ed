import SqlSurvey.CommandLine.Run

/-!
# The program

Takes down what the commands may look at in the file system, runs the command on that, and prints what
comes out.
-/

namespace SqlSurvey.Main

/-- The path of a place. -/
def pathOf (place : Place) : String := (place.foldl Path.child ⟨['/']⟩).toString

/-- The entry at a place, with the text of a file if it is wanted. -/
def entryAt (place : Place) (isWanted : Bool) : IO (List (Place × Entry)) := do
  let here := (← IO.currentDir) / pathOf place
  if ← here.isDir then return [(place, .directory)]
  if !(← here.pathExists) then return []
  if !isWanted then return [(place, .binary)]
  let contents ← try IO.FS.readBinFile here catch _ => return []
  match String.fromUTF8? contents with
  | some text => return [(place, .text text.toList)]
  | none => return [(place, .binary)]

/-- The entries on the way of a path, the last one with its text. -/
def entriesOn (t : FileTree) (p : Path) : IO (List (Place × Entry)) := do
  let mut place : Place := if p.isAbsolute then [] else t.workingDirectory
  let mut found : List (Place × Entry) := []
  for piece in p.pieces do
    if piece = ['.', '.'] then place := place.dropLast
    else if piece ≠ [] ∧ piece ≠ ['.'] then place := place ++ [piece]
    found := found ++ (← entryAt place true)
  return found

/-- The entries below a place. Only the files that a search may find have their texts. -/
partial def entriesBelow (place : Place) : IO (List (Place × Entry)) := do
  let here := (← IO.currentDir) / pathOf place
  let children ← try here.readDir catch _ => return []
  let mut found : List (Place × Entry) := []
  for child in children do
    let isWanted := (FoundFiles.schemaNames ++ FoundFiles.functionsNames).contains child.fileName
    let below := place ++ [child.fileName.toList]
    found := found ++ (← entryAt below isWanted)
    if (← child.path.isDir) && !FoundFiles.passedOver.contains child.fileName then
      found := found ++ (← entriesBelow below)
  return found

/-- A tree with the entries on the way of some paths. -/
def withPaths (t : FileTree) (ps : List Path) : IO FileTree := do
  let mut entries := t.entries
  for p in ps do
    entries := entries ++ (← entriesOn t p)
  return { t with entries := entries }

/-- A tree with the entries below the directory of a path. -/
def withTree (t : FileTree) (base : Path) : IO FileTree := do
  let t ← withPaths t [base]
  match t.place? base with
  | some place => return { t with entries := t.entries ++ (← entriesBelow place) }
  | none => return t

/-- What a command may look at. -/
def lookAt (c : CommandLine.Command) (t : FileTree) : IO FileTree := do
  match c with
  | .detect directory _ => withTree t directory
  | .fragments file _ => withPaths t [file]
  | .schema o | .functions o | .relationships o | .info o =>
    let above := (t.workingPath :: t.workingPath.above).map fun d => d.join Config.fileName
    let t ← withPaths t (o.config.toList ++ above)
    match Config.inUse t o with
    | .error _ => return t
    | .ok config =>
      let t ← withPaths t (config.schema.toList ++ config.functions.toList)
      if config.schema.isSome && config.functions.isSome then return t
      withTree t (config.dir.getD (.ofString "."))

/-- Runs the program. -/
def runIn (arguments : List String) : IO UInt32 := do
  let here := Path.ofString (← IO.currentDir).toString
  let t : FileTree := ⟨here.pieces.filter fun n => !n.isEmpty, []⟩
  let t ←
    match CommandLine.Request.ofArguments? arguments with
    | some (.run c) => lookAt c t
    | _ => pure t
  let outcome := CommandLine.run t arguments
  IO.print outcome.output
  match outcome with
  | .printed _ => pure ()
  | .refused => IO.eprintln CommandLine.helpText
  | .failed cause => IO.eprintln s!"Error: {cause.message}"
  return outcome.code.toUInt32

end SqlSurvey.Main

/-- The command line of the program. -/
def main (arguments : List String) : IO UInt32 := SqlSurvey.Main.runIn arguments

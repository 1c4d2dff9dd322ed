import SqlSurvey.Settings.Config

/-!
# Arguments

The command line: a command by its name, options before and after it, and the files that it takes. An option is
written `--name value`, `--name=value` or with one letter, whose value may follow directly; letters without
values may share a hyphen. Two hyphens end the options. Only the option for more output may be repeated.
-/

namespace SqlSurvey.CommandLine

/-- An option with a value. -/
inductive Setting where
  | schema
  | functions
  | dir
  | config
  | format
deriving DecidableEq, Repr

/-- An option without a value. -/
inductive Switch where
  | verbose
  | quiet
  | help
  | version
deriving DecidableEq, Repr

/-- A command by its name. -/
inductive CommandName where
  | schema
  | functions
  | relationships
  | info
  | detect
  | fragments
deriving DecidableEq, Repr

/-- A command with what it needs. -/
inductive Command where
  | schema (options : SourceOptions)
  | functions (options : SourceOptions)
  | relationships (options : SourceOptions)
  | info (options : SourceOptions)
  | detect (directory : Path) (format : Format)
  | fragments (file : Path) (format : Format)
deriving DecidableEq, Repr

/-- What arguments ask for. -/
inductive Request where
  | run (command : Command)
  /-- The version, of the program or of a command of it. -/
  | version (command : Option CommandName)
  | help
deriving DecidableEq, Repr

/-! ## Names -/

/-- The options with values and their names. -/
def Setting.names : List (String × Setting) :=
  [("schema", .schema), ("functions", .functions), ("dir", .dir), ("config", .config), ("format", .format)]

/-- The letters of options with values. -/
def Setting.letters : List (Char × Setting) := [('s', .schema), ('f', .functions), ('d', .dir)]

/-- The options without values and their names. -/
def Switch.names : List (String × Switch) :=
  [("verbose", .verbose), ("quiet", .quiet), ("help", .help), ("version", .version)]

/-- The letters of options without values. -/
def Switch.letters : List (Char × Switch) :=
  [('v', .verbose), ('q', .quiet), ('h', .help), ('V', .version)]

/-- The commands and their names. -/
def CommandName.names : List (String × CommandName) :=
  [("schema", .schema), ("functions", .functions), ("relationships", .relationships), ("info", .info),
    ("detect", .detect), ("fragments", .fragments)]

/-- The name of a command. -/
def CommandName.text : CommandName → String
  | schema => "schema"
  | functions => "functions"
  | relationships => "relationships"
  | info => "info"
  | detect => "detect"
  | fragments => "fragments"

/-- The options with values that a command takes. -/
def CommandName.settings : CommandName → List Setting
  | detect => [.format]
  | fragments => [.format]
  | _ => [.schema, .functions, .dir, .config, .format]

/-- How many files or directories a command may be given. -/
def CommandName.capacity : CommandName → Nat
  | info => 0
  | _ => 1

/-! ## Reading arguments -/

/-- Why arguments are not read to their end. -/
inductive Stop where
  /-- They break the rules. -/
  | refused
  /-- They ask for the version. -/
  | version
  /-- They ask for help. -/
  | help
deriving DecidableEq, Repr

/-- What has been read of the arguments of a command. -/
structure Given where
  settings : List (Setting × List Char)
  isQuiet : Bool
  files : List (List Char)
deriving Repr

namespace Given

/-- Nothing has been read. -/
def nothing : Given := ⟨[], false, []⟩

/-- The value of an option. -/
def value? (g : Given) (s : Setting) : Option (List Char) :=
  (g.settings.find? fun e => e.1 == s).map Prod.snd

/-- The path that an option gives. -/
def path? (g : Given) (s : Setting) : Option Path := (g.value? s).map Path.mk

/-- The form of the report that is asked for. -/
def format? (g : Given) : Option Format := (g.value? .format).bind fun v => Format.ofName? (String.ofList v)

/-- With one more option. A path must not be empty, a form must be known, and no option may be repeated. -/
def set (g : Given) (s : Setting) (value : List Char) : Except Stop Given :=
  let isGood := if s = .format then (Format.ofName? (String.ofList value)).isSome else !value.isEmpty
  if isGood && (g.value? s).isNone then .ok { g with settings := (s, value) :: g.settings }
  else .error .refused

/-- With one more option without a value. -/
def switch (g : Given) : Switch → Except Stop Given
  | .verbose => .ok g
  | .quiet => if g.isQuiet then .error .refused else .ok { g with isQuiet := true }
  | .help => .error .help
  | .version => .error .version

/-- With one more file, of at most so many. -/
def file (g : Given) (capacity : Nat) (f : List Char) : Except Stop Given :=
  if f.isEmpty || decide (capacity ≤ g.files.length) then .error .refused
  else .ok { g with files := g.files ++ [f] }

/-- With the rest of the arguments as files. -/
def onlyFiles (g : Given) (capacity : Nat) (fs : List (List Char)) : Except Stop Given :=
  fs.foldlM (fun g f => g.file capacity f) g

end Given

/-- An argument that is not a value: it begins with a hyphen and is longer. -/
def isOption (a : List Char) : Bool := a.head? == some '-' && decide (1 < a.length)

/-- The value of an option from the argument behind it, and the arguments behind that. -/
def valueBehind (rest : List (List Char)) : Except Stop (List Char × List (List Char)) :=
  match rest with
  | v :: r => if isOption v then .error .refused else .ok (v, r)
  | [] => .error .refused

/-- Reads an option with a name, given without its hyphens, and says which arguments are left. -/
def readNamed (accepted : List Setting) (g : Given) (text : List Char) (rest : List (List Char)) :
    Except Stop (Given × List (List Char)) := do
  let name := text.takeWhile fun c => c != '='
  let attached := if name.length = text.length then none else some (text.drop (name.length + 1))
  match Switch.names.lookup (String.ofList name), Setting.names.lookup (String.ofList name) with
  | some s, _ =>
    if attached.isSome then throw .refused
    return (← g.switch s, rest)
  | none, some s =>
    if !accepted.contains s then throw .refused
    match attached with
    | some v => return (← g.set s v, rest)
    | none =>
      let (v, r) ← valueBehind rest
      return (← g.set s v, r)
  | none, none => throw .refused

/-- Reads options with letters, given without their hyphen, and says which arguments are left. -/
def readLetters (accepted : List Setting) (g : Given) (letters : List Char) (rest : List (List Char)) :
    Except Stop (Given × List (List Char)) :=
  match letters with
  | [] => .ok (g, rest)
  | c :: r =>
    match Switch.letters.lookup c, Setting.letters.lookup c with
    | some s, _ => (g.switch s).bind fun g => readLetters accepted g r rest
    | none, some s =>
      if !accepted.contains s then .error .refused
      else if r.isEmpty then
        (valueBehind rest).bind fun p => (g.set s p.1).map fun g => (g, p.2)
      else (g.set s (if r.head? = some '=' then r.tail else r)).map fun g => (g, rest)
    | none, none => .error .refused

/-- Reads one option, and says which arguments are left. -/
def readOption (accepted : List Setting) (g : Given) (a : List Char) (rest : List (List Char)) :
    Except Stop (Given × List (List Char)) :=
  match a with
  | '-' :: '-' :: name => readNamed accepted g name rest
  | _ => readLetters accepted g a.tail rest

/-- Reads the arguments of a command. The number bounds how many there are. -/
def readArguments (name : CommandName) : Nat → Given → List (List Char) → Except Stop Given
  | _, g, [] => .ok g
  | 0, _, _ => .error .refused
  | fuel + 1, g, a :: rest =>
    if a = ['-', '-'] then g.onlyFiles name.capacity rest
    else if isOption a then
      (readOption name.settings g a rest).bind fun p => readArguments name fuel p.1 p.2
    else (g.file name.capacity a).bind fun g => readArguments name fuel g rest

/-! ## Requests -/

/-- The options for the files of a project. -/
def Given.options (g : Given) : SourceOptions where
  schema := g.path? .schema
  functions := g.path? .functions
  dir := g.path? .dir
  config := g.path? .config
  format := g.format?

/-- The command that arguments describe. A file takes the place of the option for it. -/
def CommandName.command? (name : CommandName) (g : Given) : Option Command :=
  let file : Option Path := g.files.head?.map Path.mk
  let o := g.options
  let withSchema : SourceOptions := { o with schema := file.or o.schema }
  match name with
  | schema => some (.schema withSchema)
  | functions => some (.functions { o with functions := file.or o.functions })
  | relationships => some (.relationships withSchema)
  | info => some (.info o)
  | detect => some (.detect (file.getD (.ofString ".")) (g.format?.getD .human))
  | fragments => file.map fun f => .fragments f (g.format?.getD .human)

/-- The request for a command with arguments. -/
def requestOf (name : CommandName) (arguments : List (List Char)) : Option Request :=
  match readArguments name arguments.length .nothing arguments with
  | .ok g => (name.command? g).map .run
  | .error .version => some (.version (some name))
  | .error .help => some .help
  | .error .refused => none

/-- Whether arguments name something that there is help for. -/
def asksForHelp (arguments : List (List Char)) : Bool :=
  match arguments with
  | [] => true
  | [a] => a == "help".toList || (CommandName.names.lookup (String.ofList a)).isSome
  | _ => false

/-- Reads the arguments up to the name of the command and the rest with it. -/
def readRequest (g : Given) (arguments : List (List Char)) : Option Request :=
  match arguments with
  | [] => none
  | a :: rest =>
    if isOption a then
      match readOption [] g a [] with
      | .ok (g, _) => readRequest g rest
      | .error .version => some (.version none)
      | .error .help => some .help
      | .error .refused => none
    else if a = "help".toList then (if asksForHelp rest then some .help else none)
    else (CommandName.names.lookup (String.ofList a)).bind fun name => requestOf name rest

/-- What arguments ask for, unless they break the rules. -/
def Request.ofArguments? (arguments : List String) : Option Request :=
  readRequest .nothing (arguments.map String.toList)

end SqlSurvey.CommandLine

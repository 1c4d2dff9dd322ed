/-!
# TOML documents

A document is a table that grows line by line: a header opens a table or adds an element to a list of tables, a
pair adds a value to the table that is open. No key is defined twice, and a table is opened only once,
however it came about.
-/

namespace SqlSurvey

/-- How a table came about. -/
inductive Toml.Origin where
  /-- By a header of its own, or as an element of a list of tables. -/
  | header
  /-- As a part of the path in a header. -/
  | implied
  /-- As a part of the path in a pair. -/
  | dotted
  /-- In braces. Such a table is complete. -/
  | inline
deriving DecidableEq, Repr

/-- A value of a document. -/
inductive Toml where
  | string (s : List Char)
  /-- A number, a truth value, a date or a time. -/
  | scalar (text : List Char)
  | array (items : List Toml)
  | table (origin : Toml.Origin) (entries : List (List Char × Toml))
  /-- The tables of a list that headers add to. -/
  | tables (elements : List (List (List Char × Toml)))
deriving Repr

namespace Toml

/-- What a table holds: keys with their values. -/
abbrev Entries : Type := List (List Char × Toml)

/-- The value of a key. -/
def get? (entries : Entries) (key : List Char) : Option Toml :=
  (entries.find? fun e => e.1 == key).map Prod.snd

/-- A table with another value for a key, which may be new. -/
def put (entries : Entries) (key : List Char) (value : Toml) : Entries :=
  if entries.any fun e => e.1 == key then
    entries.map fun e => if e.1 == key then (key, value) else e
  else entries ++ [(key, value)]

/-- Changes the table at the end of a path. Tables that are missing on the way are made with the origin
`made`. A path in a pair (`made` is `dotted`) does not enter tables that have a header, none
enters a table in braces, and in a list of tables a path goes through the last one. -/
def modifyAt (made : Origin) (change : Origin → Entries → Option Entries) :
    List (List Char) → Origin → Entries → Option Entries
  | [], origin, entries => change origin entries
  | key :: path, _, entries =>
    match get? entries key with
    | none => (modifyAt made change path made []).map fun t => put entries key (table made t)
    | some (table origin t) =>
      if origin = .inline ∨ (made = .dotted ∧ origin = .header) then none
      else (modifyAt made change path origin t).map fun t => put entries key (table origin t)
    | some (tables elements) =>
      (modifyAt made change path .header (elements.getLast?.getD [])).map fun t =>
        put entries key (tables (elements.dropLast ++ [t]))
    | some _ => none

/-- Adds a pair to a table, where the key may be a path. Tables that paths in headers imply are not
entered for good by a path in a pair. -/
def define (path : List (List Char)) (value : Toml) (origin : Origin) (entries : Entries) :
    Option Entries :=
  match path.getLast? with
  | none => none
  | some key =>
    modifyAt .dotted (fun origin entries =>
        -- only a table that paths in pairs made grows by another such path
        if path.dropLast ≠ [] ∧ origin ≠ .dotted then none
        else if (get? entries key).isSome then none
        else some (put entries key value))
      path.dropLast origin entries

/-- Opens the table at a path: a new one, or one that was only implied. -/
def openTable (path : List (List Char)) (document : Entries) : Option Entries :=
  match path.getLast? with
  | none => none
  | some key =>
    modifyAt .implied (fun _ entries =>
        match get? entries key with
        | none => some (put entries key (table .header []))
        | some (table .implied t) => some (put entries key (table .header t))
        | some _ => none)
      path.dropLast .header document

/-- Adds an element to the list of tables at a path, which may be new. -/
def openElement (path : List (List Char)) (document : Entries) : Option Entries :=
  match path.getLast? with
  | none => none
  | some key =>
    modifyAt .implied (fun _ entries =>
        match get? entries key with
        | none => some (put entries key (tables [[]]))
        | some (tables elements) => some (put entries key (tables (elements ++ [[]])))
        | some _ => none)
      path.dropLast .header document

/-- A document with one more pair in the table that is open. -/
def defineUnder (opened path : List (List Char)) (value : Toml) (document : Entries) : Option Entries :=
  modifyAt .implied (define path value) opened .header document

end Toml

end SqlSurvey

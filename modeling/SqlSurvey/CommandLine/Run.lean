import SqlSurvey.Report.Basic
import SqlSurvey.CommandLine.Arguments

/-!
# Running commands

What the program prints for its arguments, given the files.
-/

namespace SqlSurvey.CommandLine

/-- How a run ends. -/
inductive Outcome where
  /-- With a text on the standard output. -/
  | printed (text : String)
  /-- The arguments break the rules. -/
  | refused
  /-- The command cannot do its work. -/
  | failed (cause : Failure)
deriving DecidableEq, Repr

namespace Outcome

/-- The exit code of the program. -/
def code : Outcome → Nat
  | printed _ => 0
  | refused => 2
  | failed _ => 2

/-- The standard output of the program. -/
def output : Outcome → String
  | printed text => text
  | _ => ""

end Outcome

/-- The name of the program. -/
def programName : String := "dbviewer"

/-- The version of the program. -/
def programVersion : String := "0.1.0"

/-- The line for the version of the program or of a command. -/
def versionText (command : Option CommandName) : String :=
  match command with
  | none => s!"{programName} {programVersion}"
  | some c => s!"{programName}-{c.text} {programVersion}"

/-- A summary of the commands and options. -/
def helpText : String :=
  Report.lines [
    s!"Usage: {programName} [OPTIONS] <COMMAND>",
    "",
    "Commands: schema, functions, relationships, info, detect, fragments",
    "Options:  -s, --schema FILE; -f, --functions FILE; -d, --dir DIR; --config FILE;",
    "          --format human|json; -v, --verbose; -q, --quiet; -h, --help; -V, --version"]

/-- The report of a command. -/
def Command.report (t : FileTree) : Command → Except Failure String
  | .schema o => do
    let x ← Context.load t o
    return Report.schema x.format (← x.theSchema)
  | .functions o => do
    let x ← Context.load t o
    return Report.catalog x.format (← x.theFunctions)
  | .relationships o => do
    let x ← Context.load t o
    return Report.relationships x.format (← x.relationships)
  | .info o => do
    let x ← Context.load t o
    return Report.info x.format (x.info t)
  | .detect directory format => .ok (Report.found format (FoundFiles.detect t directory))
  | .fragments file format =>
    match t.read? file with
    | none => .error (.unreadable file)
    | some source => .ok (Report.fragments format (Fragment.allIn source))

/-- A run of the program. -/
def run (t : FileTree) (arguments : List String) : Outcome :=
  match Request.ofArguments? arguments with
  | none => .refused
  | some (.version c) => .printed (versionText c ++ "\n")
  | some .help => .printed (helpText ++ "\n")
  | some (.run c) =>
    match c.report t with
    | .ok text => .printed (text ++ "\n")
    | .error cause => .failed cause

end SqlSurvey.CommandLine

import EpicsDb.Check
import EpicsDb.CommandLine.Request
import EpicsDb.Config.File
import EpicsDb.Database.Cursor
import EpicsDb.Dump

/-!
# Outcomes

What a run of the program prints, and how it ends.  A run depends on the files through the function
`read` alone, which gives the text at a path.

`checkFiles` checks one file after another.  A file that cannot be read or parsed is only listed at
the end.
-/

namespace EpicsDb

/-- What a run prints, and how it ends. -/
structure Outcome where
  exit : Nat
  stdout : String
  /-- Why the run broke off. -/
  failure : Option String
  deriving DecidableEq, Repr

/-- How files are read. -/
abbrev FileReader := String → Except ReadError String

/-! ## Files -/

/-- Why there is no database in a file. -/
inductive FileError
  | unreadable (reason : ReadError)
  | malformed (reason : SyntaxError)
  deriving DecidableEq, Repr

/-- The wording of the reason. -/
def FileError.message : FileError → String
  | unreadable reason => "could not read file: " ++ reason.message
  | malformed reason => reason.message

/-- The database in the file at a path. -/
def Database.load (read : FileReader) (path : String) : Except FileError Database :=
  match read path with
  | .error reason => .error (.unreadable reason)
  | .ok text =>
    match Database.parse text with
    | .error reason => .error (.malformed reason)
    | .ok db => .ok (db.withSource path)

/-! ## Checking files -/

/-- The text with a line break after it. -/
def textLine (s : String) : String :=
  s ++ "\n"

/-- What is printed about a file that could be parsed. -/
def fileBlock (path : String) (report : Report) : String :=
  let listing (severity : Severity) : String :=
    let messages := report.messages severity
    if messages.isEmpty then "" else textLine (bulletList severity.title messages)
  let verdict :=
    if report.hasErrors then
      "❌ " ++ path ++ " failed (" ++ toString report.errors.length ++ " errors, " ++
        toString report.warnings.length ++ " warnings)"
    else "✅ " ++ path ++ " passed (" ++ toString report.warnings.length ++ " warnings)"
  textLine ("Checking " ++ path) ++ listing .warning ++ listing .error ++ textLine verdict

/-- The report on the file at a path. -/
def checkFile (read : FileReader) (config : Config) (path : String) : Except FileError Report :=
  match Database.load read path with
  | .error e => .error e
  | .ok db => .ok (db.check config)

/-- What is known about the files that have been checked. -/
structure Summary where
  /-- What has been printed. -/
  printed : String
  checked : Nat
  errors : Nat
  warnings : Nat
  /-- The files that could not be read or parsed, with the reasons. -/
  failed : List String
  deriving DecidableEq, Repr

namespace Summary

/-- No file has been checked. -/
def empty : Summary :=
  ⟨"", 0, 0, 0, []⟩

/-- The summary with the result of one more file. -/
def collect (s : Summary) (path : String) : Except FileError Report → Summary
  | .error e => { s with failed := s.failed ++ [path ++ ": " ++ e.message] }
  | .ok report =>
    ⟨s.printed ++ fileBlock path report, s.checked + 1, s.errors + report.errors.length,
      s.warnings + report.warnings.length, s.failed⟩

/-- The summary with one more file. -/
def add (read : FileReader) (config : Config) (s : Summary) (path : String) : Summary :=
  s.collect path (checkFile read config path)

/-- Whether every file could be parsed and has no errors. -/
def passed (s : Summary) : Bool :=
  s.errors == 0 && s.failed.isEmpty

/-- What is printed after the files. -/
def closing (s : Summary) : String :=
  textLine (toString s.checked ++ " files checked: " ++ toString s.errors ++ " errors, " ++
      toString s.warnings ++ " warnings") ++
    if s.failed.isEmpty then ""
    else textLine (bulletList "Failed to parse the following files" s.failed)

/-- How a run ends that has the summary. -/
def outcome (s : Summary) : Outcome :=
  ⟨if s.passed then 0 else 1, s.printed ++ s.closing, none⟩

end Summary

/-- The summary of a list of files. -/
def summarize (read : FileReader) (config : Config) (files : List String) : Summary :=
  files.foldl (Summary.add read config) .empty

/-- Checks a list of files. -/
def checkFiles (read : FileReader) (config : Config) (files : List String) : Outcome :=
  (summarize read config files).outcome

/-! ## Commands -/

/-- The text about a run that broke off, with the cause if there is one. -/
def brokenOff (text : String) (cause : Option String) : Outcome :=
  let causedBy :=
    match cause with
    | some cause => "\n\nCaused by:\n    " ++ cause
    | none => ""
  ⟨1, "", some ("Error: " ++ text ++ causedBy)⟩

/-- Dumps the database in a file. -/
def dumpFile (read : FileReader) (path : String) : Outcome :=
  match Database.load read path with
  | .ok db => ⟨0, textLine db.dump, none⟩
  | .error (.unreadable reason) =>
    brokenOff (FileError.unreadable reason).message (some reason.message)
  | .error (.malformed reason) => brokenOff reason.message none

/-- The version of the program. -/
def versionNumber : String :=
  "0.1.0"

/-- How the program is used, in the library's own words. -/
def helpText : String :=
  "Usage: dbcheck [-v] [-c CONFIG] COMMAND\n\n" ++
    "  check [--strict] [--no-syntax] [--no-pv] FILES...  checks files\n" ++
    "  dump FILE                                          prints a file as JSON\n" ++
    "  version                                            prints the version\n"

/-- What the flags make of a configuration. -/
def CheckFlags.configure (flags : CheckFlags) (config : Config) : Config :=
  { config with
    strict := config.strict || flags.strict
    names := config.names && !flags.skipNames
    contents := config.contents && !flags.skipContents }

/-- Does what a command asks for. -/
def Command.perform (read : FileReader) (config : Config) : Command → Outcome
  | check files flags => checkFiles read (flags.configure config) files
  | dump file => dumpFile read file
  | version => ⟨0, textLine ("dbcheck v" ++ versionNumber), none⟩

/-- Does what a request asks for.  A configuration that cannot be loaded comes before everything
else. -/
def Request.perform (read : FileReader) : Request → Outcome
  | showVersion => ⟨0, textLine ("dbcheck " ++ versionNumber), none⟩
  | showHelp => ⟨0, helpText, none⟩
  | run none command => command.perform read .default
  | run (some path) command =>
    match Config.load read path with
    | .ok config => command.perform read config
    | .error e => brokenOff ("failed to load config " ++ path) (some e.message)

/-- Runs the program.  Misused arguments end it with status two. -/
def runProgram (read : FileReader) (arguments : List String) : Outcome :=
  match parseArguments arguments with
  | some request => request.perform read
  | none => ⟨2, "", none⟩

end EpicsDb

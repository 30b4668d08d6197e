/-!
# Requests

What the arguments of the program ask for.  Options stand before or after the command: `-v` and `-c`
belong to both places and may stand once in each, and of two configurations the one after the
command counts.  After `--` everything is a file.

Help can be asked for in each place, and also by a command of its own.

`parseArguments` gives no request where the arguments are misused.
-/

namespace EpicsDb

/-- The flags of the command that checks files. -/
structure CheckFlags where
  strict : Bool
  skipNames : Bool
  skipContents : Bool
  deriving DecidableEq, Repr

/-- What is to be done. -/
inductive Command
  | check (files : List String) (flags : CheckFlags)
  | dump (file : String)
  | version
  deriving DecidableEq, Repr

/-- What the program is asked for. -/
inductive Request
  /-- The program tells its version and ends. -/
  | showVersion
  /-- The program tells how it is used and ends. -/
  | showHelp
  /-- A command, under a configuration that may be kept in a file. -/
  | run (config : Option String) (command : Command)
  deriving DecidableEq, Repr

/-! ## Arguments -/

/-- The commands, and the place before any command. -/
inductive Scope
  | program
  | check
  | dump
  | version
  deriving DecidableEq, Repr

/-- The scope of a command. -/
def Scope.ofWord? (word : String) : Option Scope :=
  if word = "check" then some .check
  else if word = "dump" then some .dump
  else if word = "version" then some .version
  else none

/-- Whether help can be asked for by its command followed by these words: none, or one command. -/
def hasHelpOn : List String → Bool
  | [] => true
  | [word] => word == "help" || (Scope.ofWord? word).isSome
  | _ => false

/-- The options without a value. -/
inductive Switch
  | verbose
  | strict
  | skipNames
  | skipContents
  deriving DecidableEq, Repr

/-- The switch with a long name. -/
def Switch.ofName? (name : String) : Option Switch :=
  if name = "verbose" then some .verbose
  else if name = "strict" then some .strict
  else if name = "no-syntax" then some .skipNames
  else if name = "no-pv" then some .skipContents
  else none

/-- Whether a switch belongs to a scope. -/
def Switch.fits (switch : Switch) (scope : Scope) : Bool :=
  switch == .verbose || scope == .check

/-- The arguments that have been read. -/
structure Arguments where
  scope : Scope
  /-- Whether `--` has been read. -/
  onlyFiles : Bool
  /-- The switches of the scope. -/
  switches : List Switch
  /-- The configuration that is given in the scope. -/
  config : Option String
  /-- The configuration that is given before the command. -/
  outerConfig : Option String
  files : List String
  deriving DecidableEq, Repr

/-- What an argument leads to. -/
inductive Step
  /-- The program is to tell its version. -/
  | version
  /-- The program is to tell how it is used. -/
  | help
  /-- The further arguments are what help is asked on. -/
  | helpOn
  /-- The argument is complete. -/
  | next (arguments : Arguments)
  /-- The next argument is the path of the configuration. -/
  | awaitConfig (arguments : Arguments)
  deriving DecidableEq, Repr

namespace Arguments

/-- No arguments. -/
def none : Arguments :=
  ⟨.program, false, [], .none, .none, []⟩

/-- Turns a switch on, if it belongs here and is not on yet. -/
def turnOn (a : Arguments) (switch : Switch) : Option Arguments :=
  if switch.fits a.scope && !a.switches.contains switch then
    some { a with switches := switch :: a.switches }
  else .none

/-- Sets the configuration, if none is set in this scope. -/
def setConfig (a : Arguments) (path : String) : Option Arguments :=
  if a.config.isNone && !path.isEmpty then some { a with config := some path } else .none

/-- Takes a file, if the command has room for it. -/
def addFile (a : Arguments) (path : String) : Option Arguments :=
  let hasRoom :=
    match a.scope with
    | .check => true
    | .dump => a.files.isEmpty
    | .program | .version => false
  if hasRoom && !path.isEmpty then some { a with files := a.files ++ [path] } else .none

/-- Goes on to the arguments of a command. -/
def enter (a : Arguments) (scope : Scope) : Arguments :=
  { Arguments.none with scope := scope, outerConfig := a.config }

/-- An argument that is no option. -/
def plainStep (a : Arguments) (word : String) : Option Step :=
  if a.scope = .program then
    if a.onlyFiles then .none
    else if word = "help" then some .helpOn
    else (Scope.ofWord? word).map fun scope => .next (a.enter scope)
  else (a.addFile word).map .next

/-- An option with a long name, after its two dashes. -/
def longStep (a : Arguments) (option : List Char) : Option Step :=
  let name := option.takeWhile (· != '=')
  match option.drop name.length with
  | _ :: value =>
    if name = "config".toList then (a.setConfig (String.ofList value)).map .next else .none
  | [] =>
    if name = "config".toList then some (.awaitConfig a)
    else if name = "version".toList ∧ a.scope = .program then some .version
    else if name = "help".toList then some .help
    else
      match Switch.ofName? (String.ofList name) with
      | some switch => (a.turnOn switch).map .next
      | .none => .none

/-- Options with short names, after their dash.  What follows `c` is the path of the
configuration. -/
def shortStep (a : Arguments) : List Char → Option Step
  | [] => some (.next a)
  | 'c' :: cs =>
    match cs with
    | [] => some (.awaitConfig a)
    | '=' :: path => (a.setConfig (String.ofList path)).map .next
    | path => (a.setConfig (String.ofList path)).map .next
  | 'v' :: cs =>
    match a.turnOn .verbose with
    | some a => a.shortStep cs
    | .none => .none
  | 'V' :: _ => if a.scope = .program then some .version else .none
  | 'h' :: _ => some .help
  | _ => .none

/-- What the next argument leads to. -/
def step (a : Arguments) (argument : String) : Option Step :=
  if a.onlyFiles then a.plainStep argument
  else
    match argument.toList with
    | ['-', '-'] => some (.next { a with onlyFiles := true })
    | '-' :: '-' :: option => a.longStep option
    | '-' :: c :: options => a.shortStep (c :: options)
    | _ => a.plainStep argument

/-- Whether an argument looks like an option. -/
def isOption (argument : String) : Bool :=
  match argument.toList with
  | '-' :: _ :: _ => true
  | _ => false

/-- The request, once all arguments have been read. -/
def request? (a : Arguments) : Option Request :=
  let config := a.config <|> a.outerConfig
  match a.scope, a.files with
  | .program, _ => .none
  | .check, [] => .none
  | .check, files =>
    some (.run config (.check files ⟨a.switches.contains .strict,
      a.switches.contains .skipNames, a.switches.contains .skipContents⟩))
  | .dump, [file] => some (.run config (.dump file))
  | .dump, _ => .none
  | .version, _ => some (.run config .version)

/-- Reads the further arguments. -/
def read (a : Arguments) : List String → Option Request
  | [] => a.request?
  | argument :: rest =>
    match a.step argument with
    | .none => .none
    | some .version => some .showVersion
    | some .help => some .showHelp
    | some .helpOn => if hasHelpOn rest then some .showHelp else .none
    | some (.next a) => a.read rest
    | some (.awaitConfig a) =>
      match rest with
      | [] => .none
      | path :: rest =>
        if isOption path then .none
        else
          match a.setConfig path with
          | some a => a.read rest
          | .none => .none

end Arguments

/-- The request that the arguments of the program make. -/
def parseArguments (arguments : List String) : Option Request :=
  Arguments.none.read arguments

/-- The paths of the files that a request needs. -/
def Request.paths : Request → List String
  | showVersion | showHelp => []
  | run config command =>
    config.toList ++
      match command with
      | .check files _ => files
      | .dump file => [file]
      | .version => []

end EpicsDb

import Memberwise.Samples

/-!
# Command-line arguments

A command line is options of the program, a command, and options and arguments of the command. Some options are
global: they can stand before and after the command, and the one after it counts.

An option with a value takes it after an equals sign or as the next argument, which must not look like an option.
No option may come twice on the same side of the command. The log level also has a variable of the environment,
which is looked at on each side where the option does not stand.

A value after an equals sign is checked at once, the next argument only when reading goes on on its side or that
side has ended. So what is wrong with the last option before the command shows after the command has been read,
and not at all if the command is asked for help.
-/

namespace Memberwise.Cli

inductive Format
  | json
  | table
  | pretty
  deriving DecidableEq, Repr

inductive Command
  | version (extended : Bool)
  | codecs (bigEndian varint : Bool)
  | inspect (sample : Sample) (bigEndian : Bool)
  | roundtrip (sample : Sample) (bigEndian : Bool) (lengthPrefix : LengthPrefix)
  deriving DecidableEq, Repr

/-- What help is about. -/
inductive Topic
  | program
  | helpCommand
  | command (name : String)
  deriving DecidableEq, Repr

/-- How much the help tells. -/
inductive Detail
  | summary
  | full
  deriving DecidableEq, Repr

/-- What a command line asks for. -/
inductive Request
  | showHelp (topic : Topic) (detail : Detail)
  | showVersion
  | run (format : Option Format) (command : Command)
  deriving DecidableEq, Repr

/-- Why a command line is refused. -/
inductive UsageError
  | unexpected (arg : String)
  | missingValue (option : String)
  | invalidValue (option value : String)
  | repeated (option : String)
  | missingCommand
  | missingSample
  deriving DecidableEq, Repr

def UsageError.message : UsageError → String
  | .unexpected arg => s!"unexpected argument '{arg}' found"
  | .missingValue option => s!"a value is required for '{option}' but none was supplied"
  | .invalidValue option value => s!"invalid value '{value}' for '{option}'"
  | .repeated option => s!"the argument '{option}' cannot be used multiple times"
  | .missingCommand => "a command is required but none was given"
  | .missingSample => "the required argument <SAMPLE> was not provided"

/-- An option and the values that it admits; without values it is a switch. The rest is for the help text: what
the option is for, what its value is called, and what it is when the option does not stand. -/
structure OptionSpec where
  name : String
  values : Option (List String) := none
  about : String
  valueName : String := ""
  fallback : Option String := none

namespace OptionSpec

def logLevels : List String := ["error", "warn", "info", "debug", "trace"]

/-- The options that every command has, and the program itself. -/
def globals : List OptionSpec :=
  [⟨"--format", some ["json", "table", "pretty"], "Output format", "FORMAT", none⟩,
   ⟨"--log-format", some ["text", "json"], "Log output format (stderr)", "FORMAT", some "text"⟩,
   ⟨"--log-level", some logLevels, "Minimum log level (stderr)", "LEVEL", some "info"⟩]

def bigEndian : OptionSpec :=
  { name := "--big-endian", about := "Build fixed-width codecs most significant byte first" }

def lengthPrefix : OptionSpec :=
  ⟨"--prefix", some ["u16", "u32"], "Length prefix width for prefixed members", "PREFIX", some "u32"⟩

def varint : OptionSpec := { name := "--varint", about := "Include LEB128 variable-length codecs" }

def extended : OptionSpec := { name := "--extended", about := "Show extended build provenance" }

end OptionSpec

/-- What an argument that is no option stands for: a command, a sample to do something with, or nothing. -/
inductive ArgumentRole
  | command
  | sample (about : String)
  | nothing
  deriving DecidableEq, Repr

/-- What has been read on one side of the command. A value that is not checked yet is set aside with its
option. -/
structure Side where
  options : List (String × String) := []
  pending : Option (OptionSpec × String) := none
  sample : Option Sample := none

namespace Side

def value? (s : Side) (option : String) : Option String := s.options.lookup option

def has (s : Side) (option : String) : Bool := (s.value? option).isSome

/-- The side with one more option. -/
def addOption (s : Side) (option value : String) : Except UsageError Side :=
  if s.has option then .error (.repeated option) else .ok { s with options := (option, value) :: s.options }

/-- The side with one more option, whose value must be among those that the option admits. -/
def addValue (s : Side) (spec : OptionSpec) (value : String) : Except UsageError Side :=
  match spec.values with
  | none => .error (.unexpected (spec.name ++ "=" ++ value))
  | some values =>
    if value ∈ values then s.addOption spec.name value else .error (.invalidValue spec.name value)

/-- The side with the value that was set aside checked and taken in. -/
def settle (s : Side) : Except UsageError Side :=
  match s.pending with
  | none => .ok s
  | some (spec, value) => Side.addValue { s with pending := none } spec value

/-- The side with one more argument, which must be the only one and name a sample. -/
def addSample (s : Side) (arg : String) : Except UsageError Side :=
  match s.sample, [Sample.reading, Sample.record].find? (·.text = arg) with
  | some _, _ => .error (.unexpected arg)
  | none, none => .error (.invalidValue "<SAMPLE>" arg)
  | none, some sample => .ok { s with sample }

/-- The sample, where the command needs one. -/
def needSample (s : Side) : Except UsageError Sample := s.sample.elim (.error .missingSample) .ok

end Side

/-- How the reading of one side ended. -/
inductive Scanned
  | help (detail : Detail)
  | version
  | finished (side : Side)
  | command (side : Side) (name : String) (rest : List String)

/-- Whether an argument looks like an option. -/
def looksLikeOption (arg : String) : Bool := arg.startsWith "-" && arg != "-"

/-- An argument of the form `name=value`, cut at the first equals sign. -/
def splitValue (arg : String) : String × Option String :=
  match arg.toList.span (· != '=') with
  | (_, []) => (arg, none)
  | (name, _ :: value) => (String.ofList name, some (String.ofList value))

/-- How much help an argument asks for: the short form asks for a summary. -/
def helpDetail? (arg : String) : Option Detail :=
  if arg = "--help" then some .full else if arg.startsWith "-h" then some .summary else none

/-- Reads an argument that is no option. -/
def readArgument (side : Side) (role : ArgumentRole) (arg : String) : Except UsageError Side :=
  match role with
  | .sample _ => side.addSample arg
  | .command | .nothing => .error (.unexpected arg)

/-- Reads one side of the command: up to the command where an argument stands for one, and to the end elsewhere. -/
def scan (role : ArgumentRole) (specs : List OptionSpec) (side : Side) : List String → Except UsageError Scanned
  | [] => do return .finished (← side.settle)
  | "--" :: rest => do return .finished (← rest.foldlM (readArgument · role) (← side.settle))
  | arg :: rest =>
    if let some detail := helpDetail? arg then do
      let _ ← side.settle
      return .help detail
    else if role = .command ∧ (arg = "--version" ∨ arg.startsWith "-V") then do
      let _ ← side.settle
      return .version
    else if looksLikeOption arg then
      let (name, attached) := splitValue arg
      match specs.find? (·.name = name), attached with
      | none, _ => .error (.unexpected arg)
      | some spec, some value => do scan role specs (← (← side.settle).addValue spec value) rest
      | some spec, none =>
        match spec.values, rest with
        | none, rest => do scan role specs (← (← side.settle).addOption name "") rest
        | some _, [] => .error (.missingValue name)
        | some _, value :: rest =>
          if looksLikeOption value then .error (.missingValue name)
          else do scan role specs { ← side.settle with pending := some (spec, value) } rest
    else if role = .command then .ok (.command side arg rest)
    else do scan role specs (← readArgument (← side.settle) role arg) rest

/-- Whether the environment can supply the log level where the option does not stand. -/
def checkLogLevel (env : Option String) (side : Side) : Except UsageError Unit :=
  match env with
  | none => .ok ()
  | some level =>
    if side.has "--log-level" ∨ level ∈ OptionSpec.logLevels then .ok ()
    else .error (.invalidValue "--log-level" level)

def format? : String → Option Format
  | "json" => some .json
  | "table" => some .table
  | "pretty" => some .pretty
  | _ => none

/-- A command: its own options, what its arguments stand for, and what it asks for. -/
structure CommandSpec where
  name : String
  about : String
  options : List OptionSpec
  role : ArgumentRole
  read : Side → Except UsageError Command

/-- The length prefix that an option names; four bytes unless it says otherwise. -/
def prefixOf (side : Side) : LengthPrefix := if side.value? "--prefix" = some "u16" then .u16 else .u32

def commands : List CommandSpec :=
  [⟨"version", "Show version information", [OptionSpec.extended], .nothing,
    fun side => .ok (.version (side.has "--extended"))⟩,
   ⟨"codecs", "List the operations of a codec registry", [OptionSpec.varint, OptionSpec.bigEndian], .nothing,
    fun side => .ok (.codecs (side.has "--big-endian") (side.has "--varint"))⟩,
   ⟨"inspect", "Compile a sample type and show its member accessors", [OptionSpec.bigEndian],
    .sample "Sample type to compile",
    fun side => side.needSample.map fun sample => .inspect sample (side.has "--big-endian")⟩,
   ⟨"roundtrip", "Serialize a sample instance, decode it again and verify",
    [OptionSpec.bigEndian, OptionSpec.lengthPrefix], .sample "Sample type to serialize",
    fun side => side.needSample.map fun sample => .roundtrip sample (side.has "--big-endian") (prefixOf side)⟩]

/-- What the command for help is to tell about: a command, itself, or the program where nothing follows it. -/
def readTopic : List String → Except UsageError Topic
  | [] => .ok .program
  | [name] =>
    if name = "help" then .ok .helpCommand
    else if commands.any (·.name = name) then .ok (.command name)
    else .error (.unexpected name)
  | _ :: extra :: _ => .error (.unexpected extra)

/-- Reads what follows the command, and then what was left open before it. -/
def parseCommand (env : Option String) (before : Side) (name : String) (rest : List String) :
    Except UsageError Request :=
  if name = "help" then do return .showHelp (← readTopic rest) .full
  else
    match commands.find? (·.name = name) with
    | none => .error (.unexpected name)
    | some spec => do
      match ← scan spec.role (spec.options ++ OptionSpec.globals) {} rest with
      | .help detail => return .showHelp (.command name) detail
      | .version => return .showVersion
      | .command _ extra _ => throw (.unexpected extra)
      | .finished after =>
        checkLogLevel env after
        let command ← spec.read after
        let before ← before.settle
        checkLogLevel env before
        return .run (((after.value? "--format").orElse fun _ => before.value? "--format").bind format?) command

/-- Reads a command line, given the log level of the environment. -/
def parse (env : Option String) (args : List String) : Except UsageError Request := do
  match ← scan .command OptionSpec.globals {} args with
  | .help detail => return .showHelp .program detail
  | .version => return .showVersion
  | .finished _ => throw .missingCommand
  | .command before name rest => parseCommand env before name rest

end Memberwise.Cli

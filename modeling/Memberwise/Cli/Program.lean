import Memberwise.Cli.Help
import Memberwise.Cli.Report

/-!
# The program

What a command line prints and which exit code it ends with. Nothing here reads or writes: the environment and
the kind of output come as arguments, and the lines to print go out as a list.
-/

namespace Memberwise.Cli

/-- How a run of the program ends: the exit code, what it prints, and what it complains of. -/
structure Ending where
  code : Nat
  output : List String := []
  complaint : Option String := none
  deriving DecidableEq, Repr

/-- Where the program was built and for what. -/
structure Build where
  target : String := "unknown"
  system : String := "unknown"
  architecture : String := "unknown"
  compiler : String := "unknown"
  revision : String := "unknown"

/-- The version of the program. -/
def programVersion : String := "0.1.0"

/-- The line that names program and version. -/
def versionLine : String := programName ++ " " ++ programVersion

/-- The lines about program, version and build. -/
def extendedVersion (b : Build) : List String :=
  ["name: " ++ programName, "version: " ++ programVersion, "target: " ++ b.target, "target_os: " ++ b.system,
   "target_arch: " ++ b.architecture, "rustc: " ++ b.compiler, "git_hash: " ++ b.revision, "features: cli=true"]

/-- The settings of a registry that a command line asks for. -/
def registryConfig (bigEndian varint : Bool) : RegistryConfig := ⟨if bigEndian then .big else .little, varint⟩

/-- An end with a failure. -/
def Ending.ofFailure (output : List String) (f : Failure) : Ending :=
  { code := f.code, output, complaint := some ("error: " ++ f.message) }

/-- Runs a command. -/
def runCommand (build : Build) (format : Format) : Command → Ending
  | .version extended => { code := 0, output := if extended then extendedVersion build else [versionLine] }
  | .codecs bigEndian varint =>
    { code := 0, output := (CodecsReport.of (registryConfig bigEndian varint)).print format }
  | .inspect sample bigEndian =>
    match InspectReport.of sample (registryConfig bigEndian false) with
    | .error f => Ending.ofFailure [] f
    | .ok report => { code := 0, output := report.print format }
  | .roundtrip sample bigEndian lengthPrefix =>
    match RoundtripReport.of sample (registryConfig bigEndian false) lengthPrefix with
    | .error f => Ending.ofFailure [] f
    | .ok report =>
      if report.verified then { code := 0, output := report.print format }
      else Ending.ofFailure (report.print format) (Failure.unverified sample.text)

/-- Lines written for a terminal, as they are or, for another output, without control characters. Those of a line
can take its end out. -/
def present (terminal : Bool) (lines : List String) : List String :=
  if terminal then lines else (Text.Terminal.plain ("\n".intercalate lines)).splitOn "\n"

/-- Runs the program on a command line, given the log level of the environment and whether the output is a
terminal. Reports are tables on a terminal and in JSON elsewhere where the command line does not say. -/
def runProgram (build : Build) (env : Option String) (terminal : Bool) (args : List String) : Ending :=
  match parse env args with
  | .error e => { code := 2, complaint := some ("error: " ++ e.message) }
  | .ok (.showHelp topic detail) => { code := 0, output := present terminal (Help.lines env topic detail) }
  | .ok .showVersion => { code := 0, output := [versionLine] }
  | .ok (.run chosen command) => runCommand build (chosen.getD (if terminal then .table else .json)) command

end Memberwise.Cli

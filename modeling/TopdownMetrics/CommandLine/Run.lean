import TopdownMetrics.CommandLine.Arguments
import TopdownMetrics.Generation.Generate
import TopdownMetrics.Metrics.Report

/-!
# Carrying out a command

A command is carried out on the files that it can reach and ends with an exit code and
with what it prints.
-/

namespace TopdownMetrics.CommandLine

/-- What a command knows of its surroundings. -/
structure Environment where
  workingDirectory : String
  /-- The base path to use if the arguments give none. -/
  basePath : Option String
  deriving DecidableEq, Repr

structure Outcome where
  exitCode : Nat
  output : String
  /-- What is printed beside the output. -/
  complaint : String
  deriving DecidableEq, Repr

def programName : String := "create-perf-json"

def versionNumber : String := "0.1.0"

def helpText : String :=
  "Perf JSON generation from perfmon sources\n\n" ++
  "Usage: " ++ programName ++ " [OPTIONS] <COMMAND>\n\n" ++
  "Commands:\n" ++
  "  generate  Generate perf event and metric JSON\n" ++
  "              --outdir <OUTDIR>      Directory to write output to [default: perf]\n" ++
  "              --basepath <BASEPATH>  Base directory or URL of the sources\n" ++
  "              --arch <ARCH>          Only generate these architectures (repeatable)\n" ++
  "              --rules <RULES>        Rules to use instead of the built-in rules\n" ++
  "  validate  Validate a generated metrics JSON file\n" ++
  "              -f, --file <FILE>      Path to metrics JSON file\n" ++
  "  version   Display version information\n" ++
  "  help      Print this message\n\n" ++
  "Options:\n" ++
  "  -v, --verbose...  Additional output when running (repeat for more)\n" ++
  "  -h, --help        Print help\n" ++
  "  -V, --version     Print version\n"

def versionText : String :=
  programName ++ " v" ++ versionNumber ++ "\n\n" ++
    "Converts perfmon event files and TMA metric tables into perf JSON.\n"

def Interruption.outcome : Interruption → Outcome
  | .help => ⟨0, helpText, ""⟩
  | .programVersion => ⟨0, programName ++ " " ++ versionNumber ++ "\n", ""⟩
  | .usage => ⟨2, "", "error: invalid arguments\n\n" ++ helpText⟩

/-- The outcome of a command that fails after some output. -/
def failure (output message : String) : Outcome :=
  ⟨1, output, "Error: " ++ message ++ "\n"⟩

/-- The lines that count the records of a metrics file. -/
def reportText (r : MetricsReport) : String :=
  "✓ Valid metrics JSON\n" ++
    "  Metrics: " ++ toString r.metrics ++ "\n" ++
    "  Topdown: " ++ toString r.topdown ++ "\n" ++
    "  Groups: " ++ toString r.groups ++ "\n" ++
    "  PMU-scoped: " ++ toString r.withUnit ++ "\n"

/-- The outcome when there is no release.  Identifiers without a pattern break the
program off. -/
def generationFailure (e : GenerationError) : Outcome :=
  match e with
  | .map (.noPattern shortname) =>
    { failure "" (OutputError.noPattern shortname).message with exitCode := 101 }
  | e => failure "" e.context

variable {m : Type → Type} [Monad m] [FileAccess m]

def runGenerate (r : Request) : m Outcome := do
  match ← r.check.run with
  | .error e => return failure "" e.message
  | .ok () =>
    match ← (Generation.generate r).run with
    | .error e => return generationFailure e
    | .ok summary =>
      if summary.failed.isEmpty then return ⟨0, "", ""⟩
      else return ⟨0, "", "Skipped models: " ++ String.intercalate ", " summary.failed ++ "\n"⟩

def runValidate (file : String) : m Outcome := do
  let started := "Validating metrics: " ++ file ++ "\n"
  match ← (Release.readMetrics file).run with
  | .error _ => return failure started ("Failed to read " ++ file)
  | .ok metrics => return ⟨0, started ++ reportText (.ofMetrics metrics), ""⟩

/-- Carries out a command.  Without a base path the sources are looked for beside the
working directory. -/
def runCommand (env : Environment) : Command → m Outcome
  | .generate outputDirectory basePath archs rulesPath => do
    let default : Request := {}
    runGenerate {
      outputDirectory := outputDirectory.getD default.outputDirectory
      basePath := (basePath.or env.basePath).getD ("file://" ++ env.workingDirectory ++ "/..")
      archs := archs
      rulesPath := rulesPath }
  | .validate file => runValidate file
  | .version => return ⟨0, versionText, ""⟩

def run (env : Environment) (arguments : List String) : m Outcome :=
  match readArguments arguments with
  | .ok command => runCommand env command
  | .error cause => return cause.outcome

end TopdownMetrics.CommandLine

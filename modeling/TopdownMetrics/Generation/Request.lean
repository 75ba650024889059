import TopdownMetrics.Files.Access
import TopdownMetrics.Text.Blank

/-!
# Requests for a release
-/

namespace TopdownMetrics

/-- What to generate from where. -/
structure Request where
  /-- The directory that the release is written to. -/
  outputDirectory : String := "perf"
  /-- The path or URL of the directory with the mapfile and all other sources. -/
  basePath : String := "file://.."
  /-- The short names of the models to generate; all models, if there are none. -/
  archs : List String := []
  /-- The file with rules to use instead of the built-in ones. -/
  rulesPath : Option String := none
  deriving DecidableEq, Repr, Inhabited

inductive RequestError where
  | noBasePath
  | noOutputDirectory
  | outputIsFile (path : String)
  | rulesNotFound (path : String)
  /-- A short name that is blank. -/
  | blankArch (name : String)
  deriving DecidableEq, Repr

def RequestError.message : RequestError → String
  | .noBasePath => "Base path cannot be empty"
  | .noOutputDirectory => "Output directory cannot be empty"
  | .outputIsFile path => "Output directory is a file: " ++ path
  | .rulesNotFound path => "Rules file not found: " ++ path
  | .blankArch name => "Architecture filter cannot be empty: '" ++ name ++ "'"

namespace Request

/-- Whether two names are the same but for the case of ASCII letters. -/
def sameName (a b : String) : Bool :=
  a.toList.map Char.toLower == b.toList.map Char.toLower

def wants (r : Request) (shortname : String) : Bool :=
  r.archs.isEmpty || r.archs.any (sameName · shortname)

variable {m : Type → Type} [Monad m] [FileAccess m]

def check (r : Request) : ExceptT RequestError m Unit := do
  if r.basePath == "" then
    throw .noBasePath
  if r.outputDirectory == "" then
    throw .noOutputDirectory
  if (← FileAccess.kind? r.outputDirectory) == some .file then
    throw (.outputIsFile r.outputDirectory)
  if let some path := r.rulesPath then
    if (← FileAccess.kind? path) != some .file then
      throw (.rulesNotFound path)
  if let some name := r.archs.find? fun name => Text.trim name == "" then
    throw (.blankArch name)

end Request

end TopdownMetrics

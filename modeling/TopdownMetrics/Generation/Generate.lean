import TopdownMetrics.Events.Uncore
import TopdownMetrics.Files.Source
import TopdownMetrics.Generation.ModelMetrics
import TopdownMetrics.Generation.Request
import TopdownMetrics.Models.Mapfile
import TopdownMetrics.Release.Write
import TopdownMetrics.Rules.Builtin
import TopdownMetrics.Rules.Document

/-!
# Generating a release

The map of processors is written first, then the events and metrics of one model after
the other.  A model that fails is passed over; what it has written by then stays.
-/

namespace TopdownMetrics

/-- Why a model is passed over. -/
inductive ModelFailure where
  | source (cause : SourceError)
  /-- A file holds no events. -/
  | malformedEvents (url : String)
  | output (cause : OutputError)
  deriving DecidableEq, Repr

/-- Why there is no release. -/
inductive GenerationError where
  | rules (path : String) (cause : RulesError)
  | mapfileSource (url : String) (cause : SourceError)
  | mapfile (cause : MapfileError)
  | map (cause : OutputError)

def GenerationError.context : GenerationError → String
  | .rules path _ => "Failed to load rules from " ++ path
  | .mapfileSource url _ => "Failed to fetch " ++ url
  | .mapfile _ => "Failed to parse mapfile.csv"
  | .map _ => "Failed to write mapfile.csv"

/-- What was generated for a model. -/
structure ModelCounts where
  eventFiles : Nat
  metrics : Nat
  deriving DecidableEq, Repr, Inhabited

structure GenerationSummary where
  /-- The number of models that were asked for. -/
  models : Nat := 0
  /-- The short names of those that failed. -/
  failed : List String := []
  /-- What was generated for the others. -/
  eventFiles : Nat := 0
  metrics : Nat := 0
  deriving DecidableEq, Repr, Inhabited

def GenerationSummary.add (s : GenerationSummary) (shortname : String) :
    Except ModelFailure ModelCounts → GenerationSummary
  | .ok counts => { s with
      models := s.models + 1
      eventFiles := counts.eventFiles + s.eventFiles
      metrics := counts.metrics + s.metrics }
  | .error _ => { s with models := s.models + 1, failed := shortname :: s.failed }

namespace Generation

variable {m : Type → Type} [Monad m] [FileAccess m]

/-- The text of a source that a model cannot do without. -/
def readSource (url : String) : ExceptT ModelFailure m String :=
  ExceptT.mk (do return (← Source.read url).mapError .source)

/-- The files of a model that hold events, with their kinds, in the order in which they
are read. -/
def eventFiles (model : Model) : List (String × String) :=
  eventFileKinds.filterMap fun kind => model.files[kind]?.map (kind, ·)

def addEventFile (model : Model) (s : EventStore) (file : String × String) :
    ExceptT ModelFailure m EventStore := do
  let text ← readSource file.2
  match s.addFile? file.1 text model.isHybrid with
  | some (s, _) => return s
  | none => throw (.malformedEvents file.2)

/-- The events of a model.  Rewrites that cannot be read are passed over. -/
def readEvents (model : Model) : ExceptT ModelFailure m EventStore := do
  let s ← (eventFiles model).foldlM (addEventFile model) {}
  match model.files[AuxiliaryFile.uncoreRewrites.kind]? with
  | none => return s
  | some url =>
    match ← (Source.read url : m _) with
    | .ok text => return (s.applyUncoreText text).1
    | .error _ => return s

/-- The extra metrics of a model.  A file that cannot be read holds none. -/
def readExtraMetrics (model : Model) : m (List ExtraMetric) := do
  match model.files[AuxiliaryFile.extraMetrics.kind]? with
  | none => return []
  | some url =>
    match ← Source.read url with
    | .ok text => return (ExtraMetric.listOfText? text).getD []
    | .error _ => return []

def readTables (model : Model) : ExceptT ModelFailure m (List (MetricTable × String)) :=
  model.metricTables.mapM fun table => do
    let text ← readSource table.url
    return (table, text)

def generateModel (rules : Rules) (outputDirectory : String) (model : Model) :
    ExceptT ModelFailure m ModelCounts := do
  let directory := Path.join outputDirectory model.longname
  let events ← readEvents model
  let topics := events.topics.toList.map fun (topic, records) => (topic, records.toList)
  let files ← (Release.writeEvents directory topics).adapt .output
  let extra ← readExtraMetrics model
  let tables ← readTables model
  let metrics := modelMetrics rules model events.catalog extra tables
  if !metrics.isEmpty then
    (Release.writeMetrics directory model.shortname metrics).adapt .output
  return ⟨files, metrics.length⟩

/-- Writes the events and metrics of models one after the other. -/
def generateModels (rules : Rules) (outputDirectory : String) :
    List Model → m GenerationSummary
  | [] => return {}
  | model :: rest => do
    let outcome ← (generateModel rules outputDirectory model).run
    let summary ← generateModels rules outputDirectory rest
    return summary.add model.shortname outcome

def readRules (path : String) : m (Except RulesError Rules) := do
  match (← FileAccess.read? path).bind String.fromUTF8? with
  | some text => return Rules.ofText text
  | none => return .error .unreadable

/-- The models of the mapfile at the base path of a request. -/
def readModels (basePath : String) : ExceptT GenerationError m (List Model) := do
  let url := basePath ++ "/mapfile.csv"
  let text ← ExceptT.mk (do return (← Source.read url).mapError (.mapfileSource url))
  match MapfileEntries.ofText text basePath with
  | .error cause => throw (.mapfile cause)
  | .ok entries =>
    let available ← (entries.optionalUrls basePath).filterM (Source.isAvailable ·)
    return entries.toModels basePath available.contains

def generate (r : Request) : ExceptT GenerationError m GenerationSummary := do
  let rules ← match r.rulesPath with
    | some path => ExceptT.mk (do return (← readRules path).mapError (.rules path))
    | none => pure .builtin
  let models := (← readModels r.basePath).filter fun model => r.wants model.shortname
  (Release.writeMap (Path.join r.outputDirectory "mapfile.csv") models).adapt .map
  generateModels rules r.outputDirectory models

end Generation

end TopdownMetrics

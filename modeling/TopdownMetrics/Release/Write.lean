import TopdownMetrics.Events.Event
import TopdownMetrics.Files.Access
import TopdownMetrics.Metrics.File
import TopdownMetrics.Models.Model
import TopdownMetrics.Release.FileName

/-!
# Writing and reading released files

A release has a map of the processors, a file with events for each topic of a model, and
a file with the metrics of each model.  Missing directories are made on the way; a path
that cannot be written to is refused with its reason.
-/

namespace TopdownMetrics

inductive OutputError where
  | emptyPath
  | isDirectory (path : String)
  /-- The directory of a file cannot be made. -/
  | noDirectory (directory : String)
  | unwritable (path : String)
  | unreadable (path : String)
  /-- The file holds no metric records. -/
  | malformed (path : String)
  /-- The identifiers of a model have no pattern. -/
  | noPattern (shortname : String)
  deriving DecidableEq, Repr

def OutputError.message : OutputError → String
  | .emptyPath => "Invalid output path: Path is empty"
  | .isDirectory path => "Invalid output path: Path is a directory: " ++ path
  | .noDirectory directory => "Invalid output path: Cannot create directory " ++ directory
  | .unwritable path => "Failed to write file: " ++ path
  | .unreadable path => "Failed to write file: " ++ path
  | .malformed path => "Failed to serialize JSON: " ++ path
  | .noPattern shortname => "The identifiers of " ++ shortname ++ " differ inside a character"

namespace Release

variable {m : Type → Type} [Monad m] [FileAccess m]

/-- Makes the directory of a file, if nothing is there. -/
def makeParent (path : String) : ExceptT OutputError m Unit := do
  match Path.parent? path with
  | none => return
  | some directory =>
    if directory == "" then return
    if (← FileAccess.kind? directory).isSome then return
    if !(← FileAccess.makeDirectories directory) then
      throw (.noDirectory directory)

/-- Looks whether a file can stand at a path, and makes its directory. -/
def prepare (path : String) : ExceptT OutputError m Unit := do
  if path == "" then
    throw .emptyPath
  if (← FileAccess.kind? path) == some .directory then
    throw (.isDirectory path)
  makeParent path

def writeText (path text : String) : ExceptT OutputError m Unit := do
  prepare path
  if !(← FileAccess.write path text.toUTF8) then
    throw (.unwritable path)

def writeJson (path : String) (v : Json) : ExceptT OutputError m Unit :=
  writeText path v.fileText

/-- The records of a topic in the order of their names, those without one first. -/
def sortRecords (records : List EventRecord) : List EventRecord :=
  records.mergeSort fun a b => (compare a["EventName"]? b["EventName"]?).isLE

def recordsJson (records : List EventRecord) : Json :=
  .array ((sortRecords records).map fun r =>
    .object (r.toList.map fun (key, value) => (key, .string value)))

/-- Writes a file for each topic and returns their number. -/
def writeEvents (directory : String) (topics : List (String × List EventRecord)) :
    ExceptT OutputError m Nat := do
  for (topic, records) in topics do
    writeJson (Path.join directory (topicFileName topic)) (recordsJson records)
  return topics.length

def writeMetrics (directory shortname : String) (metrics : List Metric) :
    ExceptT OutputError m Unit :=
  writeText (Path.join directory (metricsFileName shortname)) (Metric.fileText metrics)

def mapText (models : List Model) : Except OutputError String := do
  let lines ← models.mapM fun model =>
    match model.mapLine? with
    | some line => .ok (line ++ "\n")
    | none => .error (.noPattern model.shortname)
  return String.join lines

def writeMap (path : String) (models : List Model) : ExceptT OutputError m Unit := do
  prepare path
  let text ← mapText models
  if !(← FileAccess.write path text.toUTF8) then
    throw (.unwritable path)

/-- The records in a metrics file.  A directory is no such file. -/
def readMetrics (path : String) : ExceptT OutputError m (List Metric) := do
  match ← FileAccess.read? path with
  | none =>
    if (← FileAccess.kind? path) == some .directory then throw (.malformed path)
    throw (.unreadable path)
  | some content =>
    match (String.fromUTF8? content).bind Metric.listOfText? with
    | some metrics => return metrics
    | none => throw (.malformed path)

end Release

end TopdownMetrics

import TopdownMetrics.Csv.Reader
import TopdownMetrics.Models.Model
import TopdownMetrics.Text.Blank

/-!
# The map of processors to models

A mapfile has a row for each identifier and event file.  Rows with the same short name
belong to one model and have to agree on its long name, its version and, for each kind
of events, on the file.
-/

namespace TopdownMetrics

def mapfileColumns : List String :=
  ["Family-model", "Version", "Filename", "EventType", "Core Type", "Native Model ID",
   "Core Role Name"]

/-- What rows of one model disagree on. -/
inductive ModelField where
  | longname
  | version
  | eventFile
  deriving DecidableEq, Repr

def ModelField.text : ModelField → String
  | .longname => "longname"
  | .version => "version"
  | .eventFile => "event file"

inductive MapfileError where
  /-- There is no row at all. -/
  | empty
  | badHeader (index : Nat) (expected found : String)
  | inconsistent (field : ModelField) (shortname existing found : String)
  deriving DecidableEq, Repr

def MapfileError.message : MapfileError → String
  | .empty => "Mapfile is empty"
  | .badHeader index expected found =>
    "Unexpected mapfile header column " ++ toString index ++ ": expected '" ++ expected ++
      "', found '" ++ found ++ "'"
  | .inconsistent field shortname existing found =>
    "Inconsistent " ++ field.text ++ " for " ++ shortname ++ ": '" ++ existing ++ "' != '" ++
      found ++ "'"

/-- The short name in the path of an event file: its first directory. -/
def shortnameOfPath (path : String) : String :=
  String.ofList ((path.toList.dropWhile (· == '/')).takeWhile (· != '/'))

/-- The long name in the path of an event file: the start of the file's name, up to an
underscore.  A path of another form is a long name itself. -/
def longnameOfPath (path : String) : String :=
  match Text.cut? ("/" ++ shortnameOfPath path ++ "/events/").toList path.toList with
  | some (_, name) => String.ofList (name.takeWhile (· != '_'))
  | none => path

/-- A row of a mapfile. -/
structure MapfileRow where
  identifier : String
  version : String
  path : String
  /-- The kind of the events in the file. -/
  kind : String
  deriving DecidableEq, Repr, Inhabited

namespace MapfileRow

def shortname (row : MapfileRow) : String := shortnameOfPath row.path

def longname (row : MapfileRow) : String := longnameOfPath row.path

/-- The kind of events that a row gives.  The efficient cores of Alder Lake are listed
as if they were ordinary ones; in files of hybrid cores the role of the core decides. -/
def eventKind (shortname listed role : String) : String :=
  if shortname = "ADL" ∧ listed = "core" then "atom"
  else if listed = "hybridcore" then
    if role = "Core" then "core" else "atom"
  else listed

/-- The row in a list of cells; missing cells are empty. -/
def ofCells (cells : List String) : MapfileRow :=
  let cell (i : Nat) : String := Text.trim (cells[i]?.getD "")
  ⟨cell 0, cell 1, cell 2, eventKind (shortnameOfPath (cell 2)) (cell 3) (cell 6)⟩

end MapfileRow

/-- What the rows of a model say. -/
structure ModelEntry where
  longname : String
  version : String
  identifiers : List String
  files : Std.TreeMap String String

/-- What the rows of a mapfile say, by short name. -/
structure MapfileEntries where
  models : Std.TreeMap String ModelEntry := ∅
  /-- The identifiers of Knights Mill, which go to Knights Landing. -/
  adopted : List String := []

namespace MapfileEntries

def addTo (base : String) (row : MapfileRow) (entry : ModelEntry) :
    Except MapfileError ModelEntry :=
  let url := base ++ row.path
  let listed := entry.files.getD row.kind url
  if entry.longname ≠ row.longname then
    .error (.inconsistent .longname row.shortname entry.longname row.longname)
  else if entry.version ≠ row.version then
    .error (.inconsistent .version row.shortname entry.version row.version)
  else if listed ≠ url then
    .error (.inconsistent .eventFile row.shortname listed url)
  else
    .ok { entry with
      identifiers := row.identifier :: entry.identifiers
      files := entry.files.insert row.kind url }

/-- The entry of a model before its first row. -/
def blankEntry (row : MapfileRow) : ModelEntry :=
  ⟨row.longname, row.version, [], ∅⟩

/-- Adds a row.  Knights Mill shares the files of Knights Landing, so of its rows only
the identifiers are kept. -/
def addRow (base : String) (entries : MapfileEntries) (row : MapfileRow) :
    Except MapfileError MapfileEntries :=
  if row.shortname = "KNM" then
    .ok { entries with adopted := row.identifier :: entries.adopted }
  else do
    let entry ← addTo base row (entries.models.getD row.shortname (blankEntry row))
    return { entries with models := entries.models.insert row.shortname entry }

def ofRows (base : String) (rows : List MapfileRow) : Except MapfileError MapfileEntries :=
  rows.foldlM (addRow base) {}

/-- Compares the cells of a header with the expected columns. -/
def checkHeader (cells : List String) : Except MapfileError Unit :=
  mapfileColumns.zipIdx.forM fun (expected, index) =>
    let found := Text.trim (cells[index]?.getD "")
    if found = expected then .ok () else .error (.badHeader index expected found)

/-- The entries in the text of a mapfile; `base` stands in front of all paths. -/
def ofText (text base : String) : Except MapfileError MapfileEntries :=
  match Csv.rows text with
  | [] => .error .empty
  | header :: rows => do
    checkHeader header
    ofRows base (rows.map MapfileRow.ofCells)

/-- Where the table of rewrites for the uncore events of a model would be. -/
def uncoreRewritesUrl (base shortname : String) : String :=
  base ++ "/scripts/config/perf-uncore-events-" ++ Text.lower shortname ++ ".csv"

def extraMetricsUrl (base shortname : String) : String :=
  base ++ "/" ++ shortname ++ "/metrics/perf/" ++ Text.lower shortname ++ "_metric_perf.json"

/-- The files that models may have, but need not. -/
def optionalUrls (entries : MapfileEntries) (base : String) : List String :=
  entries.models.keys.flatMap fun shortname =>
    [uncoreRewritesUrl base shortname, extraMetricsUrl base shortname]

/-- The files of a model: those of its rows, the tables that all models share, and the
optional ones that are available. -/
def filesOf (base : String) (available : String → Bool) (shortname : String)
    (entry : ModelEntry) : Std.TreeMap String String :=
  let add (files : Std.TreeMap String String) (present : Bool) (file : AuxiliaryFile)
      (url : String) : Std.TreeMap String String :=
    if present then files.insert file.kind url else files
  let rewrites := uncoreRewritesUrl base shortname
  let extra := extraMetricsUrl base shortname
  let files := add entry.files (available rewrites) .uncoreRewrites rewrites
  let files := add files true .metricTable (base ++ "/TMA_Metrics-full.csv")
  let files :=
    add files (files.contains "atom") .efficientMetricTable (base ++ "/E-core_TMA_Metrics.csv")
  add files (available extra) .extraMetrics extra

def modelOf (entries : MapfileEntries) (base : String) (available : String → Bool)
    (shortname : String) (entry : ModelEntry) : Model :=
  let adopted := if shortname = "KNL" then entries.adopted else []
  .build shortname entry.longname entry.version (adopted ++ entry.identifiers)
    (filesOf base available shortname entry)

/-- The models in the order of their long names, then of their short ones. -/
def toModels (entries : MapfileEntries) (base : String) (available : String → Bool) :
    List Model :=
  let models := entries.models.toList.map fun (shortname, entry) =>
    entries.modelOf base available shortname entry
  models.mergeSort fun a b => (compare a.longname b.longname).isLE

end MapfileEntries

/-- The models in the text of a mapfile; `available` tells which of the optional files
there are. -/
def Model.listOfMapfile (text base : String) (available : String → Bool) :
    Except MapfileError (List Model) :=
  (MapfileEntries.ofText text base).map (·.toModels base available)

end TopdownMetrics

import TopdownMetrics.Json.Record
import TopdownMetrics.Metrics.Metric
import TopdownMetrics.Rules.Basic
import TopdownMetrics.Text.Blank
import TopdownMetrics.Text.Sorted

/-!
# Drafts of metric records

A draft holds all that is known of a metric; its record has canonical groups, a
description split at its first sentence, and the marks that the rules ask for.
-/

namespace TopdownMetrics

/-- The unit of core events; metrics of any other unit are marked with it. -/
def defaultPmu : String := "cpu"

/-- A metric before its record is built. -/
structure Draft where
  name : String
  expr : String
  groups : Option String
  description : String
  locate : Option String
  scaleUnit : Option String
  /-- Whether the record is marked with the unit of its table. -/
  pmuScoped : Bool
  deriving DecidableEq, Repr, Inhabited

/-- A metric of a list that is given beside a table. -/
structure ExtraMetric where
  name : String
  group : Option String
  expr : String
  briefDescription : String
  scaleUnit : Option String
  deriving DecidableEq, Repr, Inhabited

namespace ExtraMetric

def fieldNames : List String :=
  ["MetricName", "MetricGroup", "MetricExpr", "BriefDescription", "ScaleUnit"]

def ofJson? (v : Json) : Option ExtraMetric := do
  let fs ← Json.fields? fieldNames v
  return {
    name := ← fs.required? "MetricName" Json.string?
    group := ← fs.text? "MetricGroup"
    expr := ← fs.required? "MetricExpr" Json.string?
    briefDescription := ← fs.defaulting? "BriefDescription" Json.string? ""
    scaleUnit := ← fs.text? "ScaleUnit" }

def listOfText? (text : String) : Option (List ExtraMetric) :=
  (Json.parseRecords? fieldNames text).bind (·.mapM ofJson?)

def draft (m : ExtraMetric) : Draft where
  name := m.name
  expr := m.expr
  groups := m.group
  description := m.briefDescription
  locate := none
  scaleUnit := m.scaleUnit
  pmuScoped := true

end ExtraMetric

/-- The groups `TmaL1` and `TmaL2` under their emitted names, wherever they stand. -/
def renameLevelGroups : List Char → List Char
  | 'T' :: 'm' :: 'a' :: 'L' :: level :: cs =>
    if level = '1' ∨ level = '2' then
      "tma_L".toList ++ level :: "_group".toList ++ renameLevelGroups cs
    else
      'T' :: renameLevelGroups ('m' :: 'a' :: 'L' :: level :: cs)
  | c :: cs => c :: renameLevelGroups cs
  | [] => []

/-- The distinct groups of a list in order; nothing, if there are none. -/
def normalizeGroups (groups : String) : Option String :=
  let pieces := Text.splitOn (· == ';') (renameLevelGroups groups.toList)
  let names := (pieces.map fun cs => String.ofList (Text.trimChars cs)).filter (· != "")
  if names.isEmpty then none
  else some (String.intercalate ";" (Text.distinctSorted names))

/-- The first sentence of a text, without its point; `before` holds the characters in
front in reverse.  The point of `i.e.` ends no sentence. -/
def firstSentence? (before : List Char) : List Char → Option (List Char)
  | [] => none
  | c :: cs =>
    if c = '.' ∧ cs.head? = some ' ' ∧ ¬ ['e', '.', 'i'].isPrefixOf before then
      some before.reverse
    else
      firstSentence? (c :: before) cs

/-- The short and the long form of a description.  A description with at most one point
is not split. -/
def splitDescription (description : String) : String × Option String :=
  if description.toList.count '.' ≤ 1 then (description, none)
  else
    match firstSentence? [] description.toList with
    | some sentence => (String.ofList sentence, some description)
    | none => (description, none)

/-- The record of a draft of a table that is counted on `pmu`. -/
def Draft.toMetric (d : Draft) (rules : Rules) (pmu : String) : Metric :=
  let description := match d.locate with
    | some hint => d.description ++ " Sample with: " ++ hint
    | none => d.description
  let (brief, long) := splitDescription description
  { briefDescription := brief
    constraint := if rules.watchdogMetrics.contains d.name then some "NO_NMI_WATCHDOG" else none
    expr := d.expr
    group := d.groups.bind normalizeGroups
    name := d.name
    publicDescription := long
    scaleUnit := d.scaleUnit
    unit := if d.pmuScoped ∧ pmu ≠ defaultPmu then some pmu else none }

end TopdownMetrics

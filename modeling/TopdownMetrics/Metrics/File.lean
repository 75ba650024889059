import TopdownMetrics.Json.Printer
import TopdownMetrics.Json.Record
import TopdownMetrics.Metrics.Metric

/-!
# Metrics files

A metrics file is a JSON array of metric records.  Fields that are not set are left out.
-/

namespace TopdownMetrics.Metric

def toJson (m : Metric) : Json :=
  .object (m.fields.map fun (key, value) => (key, .string value))

def fileText (metrics : List Metric) : String :=
  (Json.array (metrics.map toJson)).fileText

def fieldNames : List String :=
  ["BriefDescription", "MetricConstraint", "MetricExpr", "MetricGroup", "MetricName",
   "PublicDescription", "ScaleUnit", "Unit"]

def ofJson? (v : Json) : Option Metric := do
  let fs ← Json.fields? fieldNames v
  return {
    briefDescription := ← fs.required? "BriefDescription" Json.string?
    constraint := ← fs.text? "MetricConstraint"
    expr := ← fs.required? "MetricExpr" Json.string?
    group := ← fs.text? "MetricGroup"
    name := ← fs.required? "MetricName" Json.string?
    publicDescription := ← fs.text? "PublicDescription"
    scaleUnit := ← fs.text? "ScaleUnit"
    unit := ← fs.text? "Unit" }

def listOfText? (text : String) : Option (List Metric) :=
  (Json.parseRecords? fieldNames text).bind (·.mapM ofJson?)

end TopdownMetrics.Metric

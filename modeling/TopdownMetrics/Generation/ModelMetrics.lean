import TopdownMetrics.Metrics.Extraction
import TopdownMetrics.Metrics.IdleStates
import TopdownMetrics.Models.Model

/-!
# The metrics of a model

A model has a table of metrics, and one more if it has efficient cores.  The metrics of
its tables are followed by the residencies of its idle states, but only if there are any.
-/

namespace TopdownMetrics

/-- A table of metrics of a model. -/
structure MetricTable where
  file : AuxiliaryFile
  url : String
  /-- The unit on which the events of the table are counted. -/
  pmu : String
  deriving DecidableEq, Repr

/-- The tables of a model.  If it has efficient cores, each table has a unit of its
own. -/
def Model.metricTables (m : Model) : List MetricTable :=
  [(AuxiliaryFile.metricTable, "cpu_core"), (.efficientMetricTable, "cpu_atom")].filterMap
    fun (file, pmu) => m.files[file.kind]?.map fun url =>
      ⟨file, url, if m.hasFile "atom" then pmu else defaultPmu⟩

/-- The metrics in the text of a table.  Extra metrics belong to the main table. -/
def tableMetrics (rules : Rules) (model : Model) (catalog : EventCatalog)
    (extra : List ExtraMetric) (table : MetricTable) (text : String) : List Metric :=
  let extra := if table.file = .metricTable then extra else []
  (extractMetrics ⟨rules, catalog, model.shortname, table.pmu⟩ extra text).metrics

/-- The metrics of a model whose tables have the given texts. -/
def modelMetrics (rules : Rules) (model : Model) (catalog : EventCatalog)
    (extra : List ExtraMetric) (tables : List (MetricTable × String)) : List Metric :=
  let metrics := tables.flatMap fun (table, text) =>
    tableMetrics rules model catalog extra table text
  if metrics.isEmpty then [] else metrics ++ idleStateMetrics rules model.shortname

end TopdownMetrics

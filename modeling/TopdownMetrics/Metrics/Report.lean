import TopdownMetrics.Metrics.Metric
import TopdownMetrics.Text.Sorted
import TopdownMetrics.Text.Substring

/-!
# Counts over metric records
-/

namespace TopdownMetrics

structure MetricsReport where
  metrics : Nat
  /-- The number of distinct groups. -/
  groups : Nat
  /-- The number of metrics that are counted on a unit of their own. -/
  withUnit : Nat
  /-- The number of nodes of the topdown hierarchy. -/
  topdown : Nat
  deriving DecidableEq, Repr, Inhabited

/-- The groups that a record names, as they stand between its semicolons. -/
def Metric.groups (m : Metric) : List String :=
  match m.group with
  | some groups => Text.split groups ';'
  | none => []

def MetricsReport.ofMetrics (metrics : List Metric) : MetricsReport where
  metrics := metrics.length
  groups := (Text.distinctSorted (metrics.flatMap Metric.groups)).length
  withUnit := metrics.countP (·.unit.isSome)
  topdown := metrics.countP fun m => Text.startsWith m.name "tma_"

end TopdownMetrics

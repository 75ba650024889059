import TopdownMetrics.Metrics.Metric
import TopdownMetrics.Rules.Basic

/-!
# Residency metrics of idle states
-/

namespace TopdownMetrics

/-- What an idle state belongs to. -/
inductive IdleScope where
  | core
  | package
  deriving DecidableEq, Repr

/-- The share of time that a core or package spends in an idle state. -/
def residencyMetric (scope : IdleScope) (state : Nat) : Metric :=
  let (counter, title, label) := match scope with
    | .core => ("core", "Core", "core")
    | .package => ("pkg", "Pkg", "package")
  let state := toString state
  { briefDescription := "C" ++ state ++ " residency percent per " ++ label
    constraint := none
    expr := "cstate_" ++ counter ++ "@c" ++ state ++ "\\-residency@ / TSC"
    group := some "Power"
    name := "C" ++ state ++ "_" ++ title ++ "_Residency"
    publicDescription := none
    scaleUnit := some "100%"
    unit := none }

/-- The residency metrics of an architecture, first of the cores, then of the
package. -/
def idleStateMetrics (rules : Rules) (arch : String) : List Metric :=
  match rules.idleStatesFor? arch with
  | none => []
  | some states =>
    states.core.map (residencyMetric .core) ++ states.package.map (residencyMetric .package)

end TopdownMetrics

/-!
# Metric records

The records of a metrics file.
-/

namespace TopdownMetrics

structure Metric where
  briefDescription : String
  constraint : Option String
  /-- The resolved formula. -/
  expr : String
  /-- The names of its groups in order, joined by semicolons. -/
  group : Option String
  name : String
  publicDescription : Option String
  scaleUnit : Option String
  /-- The unit on which the metric is counted, if it is not the default one. -/
  unit : Option String
  deriving DecidableEq, Repr, Inhabited

/-- The fields of a record that are set, with their names in ascending order. -/
def Metric.fields (m : Metric) : List (String × String) :=
  [("BriefDescription", some m.briefDescription), ("MetricConstraint", m.constraint),
   ("MetricExpr", some m.expr), ("MetricGroup", m.group), ("MetricName", some m.name),
   ("PublicDescription", m.publicDescription), ("ScaleUnit", m.scaleUnit),
   ("Unit", m.unit)].filterMap fun (key, value) => value.map (key, ·)

end TopdownMetrics

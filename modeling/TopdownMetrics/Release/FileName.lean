import TopdownMetrics.Text.Case
import TopdownMetrics.Text.Substring

/-!
# Names of released files
-/

namespace TopdownMetrics

/-- The file with the events of a topic, such as `virtual-memory.json`. -/
def topicFileName (topic : String) : String :=
  Text.replace (Text.lower topic) " " "-" ++ ".json"

/-- The file with the metrics of a model, such as `bdwde-metrics.json`. -/
def metricsFileName (shortname : String) : String :=
  Text.replace (Text.lower shortname) "-" "" ++ "-metrics.json"

end TopdownMetrics

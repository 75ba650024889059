import Std.Data.TreeSet

/-!
# Sorted sets of names
-/

namespace TopdownMetrics.Text

def distinctSorted (names : List String) : List String :=
  (Std.TreeSet.ofList names).toList

end TopdownMetrics.Text

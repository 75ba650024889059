import TopdownMetrics.Number.Layout

/-!
# JSON values

Objects keep their members as they were read, in order and with repeated names; what
a repetition means is decided where an object is used.
-/

namespace TopdownMetrics

namespace Json

/-- A number: whole if it was written so and fits into 64 bits, otherwise a double. -/
inductive Number where
  | whole (n : Int)
  | double (x : Binary64)
  deriving DecidableEq, Repr, Inhabited

end Json

inductive Json where
  | null
  | boolean (b : Bool)
  | number (n : Json.Number)
  | string (s : String)
  | array (items : List Json)
  | object (members : List (String × Json))
  deriving Repr, Inhabited

namespace Json

abbrev Members := List (String × Json)

/-- The value of a member; of repeated ones the last counts. -/
def Members.get? (ms : Members) (key : String) : Option Json :=
  List.lookup key ms.reverse

end Json

end TopdownMetrics

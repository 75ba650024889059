import TopdownMetrics.Text.Substring

/-!
# Patterns for identifiers

Several identifiers of processors are written as one pattern: what they have in common,
and behind it their endings, as alternatives if all of them are longer than one byte and
as a class of characters otherwise.  The common part is measured in bytes, so it may end
inside a character; then there is no pattern.
-/

namespace TopdownMetrics.Pattern

def bytes (text : String) : List UInt8 :=
  text.toList.flatMap String.utf8EncodeChar

/-- The number of bytes that two texts share at their start. -/
def sharedLength : List UInt8 → List UInt8 → Nat
  | a :: as, b :: bs => if a = b then sharedLength as bs + 1 else 0
  | _, _ => 0

/-- The number of bytes that all texts share with the first. -/
def commonLength (first : String) (rest : List String) : Nat :=
  rest.foldl (fun n text => min n (sharedLength (bytes first) (bytes text))) first.utf8ByteSize

def shortestLength (first : String) (rest : List String) : Nat :=
  rest.foldl (fun n text => min n text.utf8ByteSize) first.utf8ByteSize

def ofList? : List String → Option String
  | [] => some ""
  | [identifier] => some identifier
  | first :: rest => do
    let length := commonLength first rest
    let start ← Text.takeBytes? length first.toList
    let endings ← (first :: rest).mapM fun text =>
      (Text.dropBytes? length text.toList).map String.ofList
    if shortestLength first rest - length > 1 then
      return String.ofList start ++ "(" ++ String.intercalate "|" endings ++ ")"
    else
      return String.ofList start ++ "[" ++ String.join endings ++ "]"

end TopdownMetrics.Pattern

/-!
# Wildcard patterns

In a pattern `*` stands for any run of characters of one line and `?` for a single
such character; every other character stands for itself.
-/

namespace TopdownMetrics.Text

/-- What remains of a text after each run of characters of its first line. -/
def lineRests : List Char → List (List Char)
  | [] => [[]]
  | c :: cs => (c :: cs) :: (if c = '\n' then [] else lineRests cs)

/-- Whether a text starts with a match of the pattern. -/
def globMatches : (pattern : List Char) → List Char → Bool
  | [], _ => true
  | '*' :: pattern, cs => (lineRests cs).any (globMatches pattern)
  | '?' :: pattern, c :: cs => c != '\n' && globMatches pattern cs
  | p :: pattern, c :: cs => p == c && globMatches pattern cs
  | _ :: _, [] => false

def startsWithGlob (text pattern : String) : Bool :=
  globMatches pattern.toList text.toList

end TopdownMetrics.Text

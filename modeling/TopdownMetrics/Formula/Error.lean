/-!
# Why a formula cannot be read
-/

namespace TopdownMetrics.Formula

/-- Causes for which a formula text is rejected; offsets count bytes. -/
inductive SyntaxError where
  /-- A character that starts no token. -/
  | unexpectedChar (char : Char) (offset : Nat)
  /-- A token where the grammar has no place for it. -/
  | unexpectedToken (token : String) (offset : Nat)
  /-- The text ends inside a formula. -/
  | unexpectedEnd
  /-- An `@` that opens a term group which nothing closes. -/
  | unterminatedTerms (offset : Nat)
  deriving DecidableEq, Repr, Inhabited

def SyntaxError.message : SyntaxError → String
  | .unexpectedChar char offset =>
    "Unexpected character '" ++ char.toString ++ "' at byte " ++ toString offset
  | .unexpectedToken token offset =>
    "Unexpected token '" ++ token ++ "' at byte " ++ toString offset
  | .unexpectedEnd => "Unexpected end of formula"
  | .unterminatedTerms offset =>
    "Unterminated PMU term group starting at byte " ++ toString offset

end TopdownMetrics.Formula

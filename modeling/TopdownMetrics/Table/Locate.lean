import TopdownMetrics.Text.Blank
import TopdownMetrics.Text.Substring

/-!
# Sampling hints

A hint names the event with which a metric is sampled.  It may depend on the
architecture: `condition ? a : b` is `a` where the condition mentions the
architecture, and `b` elsewhere.  `#NA` means that there is no hint.
-/

namespace TopdownMetrics

/-- A hint with a question mark but without the shape of a conditional. -/
structure MalformedHint where
  cell : String
  deriving DecidableEq, Repr

def MalformedHint.message (e : MalformedHint) : String :=
  "malformed locate hint '" ++ e.cell ++ "'"

/-- The branch that a conditional hint chooses for an architecture.  The condition and
both branches must not be blank. -/
def chooseBranch? (arch : String) (cell : List Char) : Option (List Char) := do
  let (condition, branches) ← Text.cut? ['?'] cell
  let (chosen, otherwise) ← Text.cut? [':'] branches
  let blank (cs : List Char) : Bool := cs.all Text.isBlank
  if blank condition || blank chosen || blank otherwise then none
  else if Text.occursIn arch.toList condition then some (Text.trimChars chosen)
  else some (Text.trimChars otherwise)

def locateHint (cell arch : String) : Except MalformedHint (Option String) :=
  let cs := Text.trimChars cell.toList
  let hint (cs : List Char) : Option String :=
    let text := String.ofList cs
    if text = "" ∨ text = "#NA" then none else some text
  if cs.contains '?' then
    match chooseBranch? arch cs with
    | some branch => .ok (hint branch)
    | none => .error ⟨String.ofList cs⟩
  else
    .ok (hint cs)

end TopdownMetrics

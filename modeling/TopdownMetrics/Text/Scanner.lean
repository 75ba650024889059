/-!
# Scanners

A scanner reads a value from the start of a text and leaves the rest, or fails.
Alternatives start again from the same text.
-/

namespace TopdownMetrics

abbrev Scanner := StateT (List Char) Option

namespace Scanner

/-- The next character, without reading it. -/
def peek? : Scanner (Option Char) := do
  return (← get).head?

def lookingAt (word : String) : Scanner Bool := do
  return word.toList.isPrefixOf (← get)

def satisfying (p : Char → Bool) : Scanner Char := fun cs =>
  match cs with
  | [] => none
  | c :: rest => if p c then some (c, rest) else none

def char (c : Char) : Scanner Unit := do
  discard <| satisfying (· == c)

def word (w : String) : Scanner Unit := fun cs =>
  if w.toList.isPrefixOf cs then some ((), cs.drop w.length) else none

def run (p : Char → Bool) : Scanner (List Char) := fun cs =>
  some (cs.takeWhile p, cs.dropWhile p)

def run₁ (p : Char → Bool) : Scanner (List Char) := do
  let cs ← run p
  guard !cs.isEmpty
  return cs

/-- Succeeds at the end of the text only. -/
def atEnd : Scanner Unit := fun cs =>
  if cs.isEmpty then some ((), []) else none

/-- Repeats a step, with the results so far in reverse. -/
def stepsOnto {α : Type} (found : List α) : (fuel : Nat) → Scanner (Option α) → Scanner (List α)
  | 0, _ => return found.reverse
  | fuel + 1, step => do
    match ← step with
    | none => return found.reverse
    | some a => stepsOnto (a :: found) fuel step

/-- Repeats a step that says with `none` when it has come to its end.  No more than
`fuel` steps are made; a text has at most its length. -/
def steps {α : Type} (fuel : Nat) (step : Scanner (Option α)) : Scanner (List α) :=
  stepsOnto [] fuel step

/-- Runs a scanner that has to read the whole text. -/
def runAll? {α : Type} (s : Scanner α) (text : String) : Option α :=
  match s text.toList with
  | some (a, []) => some a
  | _ => none

end Scanner

end TopdownMetrics

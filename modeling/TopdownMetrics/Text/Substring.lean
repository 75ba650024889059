/-!
# Substrings

Searching, replacing and cutting, on the characters of a text.  All functions on
`String` here are their character-list versions in disguise.
-/

namespace TopdownMetrics.Text

/-- Whether the pattern occurs in the text.  The empty pattern occurs everywhere. -/
def occursIn (pattern : List Char) : List Char → Bool
  | [] => pattern.isEmpty
  | c :: cs => pattern.isPrefixOf (c :: cs) || occursIn pattern cs

/-- Replaces occurrences from left to right; the next `skip` characters belong to
an occurrence that has been replaced already. -/
def replaceFrom (pattern replacement : List Char) : (skip : Nat) → List Char → List Char
  | _, [] => []
  | skip + 1, _ :: cs => replaceFrom pattern replacement skip cs
  | 0, c :: cs =>
    if pattern.isPrefixOf (c :: cs) then
      replacement ++ replaceFrom pattern replacement (pattern.length - 1) cs
    else
      c :: replaceFrom pattern replacement 0 cs

/-- Every occurrence of the pattern replaced, from left to right and without
overlaps.  The empty pattern occurs in front of every character and at the end. -/
def replaceAll (pattern replacement cs : List Char) : List Char :=
  if pattern = [] then
    cs.flatMap (fun c => replacement ++ [c]) ++ replacement
  else
    replaceFrom pattern replacement 0 cs

/-- The first occurrence of the pattern replaced. -/
def replaceFirst (pattern replacement : List Char) : List Char → List Char
  | [] => if pattern = [] then replacement else []
  | c :: cs =>
    if pattern.isPrefixOf (c :: cs) then
      replacement ++ (c :: cs).drop pattern.length
    else
      c :: replaceFirst pattern replacement cs

/-- The pieces between the characters that `p` picks; always at least one. -/
def splitOn (p : Char → Bool) : List Char → List (List Char)
  | [] => [[]]
  | c :: cs =>
    if p c then [] :: splitOn p cs
    else
      match splitOn p cs with
      | [] => [[c]]
      | piece :: pieces => (c :: piece) :: pieces

theorem splitOn_ne_nil (p : Char → Bool) (cs : List Char) : splitOn p cs ≠ [] := by
  cases cs with
  | nil => simp [splitOn]
  | cons c cs =>
    unfold splitOn
    split
    · simp
    · split
      · simp
      · simp

/-- The text behind the pattern, if it starts the text. -/
def dropPrefix? (pattern cs : List Char) : Option (List Char) :=
  if pattern.isPrefixOf cs then some (cs.drop pattern.length) else none

/-- The text without any repetitions of the pattern at its start. -/
def dropRepeated (pattern : List Char) : (fuel : Nat) → List Char → List Char
  | 0, cs => cs
  | fuel + 1, cs =>
    if pattern.isPrefixOf cs then dropRepeated pattern fuel (cs.drop pattern.length) else cs

/-- The text behind its first `count` bytes, if a character ends there. -/
def dropBytes? : (count : Nat) → List Char → Option (List Char)
  | 0, cs => some cs
  | _ + 1, [] => none
  | count + 1, c :: cs =>
    if c.utf8Size ≤ count + 1 then dropBytes? (count + 1 - c.utf8Size) cs else none
  termination_by _ cs => cs.length

/-- The first `count` bytes of the text, if a character ends there. -/
def takeBytes? : (count : Nat) → List Char → Option (List Char)
  | 0, _ => some []
  | _ + 1, [] => none
  | count + 1, c :: cs =>
    if c.utf8Size ≤ count + 1 then (takeBytes? (count + 1 - c.utf8Size) cs).map (c :: ·) else none
  termination_by _ cs => cs.length

/-- The part of the text in front of the first occurrence of the pattern, and the
part behind it. -/
def cut? (pattern : List Char) : List Char → Option (List Char × List Char)
  | [] => if pattern = [] then some ([], []) else none
  | c :: cs =>
    if pattern.isPrefixOf (c :: cs) then some ([], (c :: cs).drop pattern.length)
    else (cut? pattern cs).map fun (before, behind) => (c :: before, behind)

def contains (text pattern : String) : Bool :=
  occursIn pattern.toList text.toList

def startsWith (text pattern : String) : Bool :=
  pattern.toList.isPrefixOf text.toList

def replace (text pattern replacement : String) : String :=
  String.ofList (replaceAll pattern.toList replacement.toList text.toList)

def split (text : String) (separator : Char) : List String :=
  (splitOn (· == separator) text.toList).map String.ofList

end TopdownMetrics.Text

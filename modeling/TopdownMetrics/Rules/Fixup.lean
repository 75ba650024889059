import TopdownMetrics.Text.Substring

/-!
# Spelling fixups

A fixup replaces one spelling in a formula text by another.  An architecture's
fixups are applied one after the other, each to the result of the one before.
-/

namespace TopdownMetrics

/-- Replace `pattern` by `replacement`. -/
structure Fixup where
  pattern : String
  replacement : String
  deriving DecidableEq, Repr, Inhabited

namespace Fixup

/-- The characters that separate the terms of an event in the output. -/
def isSeparator (c : Char) : Bool :=
  c == '-' || c == '=' || c == ','

/-- The first separator without a backslash in front, with its byte offset.  One at
the very start is not looked at. -/
def bareSeparatorFrom? (offset : Nat) (previous : Option Char) :
    List Char → Option (Char × Nat)
  | [] => none
  | c :: cs =>
    if isSeparator c ∧ 0 < offset ∧ previous ≠ some '\\' then some (c, offset)
    else bareSeparatorFrom? (offset + c.utf8Size) (some c) cs

def bareSeparator? (f : Fixup) : Option (Char × Nat) :=
  bareSeparatorFrom? 0 none f.replacement.toList

def apply (f : Fixup) (text : String) : String :=
  Text.replace text f.pattern f.replacement

def applyAll (fs : List Fixup) (text : String) : String :=
  fs.foldl (fun text f => f.apply text) text

end Fixup

end TopdownMetrics

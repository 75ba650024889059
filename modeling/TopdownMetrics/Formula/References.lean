import TopdownMetrics.Formula.Lexer
import TopdownMetrics.Rules.Basic

/-!
# The names in a rendered formula

A rendered formula may only be emitted when each of its words is a number, a keyword
or a known name.  The words are found in the text itself, not in the tree.
-/

namespace TopdownMetrics.Formula

theorem length_takeWord_snd_lt {cs : List Char} (h : (takeWord cs).1 ≠ []) :
    (takeWord cs).2.length < cs.length := by
  have hpos := List.length_pos_iff.2 h
  have hlen := congrArg List.length (takeWord_append cs)
  simp only [List.length_append] at hlen
  omega

def wordsOf : List Char → List (List Char)
  | [] => []
  | c :: cs =>
    if _h : (takeWord (c :: cs)).1 = [] then wordsOf cs
    else (takeWord (c :: cs)).1 :: wordsOf (takeWord (c :: cs)).2
  termination_by cs => cs.length
  decreasing_by
    · simp
    · exact length_takeWord_snd_lt _h

/-- Whether a word starts like a number with a fraction, a hexadecimal number or a
number with an exponent, or consists of digits only. -/
def looksNumeric (word : List Char) : Bool :=
  let whole := word.takeWhile Char.isDigit
  match word.dropWhile Char.isDigit with
  | [] => whole ≠ []
  | '.' :: c :: _ => c.isDigit
  | 'x' :: c :: _ => whole == ['0'] && isHexDigit c
  | 'e' :: c :: _ => whole ≠ [] && c.isDigit
  | _ => false

/-- The words of a rendered formula that are neither numeric nor keywords nor known,
in order of first appearance. -/
def unresolvedWords (rules : Rules) (known : String → Bool) (text : String) :
    List String :=
  let offends (word : List Char) : Bool :=
    !looksNumeric word && !rules.isKeyword (String.ofList word) &&
      !known (String.ofList word)
  (((wordsOf text.toList).filter offends).map String.ofList).eraseDups

end TopdownMetrics.Formula

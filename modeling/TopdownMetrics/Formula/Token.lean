import TopdownMetrics.Formula.Expr

/-!
# Tokens of a formula

Besides the tokens this file holds the word classes of the formula language:
which words are numerals and which are reserved.
-/

namespace TopdownMetrics.Formula

inductive Token where
  | num (text : String)
  | symbol (s : Symbol)
  | operator (op : BinaryOp)
  | leftParen
  | rightParen
  | comma
  | ifWord
  | elseWord
  deriving DecidableEq, Repr, Inhabited

/-- The token as it is quoted in messages.  The words `and` and `or` are quoted as
the operators they stand for. -/
def Token.describe : Token → String
  | .num text => text
  | .symbol s => s.render
  | .operator op => op.text
  | .leftParen => "("
  | .rightParen => ")"
  | .comma => ","
  | .ifWord => "if"
  | .elseWord => "else"

/-- A token with the byte offset at which it starts. -/
structure PlacedToken where
  token : Token
  offset : Nat
  deriving DecidableEq, Repr, Inhabited

def isBlank (c : Char) : Bool :=
  c == ' ' || c == '\t' || c == '\r' || c == '\n'

/-- The characters of words, beside the pair `\-`. -/
def isWordChar (c : Char) : Bool :=
  c.isAlphanum || c == '_' || c == '.'

def isModifierChar (c : Char) : Bool :=
  c.isAlphanum || c == '_' || c == '='

def isHexDigit (c : Char) : Bool :=
  c.isDigit || ('a' ≤ c && c ≤ 'f') || ('A' ≤ c && c ≤ 'F')

/-- A possibly missing exponent `e12`. -/
def isExponentPart : List Char → Bool
  | [] => true
  | 'e' :: ds => ds ≠ [] && ds.all Char.isDigit
  | _ => false

/-- Digits with an optional fraction and exponent; a point needs a digit behind
it. -/
def isDecimalNumeral (word : List Char) : Bool :=
  let whole := word.takeWhile Char.isDigit
  match word.dropWhile Char.isDigit with
  | '.' :: rest =>
    rest.takeWhile Char.isDigit ≠ [] && isExponentPart (rest.dropWhile Char.isDigit)
  | rest => whole ≠ [] && isExponentPart rest

def isHexNumeral : List Char → Bool
  | '0' :: 'x' :: ds => ds ≠ [] && ds.all isHexDigit
  | _ => false

def isNumeral (word : List Char) : Bool :=
  isHexNumeral word || isDecimalNumeral word

def keyword? (word : List Char) : Option Token :=
  if word = ['i', 'f'] then some .ifWord
  else if word = ['e', 'l', 's', 'e'] then some .elseWord
  else if word = ['a', 'n', 'd'] then some (.operator .and)
  else if word = ['o', 'r'] then some (.operator .or)
  else none

end TopdownMetrics.Formula

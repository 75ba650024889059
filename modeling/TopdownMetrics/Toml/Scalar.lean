import TopdownMetrics.Number.Binary64
import TopdownMetrics.Text.Scanner
import TopdownMetrics.Toml.Value

/-!
# Keys, strings, numbers and dates of a configuration document

Scanners for everything in a document that contains no other value.
-/

namespace TopdownMetrics.Toml

open Scanner

def isSpace (c : Char) : Bool :=
  c == ' ' || c == '\t'

/-- The characters of a comment: all but control characters, which include DEL. -/
def isCommentChar (c : Char) : Bool :=
  c == '\t' || (0x20 ≤ c.toNat && c != '\x7f')

def spaces : Scanner Unit :=
  discard <| run isSpace

def newline : Scanner Unit :=
  char '\n' <|> word "\r\n"

def comment : Scanner Unit := do
  char '#'
  discard <| run isCommentChar

/-- Blanks, line ends and comments that each end their line. -/
def blankLines (fuel : Nat) : Scanner Unit := do
  spaces
  discard <| steps fuel do
    match ← peek? with
    | some '\n' | some '\r' => newline; spaces; return some ()
    | some '#' => comment; newline; spaces; return some ()
    | _ => return none

/-- The rest of a line behind a header or a value. -/
def lineEnd : Scanner Unit := do
  spaces
  if (← peek?) = some '#' then comment
  newline <|> atEnd

/-! ## Strings -/

def hexDigit? (c : Char) : Option Nat :=
  if c.isDigit then some (c.toNat - '0'.toNat)
  else if 'a' ≤ c ∧ c ≤ 'f' then some (c.toNat - 'a'.toNat + 10)
  else if 'A' ≤ c ∧ c ≤ 'F' then some (c.toNat - 'A'.toNat + 10)
  else none

def hexValue (cs : List Char) : Nat :=
  cs.foldl (fun n c => 16 * n + (hexDigit? c).getD 0) 0

/-- The character that `digits` hexadecimal digits name.  Surrogates and numbers
beyond the last character are refused. -/
def hexChar (digits : Nat) : Scanner Char := do
  let cs := (← get).take digits
  guard (cs.length = digits ∧ cs.all fun c => (hexDigit? c).isSome)
  let code := hexValue cs
  guard code.isValidChar
  set ((← get).drop digits)
  return Char.ofNat code

def escape : Scanner Char := do
  match ← satisfying fun _ => true with
  | 'b' => return '\x08'
  | 't' => return '\t'
  | 'n' => return '\n'
  | 'f' => return '\x0c'
  | 'r' => return '\r'
  | '"' => return '"'
  | '\\' => return '\\'
  | 'u' => hexChar 4
  | 'U' => hexChar 8
  | _ => failure

/-- The characters that stand for themselves in a quoted string. -/
def isPlain (quote c : Char) : Bool :=
  isCommentChar c && c != quote && (quote == '\'' || c != '\\')

/-- A string on one line.  Only double quotes admit escapes. -/
def lineString (fuel : Nat) (quote : Char) : Scanner String := do
  char quote
  let pieces ← steps fuel do
    match ← peek? with
    | some '\\' =>
      if quote = '"' then
        char '\\'
        return some [← escape]
      else
        return some (← run₁ (isPlain quote))
    | some c => if isPlain quote c then return some (← run₁ (isPlain quote)) else return none
    | none => return none
  char quote
  return String.ofList pieces.flatten

/-- A backslash at the end of a line with all blanks and line ends behind it. -/
def continuation : Scanner Unit := do
  char '\\'
  spaces
  newline
  discard <| run fun c => isSpace c || c == '\n' || c == '\r'

/-- A string in three quotes.  Up to two quotes may stand inside, also at the end;
a line end directly behind the opening quotes is dropped. -/
def blockString (fuel : Nat) (quote : Char) : Scanner String := do
  char quote; char quote; char quote
  newline <|> pure ()
  let pieces ← steps fuel do
    match ← peek? with
    | none => failure
    | some c =>
      if c = quote then
        let count := ((← get).takeWhile (· == quote)).length
        if count < 3 then
          return some (← run (· == quote))
        else
          return none
      else if c = '\\' ∧ quote = '"' then
        (do continuation; return some []) <|> (do char '\\'; return some [← escape])
      else if c = '\n' ∨ c = '\r' then
        newline
        return some ['\n']
      else
        return some (← run₁ (isPlain quote))
  let count := ((← get).takeWhile (· == quote)).length
  let extra := min (count - 3) 2
  set ((← get).drop (extra + 3))
  return String.ofList (pieces.flatten ++ List.replicate extra quote)

def string (fuel : Nat) : Scanner String := do
  if ← lookingAt "\"\"\"" then blockString fuel '"'
  else if ← lookingAt "'''" then blockString fuel '\''
  else lineString fuel '"' <|> lineString fuel '\''

/-! ## Keys -/

def isBareKeyChar (c : Char) : Bool :=
  c.isAlphanum || c == '-' || c == '_'

def simpleKey (fuel : Nat) : Scanner String := do
  match ← peek? with
  | some '"' => lineString fuel '"'
  | some '\'' => lineString fuel '\''
  | _ => return String.ofList (← run₁ isBareKeyChar)

/-- A key, or several joined by points.  A key has fewer than eighty parts. -/
def dottedKey (fuel : Nat) : Scanner (List String) := do
  spaces
  let first ← simpleKey fuel
  spaces
  let rest ← steps fuel do
    if (← peek?) = some '.' then
      char '.'
      spaces
      let key ← simpleKey fuel
      spaces
      return some key
    else
      return none
  guard (rest.length < 79)
  return first :: rest

/-! ## Numbers -/

def groupedDigits (fuel : Nat) (isDigit : Char → Bool) : Scanner (List Char) := do
  let first ← run₁ isDigit
  let rest ← steps fuel do
    if (← peek?) = some '_' then
      char '_'
      return some (← run₁ isDigit)
    else
      return none
  return first ++ rest.flatten

def sign : Scanner (List Char) := do
  match ← peek? with
  | some '+' => char '+'; return ['+']
  | some '-' => char '-'; return ['-']
  | _ => return []

/-- A whole number without needless zeros in front, sign and digits. -/
def wholeNumber (fuel : Nat) : Scanner (List Char × List Char) := do
  let s ← sign
  if (← peek?) = some '0' then
    char '0'
    return (s, ['0'])
  else
    return (s, ← groupedDigits fuel Char.isDigit)

def inRange (n : Int) : Bool :=
  -0x8000000000000000 ≤ n && n < 0x8000000000000000

def digitsBelow (base : Nat) (c : Char) : Bool :=
  (hexDigit? c).any (· < base)

def valueInBase (base : Nat) (cs : List Char) : Nat :=
  cs.foldl (fun n c => base * n + (hexDigit? c).getD 0) 0

def integer (fuel : Nat) : Scanner Value := do
  let prefixed (mark : String) (base : Nat) : Scanner Value := do
    word mark
    let n := valueInBase base (← groupedDigits fuel (digitsBelow base))
    guard (inRange n)
    return .integer n
  if ← lookingAt "0x" then prefixed "0x" 16
  else if ← lookingAt "0o" then prefixed "0o" 8
  else if ← lookingAt "0b" then prefixed "0b" 2
  else
    let (s, ds) ← wholeNumber fuel
    let magnitude : Int := valueInBase 10 ds
    let n := if s = ['-'] then -magnitude else magnitude
    guard (inRange n)
    return .integer n

def exponentPart (fuel : Nat) : Scanner (List Char) := do
  discard <| satisfying fun c => c == 'e' || c == 'E'
  let s ← sign
  return 'e' :: s ++ (← groupedDigits fuel Char.isDigit)

def fractionPart (fuel : Nat) : Scanner (List Char) := do
  char '.'
  return '.' :: (← groupedDigits fuel Char.isDigit)

/-- A number with a fraction or an exponent, not too large for a double; or `inf`
or `nan`. -/
def float (fuel : Nat) : Scanner Value := do
  let numeric : Scanner Value := do
    let (s, ds) ← wholeNumber fuel
    let tail ← exponentPart fuel <|> do
      let fraction ← fractionPart fuel
      let exponent ← (match ← peek? with
        | some 'e' | some 'E' => exponentPart fuel
        | _ => pure [])
      pure (fraction ++ exponent)
    let source := String.ofList (s ++ ds ++ tail)
    guard (Binary64.ofText? source ≠ some (.infinite false))
    return .float source
  let special : Scanner Value := do
    let s ← sign
    (do word "inf"; pure (.float (String.ofList s ++ "inf"))) <|>
      (do word "nan"; pure (.float (String.ofList s ++ "nan")))
  numeric <|> special

/-! ## Dates and times -/

/-- A number of exactly `count` digits between two bounds. -/
def fixedNumber (count least greatest : Nat) : Scanner Nat := do
  let cs := (← get).take count
  guard (cs.length = count ∧ cs.all Char.isDigit)
  let n := valueInBase 10 cs
  guard (least ≤ n ∧ n ≤ greatest)
  set ((← get).drop count)
  return n

def isLeapYear (year : Nat) : Bool :=
  year % 4 == 0 && (year % 100 != 0 || year % 400 == 0)

def daysInMonth (year month : Nat) : Nat :=
  if month = 2 then (if isLeapYear year then 29 else 28)
  else if month = 4 ∨ month = 6 ∨ month = 9 ∨ month = 11 then 30
  else 31

def date : Scanner Unit := do
  let year ← fixedNumber 4 0 9999
  char '-'
  let month ← fixedNumber 2 1 12
  char '-'
  discard <| fixedNumber 2 1 (daysInMonth year month)

def time : Scanner Unit := do
  discard <| fixedNumber 2 0 23
  char ':'
  discard <| fixedNumber 2 0 59
  char ':'
  discard <| fixedNumber 2 0 60
  if (← peek?) = some '.' then
    char '.'
    discard <| run₁ Char.isDigit

def timeOffset : Scanner Unit := do
  (discard <| satisfying fun c => c == 'Z' || c == 'z') <|> do
    discard <| satisfying fun c => c == '+' || c == '-'
    discard <| fixedNumber 2 0 23
    char ':'
    discard <| fixedNumber 2 0 59

/-- A date, a time of day, or a date with a time and possibly an offset. -/
def datetime : Scanner Value := do
  let before ← get
  let dateFirst : Scanner Unit := do
    date
    (do discard <| satisfying fun c => c == 'T' || c == 't' || c == ' '
        time
        timeOffset <|> pure ()) <|> pure ()
  dateFirst <|> time
  let behind ← get
  return .datetime (String.ofList (before.take (before.length - behind.length)))

end TopdownMetrics.Toml

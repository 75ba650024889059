import TopdownMetrics.Json.Number
import TopdownMetrics.Text.Scanner

/-!
# Reading JSON

The reader is strict: no comments, no trailing commas, no lone surrogates, no control
characters in strings.  Arrays and objects may be nested to a fixed depth.  A value that
nobody asks for only has to have the form of one.
-/

namespace TopdownMetrics.Json

open Scanner

def isBlank (c : Char) : Bool :=
  c == ' ' || c == '\t' || c == '\n' || c == '\r'

def blanks : Scanner Unit :=
  discard <| run isBlank

def hexDigit? (c : Char) : Option Nat :=
  if c.isDigit then some (c.toNat - '0'.toNat)
  else if 'a' ≤ c ∧ c ≤ 'f' then some (c.toNat - 'a'.toNat + 10)
  else if 'A' ≤ c ∧ c ≤ 'F' then some (c.toNat - 'A'.toNat + 10)
  else none

def codeUnit : Scanner Nat := do
  let cs := (← get).take 4
  guard (cs.length = 4)
  match cs.mapM hexDigit? with
  | some ds =>
    set ((← get).drop 4)
    return ds.foldl (fun n d => 16 * n + d) 0
  | none => failure

/-- What becomes of a value that is read. -/
inductive Purpose where
  | keep
  /-- It is passed over, so its escapes need not name characters and its numbers may have
  any size. -/
  | passOver
  deriving DecidableEq, Repr

/-- The character behind `\u`.  A high surrogate needs a low one behind it. -/
def unicodeEscape (purpose : Purpose) : Scanner Char := do
  let unit ← codeUnit
  if purpose = .passOver then
    return '\ufffd'
  else if 0xD800 ≤ unit ∧ unit < 0xDC00 then
    word "\\u"
    let low ← codeUnit
    guard (0xDC00 ≤ low ∧ low < 0xE000)
    return Char.ofNat (0x10000 + (unit - 0xD800) * 0x400 + (low - 0xDC00))
  else
    guard ¬(0xDC00 ≤ unit ∧ unit < 0xE000)
    return Char.ofNat unit

def escape (purpose : Purpose) : Scanner Char := do
  match ← satisfying fun _ => true with
  | '"' => return '"'
  | '\\' => return '\\'
  | '/' => return '/'
  | 'b' => return '\x08'
  | 'f' => return '\x0c'
  | 'n' => return '\n'
  | 'r' => return '\r'
  | 't' => return '\t'
  | 'u' => unicodeEscape purpose
  | _ => failure

def isPlain (c : Char) : Bool :=
  c != '"' && c != '\\' && 0x20 ≤ c.toNat

def stringRest (purpose : Purpose) (fuel : Nat) : Scanner String := do
  let pieces ← steps fuel do
    match ← peek? with
    | some '\\' => char '\\'; return some [← escape purpose]
    | some c => if isPlain c then return some (← run isPlain) else return none
    | none => return none
  char '"'
  return String.ofList pieces.flatten

def exponent : Scanner Int := do
  let negative ← (match ← peek? with
    | some '-' => do char '-'; pure true
    | some '+' => do char '+'; pure false
    | _ => pure false)
  let n : Int := Decimal.ofDigits (← run₁ Char.isDigit)
  return if negative then -n else n

/-- A number.  Needless zeros in front are refused. -/
def numeral : Scanner Numeral := do
  let negative ← (do char '-'; pure true) <|> pure false
  let whole ← run₁ Char.isDigit
  guard (whole.head? ≠ some '0' ∨ whole.length = 1)
  let fraction ← (do
    if (← peek?) = some '.' then
      char '.'
      return some (← run₁ Char.isDigit)
    else
      return none)
  let exponent ← (do
    if (← peek?) = some 'e' ∨ (← peek?) = some 'E' then
      discard <| satisfying fun _ => true
      return some (← exponent)
    else
      return none)
  return ⟨negative, whole, fraction, exponent⟩

/-- The items up to a closing bracket, with commas between them. -/
def items {α : Type} (fuel : Nat) (close : Char) (item : Scanner α) : Scanner (List α) := do
  blanks
  if (← peek?) = some close then
    char close
    return []
  else
    let first ← item
    blanks
    let rest ← steps fuel do
      if (← peek?) = some ',' then
        char ','
        blanks
        let a ← item
        blanks
        return some a
      else
        return none
    char close
    return first :: rest

/-- A member of an object.  Its name decides how its value is read. -/
def member {α : Type} (purpose : Purpose) (fuel : Nat) (valueOf : String → Scanner α) :
    Scanner (String × α) := do
  char '"'
  let key ← stringRest purpose fuel
  blanks
  char ':'
  blanks
  return (key, ← valueOf key)

/-- A value; `nested` reads the values in arrays and objects, if there may be any. -/
def valueWith (purpose : Purpose) (fuel : Nat) (nested : Option (Scanner Json)) :
    Scanner Json := do
  match ← peek? with
  | some '"' => char '"'; return .string (← stringRest purpose fuel)
  | some '[' =>
    char '['
    match nested with
    | some nested => return .array (← items fuel ']' nested)
    | none => failure
  | some '\x7b' =>
    char '\x7b'
    match nested with
    | some nested => return .object (← items fuel '\x7d' (member purpose fuel fun _ => nested))
    | none => failure
  | some 't' => word "true"; return .boolean true
  | some 'f' => word "false"; return .boolean false
  | some 'n' => word "null"; return .null
  | _ =>
    match (← numeral).toNumber?, purpose with
    | some n, _ => return .number n
    | none, .passOver => return .null
    | none, .keep => failure

/-- A value in which arrays and objects are nested at most `depth` deep. -/
def value (purpose : Purpose) (fuel : Nat) : (depth : Nat) → Scanner Json
  | 0 => fun cs => valueWith purpose fuel none cs
  | depth + 1 => fun cs => valueWith purpose fuel (some (value purpose fuel depth)) cs

def depthLimit : Nat := 127

/-- A value that is passed over, nested to any depth. -/
def passedOver (fuel : Nat) : Scanner Unit :=
  discard <| value .passOver fuel fuel

def parse? (text : String) : Option Json :=
  let document : Scanner Json := do
    blanks
    let v ← value .keep text.length depthLimit
    blanks
    return v
  runAll? document text

end TopdownMetrics.Json

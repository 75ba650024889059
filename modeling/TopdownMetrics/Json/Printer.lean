import Std.Data.TreeMap
import TopdownMetrics.Json.Number

/-!
# Writing JSON

Two forms: a compact one without blanks, in which the members of objects are sorted by
name, and an indented one with a line for each item.
-/

namespace TopdownMetrics.Json

def escapeChar (c : Char) : List Char :=
  if c = '"' then ['\\', '"']
  else if c = '\\' then ['\\', '\\']
  else if c = '\x08' then ['\\', 'b']
  else if c = '\x0c' then ['\\', 'f']
  else if c = '\n' then ['\\', 'n']
  else if c = '\r' then ['\\', 'r']
  else if c = '\t' then ['\\', 't']
  else if c.toNat < 0x20 then
    let ds := Nat.toDigits 16 c.toNat
    ['\\', 'u'] ++ List.replicate (4 - ds.length) '0' ++ ds
  else [c]

def quote (s : String) : String :=
  String.ofList ('"' :: s.toList.flatMap escapeChar ++ ['"'])

/-- Members sorted by name; of repeated ones the last is kept. -/
def sortMembers {α : Type} (ms : List (String × α)) : List (String × α) :=
  (ms.foldl (fun (m : Std.TreeMap String α) (k, v) => m.insert k v) ∅).toList

mutual

def compact : Json → String
  | .null => "null"
  | .boolean b => if b then "true" else "false"
  | .number n => n.render
  | .string s => quote s
  | .array items => "[" ++ String.intercalate "," (compactItems items) ++ "]"
  | .object members =>
    let written := (sortMembers (compactMembers members)).map fun (k, v) => quote k ++ ":" ++ v
    "\x7b" ++ String.intercalate "," written ++ "\x7d"

def compactItems : List Json → List String
  | [] => []
  | item :: items => item.compact :: compactItems items

def compactMembers : List (String × Json) → List (String × String)
  | [] => []
  | (k, v) :: members => (k, v.compact) :: compactMembers members

end

def indentation (depth : Nat) : String :=
  String.ofList (List.replicate (4 * depth) ' ')

/-- The lines of an array or object between its brackets. -/
def block (opening closing : String) (depth : Nat) (lines : List String) : String :=
  if lines.isEmpty then opening ++ closing
  else
    opening ++ "\n" ++
      String.intercalate ",\n" (lines.map (indentation (depth + 1) ++ ·)) ++
      "\n" ++ indentation depth ++ closing

mutual

/-- The indented form; members keep their order. -/
def indented (depth : Nat) : Json → String
  | .array items => block "[" "]" depth (indentedItems depth items)
  | .object members => block "\x7b" "\x7d" depth (indentedMembers depth members)
  | v => v.compact

def indentedItems (depth : Nat) : List Json → List String
  | [] => []
  | item :: items => item.indented (depth + 1) :: indentedItems depth items

def indentedMembers (depth : Nat) : List (String × Json) → List String
  | [] => []
  | (k, v) :: members =>
    (quote k ++ ": " ++ v.indented (depth + 1)) :: indentedMembers depth members

end

def fileText (v : Json) : String :=
  v.indented 0 ++ "\n"

end TopdownMetrics.Json

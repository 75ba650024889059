import TopdownMetrics.Toml.Scalar

/-!
# Reading a configuration document

A document is a sequence of sections: lines `key = value` under no header, under a
`[table]` or under an `[[array.of.tables]]`.  Reading first finds the sections and
then puts them together, where a key may be given once and a table may be opened
once.
-/

namespace TopdownMetrics.Toml

open Scanner

/-! ## Putting tables together -/

/-- Changes the entry of a key by a function of what stands there. -/
def Entries.change? (f : Option Value → Option Value) (key : String) :
    Entries → Option Entries
  | [] => (f none).map fun v => [(key, v)]
  | (k, v) :: rest =>
    if k = key then (f (some v)).map fun v' => (k, v') :: rest
    else (Entries.change? f key rest).map ((k, v) :: ·)

/-- Changes the last of a list of values. -/
def changeLast? (f : Value → Option Value) : List Value → Option (List Value)
  | [] => none
  | [v] => (f v).map ([·])
  | v :: vs => (changeLast? f vs).map (v :: ·)

abbrev TableChange := Origin → Entries → Option (Origin × Entries)

/-- Applies a change to a value that is a table. -/
def TableChange.toValue (f : TableChange) : Value → Option Value
  | .table origin entries => (f origin entries).map fun (o, es) => .table o es
  | _ => none

/-- Follows a path of keys from a table and changes the table at its end.  Missing
tables on the way are introduced by `origin`.  A dotted key cannot enter a table
with a header of its own; values in braces cannot be entered at all; in an array of
tables the way leads through the last one. -/
def descend (origin : Origin) : List String → TableChange → TableChange
  | [], f, o, es => f o es
  | key :: path, f, o, es =>
    let enter (next : TableChange) : Option Value → Option Value
      | none => next.toValue (.table origin [])
      | some (.tables items) => (changeLast? next.toValue items).map .tables
      | some (.table .inline _) => none
      | some (.table o es) =>
        if origin = .dotted ∧ o = .header then none else next.toValue (.table o es)
      | some _ => none
    (Entries.change? (enter (descend origin path f)) key es).map fun es => (o, es)

/-- Adds an entry whose key may be dotted.  A dotted key ends in a table that dotted
keys introduced. -/
def addEntry (path : List String) (key : String) (v : Value) : TableChange :=
  descend .dotted path fun o es =>
    if decide (o = .dotted) == path.isEmpty then none
    else if es.any (·.1 == key) then none
    else some (o, es ++ [(key, v)])

/-- A key with its value; `path` holds the parts of the key but the last. -/
structure Line where
  path : List String
  key : String
  value : Value

def addLines (lines : List Line) (origin : Origin) (es : Entries) : Option Entries :=
  (lines.foldlM (fun (oes : Origin × Entries) l =>
    addEntry l.path l.key l.value oes.1 oes.2) (origin, es)).map (·.2)

def inlineTable? (lines : List Line) : Option Value :=
  (addLines lines .inline []).map (.table .inline)

inductive Header where
  | table (path : List String) (key : String)
  | arrayTable (path : List String) (key : String)

structure Section where
  header : Header
  lines : List Line

/-- Opens a table: a new one, or one that so far was only implied. -/
def openTable (lines : List Line) : Option Value → Option Value
  | none => (addLines lines .header []).map (.table .header)
  | some (.table .implied es) => (addLines lines .header es).map (.table .header)
  | some _ => none

def appendTable (lines : List Line) : Option Value → Option Value
  | none => (addLines lines .header []).map fun es => .tables [.table .header es]
  | some (.tables items) =>
    (addLines lines .header []).map fun es => .tables (items ++ [.table .header es])
  | some _ => none

def addSection (es : Entries) (s : Section) : Option Entries :=
  let (path, key, change) := match s.header with
    | .table path key => (path, key, openTable s.lines)
    | .arrayTable path key => (path, key, appendTable s.lines)
  let changeHere : TableChange := fun o es =>
    (Entries.change? change key es).map fun es => (o, es)
  (descend .implied path changeHere .header es).map (·.2)

/-! ## Values -/

def arrayItems (fuel : Nat) (item : Scanner Value) : Scanner (List Value) := do
  blankLines fuel
  let items ← steps fuel do
    if (← peek?) = some ']' then
      return none
    else
      let v ← item
      blankLines fuel
      if (← peek?) = some ',' then
        char ','
        blankLines fuel
      else
        guard ((← peek?) = some ']')
      return some v
  char ']'
  return items

/-- A key, `=` and a value. -/
def line (fuel : Nat) (item : Scanner Value) : Scanner Line := do
  let keys ← dottedKey fuel
  char '='
  spaces
  let v ← item
  return ⟨keys.dropLast, keys.getLast?.getD "", v⟩

/-- The lines between two braces.  A comma stands between them only. -/
def inlineLines (fuel : Nat) (item : Scanner Value) : Scanner (List Line) := do
  spaces
  if (← peek?) = some '}' then
    char '}'
    return []
  else
    let first ← line fuel item
    spaces
    let rest ← steps fuel do
      if (← peek?) = some ',' then
        char ','
        let l ← line fuel item
        spaces
        return some l
      else
        return none
    char '}'
    return first :: rest

/-- A value whose arrays and braces hold values read by `nested`. -/
def valueWith (fuel : Nat) (nested : Scanner Value) : Scanner Value := do
  match ← peek? with
  | some '"' | some '\'' => return .string (← string fuel)
  | some '[' =>
    char '['
    return .array (← arrayItems fuel nested)
  | some '\x7b' =>
    char '\x7b'
    match inlineTable? (← inlineLines fuel nested) with
    | some v => return v
    | none => failure
  | some 't' => word "true"; return .boolean true
  | some 'f' => word "false"; return .boolean false
  | _ => datetime <|> float fuel <|> integer fuel

/-- A value; arrays and braces may be nested `depth` levels deep. -/
def value (fuel : Nat) : (depth : Nat) → Scanner Value
  | 0 => do
    guard ((← peek?) ≠ some '[' ∧ (← peek?) ≠ some '\x7b')
    valueWith fuel failure
  | depth + 1 => valueWith fuel (value fuel depth)

def depthLimit : Nat := 79

/-! ## Documents -/

/-- One line of a document that is neither blank nor a comment. -/
inductive Item where
  | header (h : Header)
  | line (l : Line)

def headerItem (fuel : Nat) : Scanner Item := do
  if ← lookingAt "[[" then
    word "[["
    let keys ← dottedKey fuel
    word "]]"
    lineEnd
    return .header (.arrayTable keys.dropLast (keys.getLast?.getD ""))
  else
    char '['
    let keys ← dottedKey fuel
    char ']'
    lineEnd
    return .header (.table keys.dropLast (keys.getLast?.getD ""))

def items (fuel : Nat) : Scanner (List (Option Item)) :=
  steps fuel do
    spaces
    match ← peek? with
    | none => return none
    | some '\n' | some '\r' => newline; return some none
    | some '#' => lineEnd; return some none
    | some '[' => return some (some (← headerItem fuel))
    | some _ =>
      let l ← line fuel (value fuel depthLimit)
      lineEnd
      return some (some (.line l))

/-- Splits the items at the headers: the lines in front of all headers, and the
sections. -/
def sections : List Item → List Line × List Section
  | [] => ([], [])
  | .line l :: rest =>
    let (lines, ss) := sections rest
    (l :: lines, ss)
  | .header h :: rest =>
    let (lines, ss) := sections rest
    ([], ⟨h, lines⟩ :: ss)

/-- The entries of a document; nothing, if the text is not one. -/
def parse? (text : String) : Option Entries := do
  let cs := match text.toList with
    | '\ufeff' :: cs => cs
    | cs => cs
  let fuel := cs.length + 1
  let (found, rest) ← items fuel cs
  guard rest.isEmpty
  let (lines, ss) := sections (found.filterMap id)
  let es ← addLines lines .header []
  ss.foldlM addSection es

end TopdownMetrics.Toml

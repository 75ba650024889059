import TopdownMetrics.Text.Blank
import TopdownMetrics.Text.Substring

/-!
# The header of a formula table

The header row names the columns; of columns with one name the last counts.  The
columns whose names start with `Level` hold the names of topdown metrics, each column
those of one nesting level.
-/

namespace TopdownMetrics

/-- Why a table cannot be read. -/
inductive TableError where
  /-- A column that is needed is not there. -/
  | missingColumn (column : String)
  /-- No row starts with the key column. -/
  | missingHeader
  deriving DecidableEq, Repr, Inhabited

def TableError.message : TableError → String
  | .missingColumn column => "Table header is missing column '" ++ column ++ "'"
  | .missingHeader => "Table has no header row starting with 'Key'"

abbrev Row := List String

/-- The columns of a table in order. -/
structure Header where
  columns : List String
  deriving DecidableEq, Repr, Inhabited

namespace Header

def keyColumn : String := "Key"
def descriptionColumn : String := "Metric Description"
def groupColumn : String := "Metric Group"
def locateColumn : String := "Locate-with"
def firstLevelColumn : String := "Level1"

/-- The position of the last column of a name. -/
def position? (h : Header) (column : String) : Option Nat :=
  List.lookup column h.columns.zipIdx.reverse

def has (h : Header) (column : String) : Bool :=
  h.columns.contains column

def require (h : Header) (column : String) : Except TableError Unit :=
  if h.has column then .ok () else .error (.missingColumn column)

/-- The trimmed text of a cell; empty, if the column or the cell is not there. -/
def cell (h : Header) (row : Row) (column : String) : String :=
  match (h.position? column).bind (row[·]?) with
  | some text => Text.trim text
  | none => ""

def levels (h : Header) : List String :=
  h.columns.filter (Text.startsWith · "Level")

/-- The number in the name of a level column.  A column without a number counts as the
first level. -/
def levelNumber (column : String) : Nat :=
  let cs := column.toList
  let digits := match Text.dropRepeated "Level".toList cs.length cs with
    | '+' :: ds => ds
    | ds => ds
  if digits ≠ [] ∧ digits.all Char.isDigit then
    let n := digits.foldl (fun n c => 10 * n + (c.toNat - '0'.toNat)) 0
    if n < UInt64.size then max n 1 else 1
  else 1

end Header

/-- The header of a table and the rows behind it. -/
def splitHeader? : List Row → Option (Header × List Row)
  | [] => none
  | row :: rows =>
    if row.head? = some Header.keyColumn then some (⟨row⟩, rows) else splitHeader? rows

end TopdownMetrics

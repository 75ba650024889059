import TopdownMetrics.Csv.Reader
import TopdownMetrics.Diagnostic
import TopdownMetrics.Rules.Basic
import TopdownMetrics.Table.Header
import TopdownMetrics.Table.Locate
import TopdownMetrics.Table.SymbolTable

/-!
# Reading a formula table for an architecture

The key of a row says what it describes.  Topdown rows build the hierarchy of nodes:
a row of level `n` is a child of the last row of level `n - 1`.  Informational rows
are metrics of their own.  Auxiliary rows only feed other formulas.
-/

namespace TopdownMetrics

/-- A metric of a table before its formula is resolved. -/
structure MetricSpec where
  /-- The name under which it is emitted. -/
  name : String
  /-- The name that the table gives it. -/
  tableName : String
  formula : String
  description : String
  groups : Option String
  locate : Option String
  scaleUnit : Option String
  deriving DecidableEq, Repr, Inhabited

/-- What the rows of a table yield. -/
structure TableContents where
  symbols : SymbolTable
  /-- The metrics in order of their rows. -/
  metrics : List MetricSpec
  diagnostics : List Diagnostic

/-- What one row yields. -/
structure RowContents where
  symbols : SymbolTable
  metric : Option MetricSpec
  diagnostics : List Diagnostic

/-- How the rows of a table are read for an architecture. -/
structure TableReading where
  header : Header
  /-- The formula columns in the order in which they are looked at. -/
  search : List String
  arch : String
  rules : Rules

namespace TableReading

/-- The formula of a row: the first cell that is not empty.  If it mentions a banned
event, there is no formula. -/
def formula? (t : TableReading) (row : Row) : Option String :=
  let cells := (t.search.filter t.header.has).map (t.header.cell row)
  (cells.find? (· != "")).filter fun cell =>
    !(t.rules.arch t.arch).bannedEvents.any (Text.contains cell ·)

/-- The sampling hint of a row and the finding that it is malformed. -/
def locate (t : TableReading) (row : Row) : Option String × List Diagnostic :=
  match locateHint (t.header.cell row Header.locateColumn) t.arch with
  | .ok hint => (hint, [])
  | .error e =>
    (none, [.info (.invalidFormula (t.header.cell row Header.firstLevelColumn) e.message)])

/-- The level column that names the metric of a topdown row, and the name. -/
def levelAndName? (t : TableReading) (row : Row) : Option (Nat × String) :=
  (t.header.levels.map fun column => (Header.levelNumber column, t.header.cell row column)).find?
    (·.2 != "")

/-- The chain of nodes down to a new node of the given level, if there is a parent for
it. -/
def enter? (ancestors : List String) (level : Nat) (name : String) : Option (List String) :=
  if ancestors.length + 1 < level then none
  else some (ancestors.take (level - 1) ++ [name])

/-- The groups of a topdown metric: its level, the groups of the table and that of its
parent. -/
def topdownGroups (level : Nat) (tableGroup : String) (parent : Option String) : String :=
  "TopdownL" ++ toString level ++
    (if tableGroup = "" then "" else ";" ++ tableGroup) ++
    match parent with
    | some parent => ";tma_" ++ Text.lower parent ++ "_group"
    | none => ""

def addTopdownRow (t : TableReading) (symbols : SymbolTable) (row : Row)
    (hint : Option String) : RowContents :=
  match t.levelAndName? row with
  | none =>
    ⟨symbols, none, [.warning (.skipped (t.header.cell row Header.keyColumn)
      "topdown row names no metric")]⟩
  | some (level, name) =>
    match enter? symbols.ancestors level name with
    | none =>
      ⟨symbols, none, [.warning (.skipped name
        ("level " ++ toString level ++ " has no level " ++ toString (level - 1) ++
          " parent"))]⟩
    | some ancestors =>
      let symbols := { symbols with ancestors := ancestors }
      let parent := if 1 < level then ancestors[level - 2]? else none
      match t.formula? row with
      | none => ⟨symbols, none, [.info (.missingFormula name t.arch)]⟩
      | some formula =>
        let symbols := match parent with
          | some parent => symbols.addChild parent name
          | none => symbols
        let spec : MetricSpec := {
          name := SymbolTable.nodeMetricName name
          tableName := name
          formula := formula
          description := t.header.cell row Header.descriptionColumn
          groups := some (topdownGroups level (t.header.cell row Header.groupColumn) parent)
          locate := hint
          scaleUnit := some "100%" }
        ⟨symbols.addNode name formula, some spec, []⟩

def addInfoRow (t : TableReading) (symbols : SymbolTable) (row : Row)
    (hint : Option String) : RowContents :=
  let name := t.header.cell row Header.firstLevelColumn
  match t.formula? row with
  | none => ⟨symbols, none, [.info (.missingFormula name t.arch)]⟩
  | some formula =>
    let group := t.header.cell row Header.groupColumn
    let spec : MetricSpec := {
      name := name
      tableName := name
      formula := formula
      description := t.header.cell row Header.descriptionColumn
      groups := if group = "" then t.rules.metricGroups.lookup name else some group
      locate := hint
      scaleUnit := none }
    ⟨symbols.addInfo name formula, some spec, []⟩

/-- An auxiliary row without a formula, or one that is not available, adds nothing. -/
def addAuxRow (t : TableReading) (symbols : SymbolTable) (row : Row) : RowContents :=
  match t.formula? row with
  | none => ⟨symbols, none, []⟩
  | some formula =>
    if formula = "#NA" then ⟨symbols, none, []⟩
    else ⟨symbols.addAux (t.header.cell row Header.firstLevelColumn) formula, none, []⟩

/-- What the key of a row says. -/
inductive RowKind where
  | topdown
  | info
  | aux
  | other
  deriving DecidableEq, Repr

def rowKind (t : TableReading) (row : Row) : RowKind :=
  let key := t.header.cell row Header.keyColumn
  if t.rules.topdownPrefixes.any (Text.startsWith key ·) then .topdown
  else if Text.startsWith key "Info" then .info
  else if Text.startsWith key "Aux" then .aux
  else .other

def addRow (t : TableReading) (symbols : SymbolTable) (row : Row) : RowContents :=
  let (hint, findings) := t.locate row
  let contents := match t.rowKind row with
    | .topdown => t.addTopdownRow symbols row hint
    | .info => t.addInfoRow symbols row hint
    | .aux => t.addAuxRow symbols row
    | .other => ⟨symbols, none, []⟩
  { contents with diagnostics := findings ++ contents.diagnostics }

def addRows (t : TableReading) (symbols : SymbolTable) : List Row → TableContents
  | [] => ⟨symbols, [], []⟩
  | row :: rows =>
    let first := t.addRow symbols row
    let rest := t.addRows first.symbols rows
    ⟨rest.symbols, first.metric.toList ++ rest.metrics,
      first.diagnostics ++ rest.diagnostics⟩

end TableReading

/-- The formula column of a table and the columns that are looked at.  If the table has
the alternate column only, that column's own order holds. -/
def chooseColumn (header : Header) (column : FormulaColumn) (rules : Rules) :
    Except TableError (String × List String) :=
  if header.has column.column then
    .ok (column.column, column.searchOrder)
  else
    match column.alternate with
    | some alternate =>
      if header.has alternate then
        let declared := rules.formulaColumns.find? (·.column == alternate)
        .ok (alternate, (declared.map FormulaColumn.searchOrder).getD [alternate])
      else
        .error (.missingColumn column.column)
    | none => .error (.missingColumn column.column)

/-- A table that has been read, with the formula column that was chosen. -/
structure BuiltTable where
  column : String
  contents : TableContents

def buildTable (text arch : String) (column : FormulaColumn) (rules : Rules) :
    Except TableError BuiltTable := do
  match splitHeader? (Csv.rows text) with
  | none => throw .missingHeader
  | some (header, rows) =>
    header.require Header.firstLevelColumn
    header.require Header.descriptionColumn
    let (name, search) ← chooseColumn header column rules
    let reading : TableReading := ⟨header, search, arch, rules⟩
    return ⟨name, reading.addRows {} rows⟩

end TopdownMetrics

import TopdownMetrics.Proofs.EmittedRecords
import TopdownMetrics.Proofs.TableRows

/-!
# The cell that holds the formula of a row

A row is searched column by column for a cell that is not empty, and the search ends there.
Only then is the cell held against the banned events of the architecture.  So a cell with a
banned event does not count as empty: it leaves the row without a formula, also where a column
behind it has one.
-/

namespace TopdownMetrics

/-! ## The columns that are searched -/

/-- The formula column of a table and the columns that are searched: the own column and its
fallbacks, or, if the table lacks the own column, the alternate one in its own order. -/
inductive SearchOrder (header : Header) (column : FormulaColumn) (rules : Rules) :
    String → List String → Prop where
  | own (hown : header.has column.column = true) :
      SearchOrder header column rules column.column (column.column :: column.fallbacks)
  | declared {name : String} {alternate : FormulaColumn}
      (hown : header.has column.column = false) (hname : column.alternate = some name)
      (hhas : header.has name = true)
      (hdeclared : rules.formulaColumns.find? (·.column == name) = some alternate) :
      SearchOrder header column rules name (alternate.column :: alternate.fallbacks)
  | undeclared {name : String} (hown : header.has column.column = false)
      (hname : column.alternate = some name) (hhas : header.has name = true)
      (hdeclared : rules.formulaColumns.find? (·.column == name) = none) :
      SearchOrder header column rules name [name]

theorem searchOrder_of_chooseColumn {header : Header} {column : FormulaColumn} {rules : Rules}
    {name : String} {search : List String}
    (h : chooseColumn header column rules = .ok (name, search)) :
    SearchOrder header column rules name search := by
  unfold chooseColumn at h
  split at h
  · rename_i hown
    cases h
    exact .own hown
  · rename_i hown
    have hlacks : header.has column.column = false := Bool.eq_false_iff.2 hown
    split at h
    · rename_i alternate hname
      split at h
      · rename_i hhas
        dsimp only at h
        cases hdeclared : rules.formulaColumns.find? (·.column == alternate) with
        | none =>
          rw [hdeclared] at h
          cases h
          exact .undeclared hlacks hname hhas hdeclared
        | some declared =>
          rw [hdeclared] at h
          cases h
          exact .declared hlacks hname hhas hdeclared
      · cases h
    · cases h

/-! ## The first cell that is not empty -/

def FirstFilled (cells : List String) (cell : String) : Prop :=
  ∃ before behind, cells = before ++ cell :: behind ∧ (∀ c ∈ before, c = "") ∧ cell ≠ ""

theorem find?_filled_eq_some_iff {cells : List String} {cell : String} :
    cells.find? (· != "") = some cell ↔ FirstFilled cells cell := by
  rw [List.find?_eq_some_iff_append]
  constructor
  · rintro ⟨hne, before, behind, rfl, hbefore⟩
    exact ⟨before, behind, rfl, by simpa using hbefore, by simpa using hne⟩
  · rintro ⟨before, behind, rfl, hbefore, hne⟩
    exact ⟨by simpa using hne, before, behind, rfl, by simpa using hbefore⟩

theorem FirstFilled.unique {cells : List String} {cell cell' : String}
    (h : FirstFilled cells cell) (h' : FirstFilled cells cell') : cell = cell' := by
  have hfind := find?_filled_eq_some_iff.2 h
  rw [find?_filled_eq_some_iff.2 h'] at hfind
  exact (Option.some.inj hfind).symm

namespace TableReading

/-- The cells of a row that are looked at, in order: those of the columns that the table
has. -/
def cells (t : TableReading) (row : Row) : List String :=
  (t.search.filter t.header.has).map (t.header.cell row)

/-- The cell mentions an event that is banned for the architecture. -/
def isBanned (t : TableReading) (cell : String) : Bool :=
  (t.rules.arch t.arch).bannedEvents.any (Text.contains cell ·)

/-- The formula that a row would have if banned cells counted as empty. -/
def usableCell? (t : TableReading) (row : Row) : Option String :=
  (t.cells row).find? fun cell => cell != "" && !t.isBanned cell

variable {t : TableReading} {row : Row}

theorem formula?_eq (t : TableReading) (row : Row) :
    t.formula? row = ((t.cells row).find? (· != "")).filter (!t.isBanned ·) :=
  rfl

theorem formula?_eq_some_iff {formula : String} :
    t.formula? row = some formula ↔
      FirstFilled (t.cells row) formula ∧ t.isBanned formula = false := by
  rw [formula?_eq, Option.filter_eq_some_iff, find?_filled_eq_some_iff, Bool.not_eq_true']

theorem formula?_eq_none_iff :
    t.formula? row = none ↔
      (∀ cell ∈ t.cells row, cell = "") ∨
        ∃ cell, FirstFilled (t.cells row) cell ∧ t.isBanned cell = true := by
  rw [formula?_eq]
  cases hfind : (t.cells row).find? (· != "") with
  | none =>
    have hempty : ∀ cell ∈ t.cells row, cell = "" := by simpa using hfind
    exact iff_of_true rfl (.inl hempty)
  | some cell =>
    have hfirst := find?_filled_eq_some_iff.1 hfind
    have hsome : ¬ ∀ c ∈ t.cells row, c = "" := by
      obtain ⟨before, behind, hcells, -, hne⟩ := hfirst
      exact fun hempty => hne (hempty cell (hcells ▸ by simp))
    rw [or_iff_right hsome, Option.filter_eq_none_iff]
    constructor
    · intro hbanned
      exact ⟨cell, hfirst, by simpa using hbanned cell rfl⟩
    · rintro ⟨cell', hfirst', hbanned⟩ found hfound
      cases hfound
      rw [hfirst.unique hfirst']
      simp [hbanned]

theorem usableCell?_of_firstFilled {cell : String} (hfirst : FirstFilled (t.cells row) cell)
    (hallowed : t.isBanned cell = false) : t.usableCell? row = some cell := by
  obtain ⟨before, behind, hcells, hbefore, hne⟩ := hfirst
  refine List.find?_eq_some_iff_append.2
    ⟨by simp [hne, hallowed], before, behind, hcells, fun c hc => ?_⟩
  simp [hbefore c hc]

/-- Banned cells count as empty if and only if no cell with a banned event stands in front of
one that could be used. -/
theorem formula?_eq_usableCell?_iff :
    t.formula? row = t.usableCell? row ↔
      ∀ cell, FirstFilled (t.cells row) cell → t.isBanned cell = true →
        t.usableCell? row = none := by
  cases hformula : t.formula? row with
  | some formula =>
    obtain ⟨hfirst, hallowed⟩ := formula?_eq_some_iff.1 hformula
    have husable := usableCell?_of_firstFilled hfirst hallowed
    refine iff_of_true husable.symm fun cell hcell hbanned => ?_
    rw [hcell.unique hfirst, hallowed] at hbanned
    cases hbanned
  | none =>
    rcases formula?_eq_none_iff.1 hformula with hempty | ⟨cell, hfirst, hbanned⟩
    · have husable : t.usableCell? row = none :=
        List.find?_eq_none.2 fun cell hcell => by simp [hempty cell hcell]
      exact iff_of_true husable.symm fun _ _ _ => husable
    · exact ⟨fun h _ _ _ => h.symm, fun h => (h cell hfirst hbanned).symm⟩

/-! ## The formulas of a table -/

/-- The formulas of the listed metrics are formulas of rows, in the order of the rows. -/
theorem formulas_addRows_sublist (t : TableReading) (symbols : SymbolTable) (rows : List Row) :
    ((t.addRows symbols rows).metrics.map (·.formula)).Sublist (rows.filterMap t.formula?) := by
  induction rows generalizing symbols with
  | nil => exact List.Sublist.slnil
  | cons row rows ih =>
    have hrest := ih (t.addRow symbols row).symbols
    simp only [addRows]
    rcases t.addRow_listsFormula symbols row with ⟨hmetric, _⟩ | ⟨spec, hmetric, hformula, _⟩
    · -- Rows of other kinds may have a formula and are not listed.
      rw [hmetric]
      cases hformula : t.formula? row with
      | none => simpa [List.filterMap_cons_none hformula] using hrest
      | some formula =>
        rw [List.filterMap_cons_some hformula]
        exact hrest.cons formula
    · rw [hmetric, List.filterMap_cons_some hformula]
      exact hrest.cons_cons spec.formula

/-- Which cell of a row is its formula: the first one that is not empty, if it has no banned
event.  That is the first usable cell, unless one with a banned event stands in front of it. -/
structure SelectsCell (t : TableReading) (row : Row) : Prop where
  some_iff : ∀ formula, t.formula? row = some formula ↔
    FirstFilled (t.cells row) formula ∧ t.isBanned formula = false
  none_iff : t.formula? row = none ↔ (∀ cell ∈ t.cells row, cell = "") ∨
    ∃ cell, FirstFilled (t.cells row) cell ∧ t.isBanned cell = true
  usable_iff : t.formula? row = t.usableCell? row ↔
    ∀ cell, FirstFilled (t.cells row) cell → t.isBanned cell = true → t.usableCell? row = none

theorem selectsCell (t : TableReading) (row : Row) : t.SelectsCell row where
  some_iff _ := formula?_eq_some_iff
  none_iff := formula?_eq_none_iff
  usable_iff := formula?_eq_usableCell?_iff

end TableReading

/-- The metrics of every table that is read have formulas of its rows, and the formula of a row
is taken from the first cell that is not empty, in the columns that are searched. -/
theorem cells_of_buildTable {text arch : String} {column : FormulaColumn} {rules : Rules}
    {built : BuiltTable} (h : buildTable text arch column rules = .ok built) :
    ∃ header rows search, splitHeader? (Csv.rows text) = some (header, rows) ∧
      SearchOrder header column rules built.column search ∧
      built.contents = TableReading.addRows ⟨header, search, arch, rules⟩ {} rows ∧
      (built.contents.metrics.map (·.formula)).Sublist
        (rows.filterMap (TableReading.formula? ⟨header, search, arch, rules⟩)) ∧
      ∀ row ∈ rows, TableReading.SelectsCell ⟨header, search, arch, rules⟩ row := by
  obtain ⟨header, rows, search, hsplit, hcolumn, hcontents⟩ := exists_reading_of_buildTable h
  refine ⟨header, rows, search, hsplit, searchOrder_of_chooseColumn hcolumn, hcontents, ?_, ?_⟩
  · rw [hcontents]
    exact TableReading.formulas_addRows_sublist _ {} rows
  · exact fun row _ => TableReading.selectsCell _ row

/-! ### A banned cell in front of a usable one -/

def tigerColumn : FormulaColumn :=
  ⟨"TGL", ["RKL", "ICL"], none⟩

def tigerRules : Rules :=
  { plainRules with
    formulaColumns := [tigerColumn]
    archs := [("TGL", { ArchRules.undeclared with bannedEvents := ["UNC_CLOCK.SOCKET"] })] }

/-- The own cell of the first row is empty, that of the second one is banned. -/
def socketText : String :=
  "Key,Level1,Metric Description,TGL,RKL\nInfo.Core,IPC,Instructions per cycle,,1 / CPI\nInfo.System,Socket_CLKS,Socket clocks,UNC_CLOCK.SOCKET,CPU_CLK_UNHALTED.REF_TSC\n"

def socketReading : TableReading :=
  ⟨⟨["Key", "Level1", "Metric Description", "TGL", "RKL"]⟩, ["TGL", "RKL", "ICL"], "TGL",
    tigerRules⟩

def ratioRow : Row :=
  ["Info.Core", "IPC", "Instructions per cycle", "", "1 / CPI"]

def socketRow : Row :=
  ["Info.System", "Socket_CLKS", "Socket clocks", "UNC_CLOCK.SOCKET", "CPU_CLK_UNHALTED.REF_TSC"]

def socketTable : BuiltTable :=
  ⟨"TGL", socketReading.addRows {} [ratioRow, socketRow]⟩

theorem buildTable_socketText :
    buildTable socketText "TGL" tigerColumn tigerRules = .ok socketTable :=
  buildTable_of_split (by cbv) rfl rfl rfl

theorem cells_socketText :
    buildTable socketText "TGL" tigerColumn tigerRules = .ok socketTable ∧
      socketTable.contents.metrics.map (·.formula) = ["1 / CPI"] ∧
      ∃ header rows search, splitHeader? (Csv.rows socketText) = some (header, rows) ∧
        SearchOrder header tigerColumn tigerRules socketTable.column search ∧
        socketTable.contents =
          TableReading.addRows ⟨header, search, "TGL", tigerRules⟩ {} rows ∧
        (socketTable.contents.metrics.map (·.formula)).Sublist
          (rows.filterMap (TableReading.formula? ⟨header, search, "TGL", tigerRules⟩)) ∧
        ∀ row ∈ rows, TableReading.SelectsCell ⟨header, search, "TGL", tigerRules⟩ row := by
  refine ⟨buildTable_socketText, ?_, cells_of_buildTable buildTable_socketText⟩
  decide +kernel

/-- The row of the socket has no formula, although its second column has one that could be
used. -/
theorem missingFormula_socketRow :
    buildTable socketText "TGL" tigerColumn tigerRules = .ok socketTable ∧
      socketTable.contents.diagnostics = [.info (.missingFormula "Socket_CLKS" "TGL")] ∧
      socketReading.formula? socketRow = none ∧
      socketReading.usableCell? socketRow = some "CPU_CLK_UNHALTED.REF_TSC" :=
  ⟨buildTable_socketText, by decide +kernel, by decide +kernel, by decide +kernel⟩

end TopdownMetrics

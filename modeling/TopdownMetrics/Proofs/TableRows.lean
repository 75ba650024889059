import TopdownMetrics.Proofs.Trimming
import TopdownMetrics.Table.Build

/-!
# The rows of a table and the formulas kept under their names

Each row with a formula is listed as a metric and writes its formula under its table name.
A later row of the same name overwrites it, while the list keeps both; so what is kept under
a name is the formula of the last listed row of that name.
-/

namespace TopdownMetrics

theorem Header.trim_cell (h : Header) (row : Row) (column : String) :
    Text.trim (h.cell row column) = h.cell row column := by
  unfold Header.cell
  cases (h.position? column).bind (row[·]?) with
  | none => rfl
  | some text => exact Text.trim_trim text

/-- The row describes a topdown node. -/
def MetricSpec.IsNode (spec : MetricSpec) : Prop :=
  spec.name = SymbolTable.nodeMetricName spec.tableName

instance : DecidablePred MetricSpec.IsNode := fun spec =>
  inferInstanceAs (Decidable (spec.name = SymbolTable.nodeMetricName spec.tableName))

namespace TableReading

variable {t : TableReading} {row : Row}

theorem trim_of_formula? {formula : String} (h : t.formula? row = some formula) :
    Text.trim formula = formula := by
  unfold formula? at h
  have hfind := (Option.filter_eq_some_iff.1 h).1
  have hmem := List.mem_of_find?_eq_some hfind
  obtain ⟨column, _, hcell⟩ := List.mem_map.1 hmem
  rw [← hcell]
  exact t.header.trim_cell row column

/-- What a row yields for the formulas of metrics: it is listed with its formula and writes
it under its table name, or it is not listed and leaves the formulas alone. -/
def ListsFormula (t : TableReading) (symbols : SymbolTable) (row : Row) (c : RowContents) :
    Prop :=
  (c.metric = none ∧ c.symbols.info = symbols.info) ∨
    ∃ spec, c.metric = some spec ∧ t.formula? row = some spec.formula ∧
      c.symbols.info = symbols.info.insert spec.tableName spec.formula

/-- A topdown row is listed as a node and writes its formula as such, or it leaves all
formulas alone. -/
theorem addTopdownRow_cases (t : TableReading) (symbols : SymbolTable) (row : Row)
    (hint : Option String) :
    let contents := t.addTopdownRow symbols row hint
    (contents.metric = none ∧ contents.symbols.info = symbols.info ∧
        contents.symbols.nodes = symbols.nodes) ∨
      ∃ spec, contents.metric = some spec ∧ spec.IsNode ∧ t.formula? row = some spec.formula ∧
        contents.symbols.info = symbols.info.insert spec.tableName spec.formula ∧
        contents.symbols.nodes = symbols.nodes.insert spec.tableName spec.formula := by
  unfold addTopdownRow
  cases t.levelAndName? row with
  | none => exact .inl ⟨rfl, rfl, rfl⟩
  | some found =>
    obtain ⟨level, name⟩ := found
    dsimp only
    cases enter? symbols.ancestors level name with
    | none => exact .inl ⟨rfl, rfl, rfl⟩
    | some ancestors =>
      dsimp only
      cases t.formula? row with
      | none => exact .inl ⟨rfl, rfl, rfl⟩
      | some formula =>
        refine .inr ⟨_, rfl, rfl, rfl, ?_⟩
        dsimp only
        -- The edge to a parent is kept beside the formulas.
        cases (if 1 < level then ancestors[level - 2]? else none) with
        | none => exact ⟨rfl, rfl⟩
        | some parent => exact ⟨rfl, rfl⟩

theorem addTopdownRow_listsFormula (t : TableReading) (symbols : SymbolTable) (row : Row)
    (hint : Option String) :
    t.ListsFormula symbols row (t.addTopdownRow symbols row hint) := by
  rcases t.addTopdownRow_cases symbols row hint with
    ⟨hmetric, hinfo, _⟩ | ⟨spec, hmetric, _, hformula, hinfo, _⟩
  · exact .inl ⟨hmetric, hinfo⟩
  · exact .inr ⟨spec, hmetric, hformula, hinfo⟩

theorem addInfoRow_listsFormula (t : TableReading) (symbols : SymbolTable) (row : Row)
    (hint : Option String) :
    t.ListsFormula symbols row (t.addInfoRow symbols row hint) := by
  unfold addInfoRow
  cases hformula : t.formula? row with
  | none => exact .inl ⟨rfl, rfl⟩
  | some formula => exact .inr ⟨_, rfl, hformula, rfl⟩

theorem addAuxRow_listsFormula (t : TableReading) (symbols : SymbolTable) (row : Row) :
    t.ListsFormula symbols row (t.addAuxRow symbols row) := by
  unfold addAuxRow
  cases t.formula? row with
  | none => exact .inl ⟨rfl, rfl⟩
  | some formula =>
    dsimp only
    split
    · exact .inl ⟨rfl, rfl⟩
    · exact .inl ⟨rfl, rfl⟩

theorem ListsFormula.with_diagnostics {symbols : SymbolTable} {c : RowContents}
    (h : t.ListsFormula symbols row c) (findings : List Diagnostic) :
    t.ListsFormula symbols row { c with diagnostics := findings } := by
  unfold ListsFormula at h ⊢
  exact h

theorem addRow_listsFormula (t : TableReading) (symbols : SymbolTable) (row : Row) :
    t.ListsFormula symbols row (t.addRow symbols row) := by
  unfold addRow
  refine ListsFormula.with_diagnostics ?_ _
  cases t.rowKind row with
  | topdown => exact t.addTopdownRow_listsFormula symbols row (t.locate row).1
  | info => exact t.addInfoRow_listsFormula symbols row (t.locate row).1
  | aux => exact t.addAuxRow_listsFormula symbols row
  | other => exact .inl ⟨rfl, rfl⟩

/-- If each listed row of a kind writes its formula under its table name, and no other row
touches what is kept, then what is kept under a name is the formula of the last such row of
the name. -/
theorem getElem?_addRows_of_writes {kept : SymbolTable → Std.TreeMap String String}
    {kind : MetricSpec → Bool}
    (hrow : ∀ symbols row, let contents := t.addRow symbols row
      ((∀ spec, contents.metric = some spec → kind spec = false) ∧
          kept contents.symbols = kept symbols) ∨
        ∃ spec, contents.metric = some spec ∧ kind spec = true ∧
          kept contents.symbols = (kept symbols).insert spec.tableName spec.formula)
    (symbols : SymbolTable) (rows : List Row) (name : String) :
    (kept (t.addRows symbols rows).symbols)[name]? =
      (((t.addRows symbols rows).metrics.findRev? fun spec =>
        kind spec && spec.tableName == name).map (·.formula)).or (kept symbols)[name]? := by
  induction rows generalizing symbols with
  | nil => rfl
  | cons row rows ih =>
    simp only [addRows]
    rw [ih]
    rcases hrow symbols row with ⟨hother, hkept⟩ | ⟨spec, hmetric, hkind, hkept⟩
    · rw [hkept]
      cases hmetric : (t.addRow symbols row).metric with
      | none => rfl
      | some spec =>
        rw [Option.toList_some, List.singleton_append, List.findRev?, hother spec hmetric]
        cases (t.addRows (t.addRow symbols row).symbols rows).metrics.findRev?
            (fun spec => kind spec && spec.tableName == name) <;> rfl
    · rw [hmetric, hkept, Option.toList_some, List.singleton_append, List.findRev?]
      cases (t.addRows (t.addRow symbols row).symbols rows).metrics.findRev?
          (fun spec => kind spec && spec.tableName == name) with
      | some last => rfl
      | none =>
        rw [Std.TreeMap.getElem?_insert]
        by_cases hname : spec.tableName = name
        · simp [hkind, hname]
        · simp [hname]

/-- The formula kept under a name is that of the last listed row of the name. -/
theorem getElem?_info_addRows (t : TableReading) (symbols : SymbolTable) (rows : List Row)
    (name : String) :
    (t.addRows symbols rows).symbols.info[name]? =
      (((t.addRows symbols rows).metrics.findRev? (·.tableName == name)).map (·.formula)).or
        symbols.info[name]? := by
  refine @getElem?_addRows_of_writes t SymbolTable.info (fun _ => true) ?_ symbols rows name
  intro symbols row
  rcases t.addRow_listsFormula symbols row with ⟨hmetric, hinfo⟩ | ⟨spec, hmetric, _, hinfo⟩
  · refine .inl ⟨?_, hinfo⟩
    intro spec hspec
    exact absurd (hmetric.symm.trans hspec) nofun
  · exact .inr ⟨spec, hmetric, rfl, hinfo⟩

theorem trim_formula_of_mem {symbols : SymbolTable} {rows : List Row} {spec : MetricSpec}
    (h : spec ∈ (t.addRows symbols rows).metrics) : Text.trim spec.formula = spec.formula := by
  induction rows generalizing symbols with
  | nil => simp [addRows] at h
  | cons row rows ih =>
    simp only [addRows, List.mem_append, Option.mem_toList] at h
    rcases h with hfirst | hrest
    · rcases t.addRow_listsFormula symbols row with ⟨hmetric, _⟩ | ⟨listed, hmetric, hformula, _⟩
      · simp [hmetric] at hfirst
      · obtain rfl : listed = spec := by simpa [hmetric] using hfirst
        exact trim_of_formula? hformula
    · exact ih hrest

end TableReading

/-! ## Tables -/

/-- A table that has been read holds what the rows behind its header yield. -/
theorem exists_reading_of_buildTable {text arch : String} {column : FormulaColumn}
    {rules : Rules} {built : BuiltTable} (h : buildTable text arch column rules = .ok built) :
    ∃ header rows search, splitHeader? (Csv.rows text) = some (header, rows) ∧
      chooseColumn header column rules = .ok (built.column, search) ∧
      built.contents = TableReading.addRows ⟨header, search, arch, rules⟩ {} rows := by
  unfold buildTable at h
  cases hsplit : splitHeader? (Csv.rows text) with
  | none => simp [hsplit, throw, throwThe, MonadExceptOf.throw] at h
  | some parts =>
    obtain ⟨header, rows⟩ := parts
    simp only [hsplit, Header.require, bind, Except.bind] at h
    split at h
    · cases h
    split at h
    · cases h
    split at h
    · cases h
    · rename_i hcolumn
      cases h
      exact ⟨header, rows, _, rfl, hcolumn, rfl⟩

theorem buildTable_of_split {text arch : String} {column : FormulaColumn} {rules : Rules}
    {header : Header} {rows : List Row} {name : String} {search : List String}
    (hsplit : splitHeader? (Csv.rows text) = some (header, rows))
    (hfirst : header.has Header.firstLevelColumn = true)
    (hdescription : header.has Header.descriptionColumn = true)
    (hcolumn : chooseColumn header column rules = .ok (name, search)) :
    buildTable text arch column rules =
      .ok ⟨name, TableReading.addRows ⟨header, search, arch, rules⟩ {} rows⟩ := by
  unfold buildTable
  rw [hsplit]
  simp [Header.require, hfirst, hdescription, hcolumn, bind, Except.bind, pure, Except.pure]

theorem exists_of_buildTable {text arch : String} {column : FormulaColumn} {rules : Rules}
    {built : BuiltTable} (h : buildTable text arch column rules = .ok built) :
    ∃ (t : TableReading) (rows : List Row), built.contents = t.addRows {} rows := by
  obtain ⟨_, rows, _, _, _, hcontents⟩ := exists_reading_of_buildTable h
  exact ⟨_, rows, hcontents⟩

section

variable {text arch : String} {column : FormulaColumn} {rules : Rules} {built : BuiltTable}

theorem getElem?_info_of_buildTable (h : buildTable text arch column rules = .ok built)
    (name : String) :
    built.contents.symbols.info[name]? =
      (built.contents.metrics.findRev? (·.tableName == name)).map (·.formula) := by
  obtain ⟨t, rows, hcontents⟩ := exists_of_buildTable h
  rw [hcontents]
  simpa using t.getElem?_info_addRows {} rows name

theorem trim_formula_of_buildTable (h : buildTable text arch column rules = .ok built)
    {spec : MetricSpec} (hspec : spec ∈ built.contents.metrics) :
    Text.trim spec.formula = spec.formula := by
  obtain ⟨t, rows, hcontents⟩ := exists_of_buildTable h
  rw [hcontents] at hspec
  exact TableReading.trim_formula_of_mem hspec

end

end TopdownMetrics

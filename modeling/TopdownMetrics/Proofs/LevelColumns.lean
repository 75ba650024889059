import Mathlib.Data.List.Basic
import TopdownMetrics.Proofs.Hierarchy

/-!
# The level of a topdown row

A topdown row names its metric in one of the level columns, and the number of the column is the
level of the metric.  A row that fills several of them is placed by the one that comes first in
the header, whatever its number.  So its level is that of the deepest filled column exactly if no
filled column behind the first one has a higher number; and it is for every row exactly if the
header lists its level columns from the deepest one upwards.
-/

namespace TopdownMetrics

namespace Header

variable {h : Header} {row : Row} {column other : String}

/-! ## The level columns that a row fills -/

structure Fills (h : Header) (row : Row) (column : String) : Prop where
  mem : column ∈ h.levels
  filled : h.cell row column ≠ ""

/-- No other level column that the row fills has a higher number. -/
structure IsDeepest (h : Header) (row : Row) (column : String) : Prop extends
    h.Fills row column where
  le : ∀ other, h.Fills row other → levelNumber other ≤ levelNumber column

/-- No other level column that the row fills stands in front of it in the header. -/
structure IsFirst (h : Header) (row : Row) (column : String) : Prop extends
    h.Fills row column where
  le : ∀ other, h.Fills row other → h.levels.idxOf column ≤ h.levels.idxOf other

/-- Of two level columns the one that comes first has no lower number. -/
def DeeperFirst (h : Header) : Prop :=
  ∀ column ∈ h.levels, ∀ other ∈ h.levels,
    h.levels.idxOf column < h.levels.idxOf other → levelNumber other ≤ levelNumber column

theorem IsFirst.unique {first : String} (hfirst : h.IsFirst row first)
    (hcolumn : h.IsFirst row column) : first = column := by
  have hindex := le_antisymm (hfirst.le column hcolumn.toFills) (hcolumn.le first hfirst.toFills)
  exact (List.idxOf_inj hfirst.mem).1 hindex

theorem isFirst_of_find? (hfind : h.levels.find? (h.cell row · != "") = some column) :
    h.IsFirst row column := by
  obtain ⟨hfilled, before, behind, hlevels, hbefore⟩ := List.find?_eq_some_iff_append.1 hfind
  have hskipped (other : String) (hother : h.cell row other ≠ "") : other ∉ before := by
    intro hmem
    exact hother (by simpa using hbefore other hmem)
  have hcell : h.cell row column ≠ "" := by simpa using hfilled
  refine ⟨⟨List.mem_of_find?_eq_some hfind, hcell⟩, fun other hother => ?_⟩
  rw [hlevels, List.idxOf_append_of_notMem (hskipped column hcell),
    List.idxOf_append_of_notMem (hskipped other hother.filled), List.idxOf_cons_self]
  omega

theorem exists_isFirst (hfills : h.Fills row column) :
    ∃ first, h.levels.find? (h.cell row · != "") = some first ∧ h.IsFirst row first := by
  have hsome : (h.levels.find? (h.cell row · != "")).isSome = true :=
    List.find?_isSome.2 ⟨column, hfills.mem, by simpa using hfills.filled⟩
  obtain ⟨first, hfirst⟩ := Option.isSome_iff_exists.1 hsome
  exact ⟨first, hfirst, isFirst_of_find? hfirst⟩

theorem find?_levels_eq_some_iff :
    h.levels.find? (h.cell row · != "") = some column ↔ h.IsFirst row column := by
  refine ⟨isFirst_of_find?, fun hcolumn => ?_⟩
  obtain ⟨first, hfind, hfirst⟩ := exists_isFirst hcolumn.toFills
  rw [hfind, hfirst.unique hcolumn]

/-! ## Rows that fill given columns -/

theorem exists_position? (hcolumn : column ∈ h.columns) :
    ∃ i, h.position? column = some i ∧ h.columns[i]? = some column := by
  obtain ⟨k, hk⟩ := List.mem_iff_getElem?.1 hcolumn
  have hentry : (column, k) ∈ h.columns.zipIdx.reverse :=
    List.mem_reverse.2 (List.mem_zipIdx_iff_getElem?.2 hk)
  cases hposition : h.position? column with
  | none =>
    have hne := List.lookup_eq_none_iff.1 hposition _ hentry
    simp at hne
  | some i =>
    obtain ⟨front, rear, hsplit, -⟩ := List.lookup_eq_some_iff.1 hposition
    have hmem : (column, i) ∈ h.columns.zipIdx := by
      rw [← List.mem_reverse, hsplit]
      simp
    exact ⟨i, rfl, List.mem_zipIdx_iff_getElem?.1 hmem⟩

/-- The row whose cells are given by the names of their columns. -/
theorem cell_map (hcolumn : column ∈ h.columns) (cell : String → String) :
    h.cell (h.columns.map cell) column = Text.trim (cell column) := by
  obtain ⟨i, hposition, hat⟩ := exists_position? hcolumn
  unfold Header.cell
  rw [hposition, Option.bind_some, List.getElem?_map, hat, Option.map_some]

def markedRow (h : Header) (column other : String) : Row :=
  h.columns.map fun c => if c = column ∨ c = other then "x" else ""

theorem fills_markedRow_iff {c : String} (hcolumn : column ∈ h.levels) (hother : other ∈ h.levels) :
    h.Fills (h.markedRow column other) c ↔ c = column ∨ c = other := by
  constructor
  · intro hfills
    have hfilled := hfills.filled
    rw [markedRow, cell_map (List.mem_of_mem_filter hfills.mem)] at hfilled
    by_contra hneither
    rw [if_neg hneither] at hfilled
    exact hfilled rfl
  · intro heither
    have hmem : c ∈ h.levels := by
      rcases heither with rfl | rfl
      · exact hcolumn
      · exact hother
    refine ⟨hmem, ?_⟩
    rw [markedRow, cell_map (List.mem_of_mem_filter hmem), if_pos heither]
    decide

end Header

namespace TableReading

open Header

variable {t : TableReading} {symbols : SymbolTable} {row : Row} {column : String}

/-! ## The level and the name of a row -/

/-- The row is read as one of the given level and name: it is skipped as an orphan of that level,
or it enters the chain of ancestors there. -/
inductive EntersAs (t : TableReading) (symbols : SymbolTable) (row : Row) (level : Nat)
    (name : String) : Prop
  | orphan (deep : symbols.ancestors.length + 1 < level)
      (symbols_eq : (t.addRow symbols row).symbols = symbols)
      (metric_eq : (t.addRow symbols row).metric = none)
      (warning : orphanWarning level name ∈ (t.addRow symbols row).diagnostics)
  | accepted (near : level ≤ symbols.ancestors.length + 1)
      (accepts : t.Accepts symbols row level name (t.addRow symbols row))

theorem entersAs_of_topdown? {level : Nat} {name : String}
    (htopdown : t.topdown? row = some (level, name)) : t.EntersAs symbols row level name := by
  by_cases hlevel : level ≤ symbols.ancestors.length + 1
  · exact .accepted hlevel (addRow_accepts htopdown hlevel)
  · have hdeep := Nat.lt_of_not_le hlevel
    have horphan := addRow_of_orphan htopdown hdeep
    exact .orphan hdeep (by rw [horphan]) (by rw [horphan]) (by simp [horphan])

/-- The level and the name are those of a deepest column that the row fills. -/
def NamesDeepest (t : TableReading) (row : Row) : Prop :=
  ∃ column, t.header.IsDeepest row column ∧
    t.levelAndName? row = some (levelNumber column, t.header.cell row column)

theorem levelAndName?_eq (t : TableReading) (row : Row) :
    t.levelAndName? row = (t.header.levels.find? (t.header.cell row · != "")).map
      fun column => (levelNumber column, t.header.cell row column) := by
  unfold levelAndName?
  rw [List.find?_map]
  rfl

theorem levelAndName?_of_isFirst (hfirst : t.header.IsFirst row column) :
    t.levelAndName? row = some (levelNumber column, t.header.cell row column) := by
  rw [levelAndName?_eq, find?_levels_eq_some_iff.2 hfirst, Option.map_some]

theorem levelAndName?_eq_none_iff :
    t.levelAndName? row = none ↔ ∀ column, ¬ t.header.Fills row column := by
  rw [levelAndName?_eq, Option.map_eq_none_iff, List.find?_eq_none]
  constructor
  · intro hempty column hfills
    exact hempty column hfills.mem (by simpa using hfills.filled)
  · intro hempty column hmem hfilled
    exact hempty column ⟨hmem, by simpa using hfilled⟩

theorem namesDeepest_iff (hfirst : t.header.IsFirst row column) :
    t.NamesDeepest row ↔ t.header.IsDeepest row column := by
  have hfound := levelAndName?_of_isFirst hfirst
  constructor
  · rintro ⟨deepest, hdeepest, hnamed⟩
    rw [hfound] at hnamed
    have hlevel : levelNumber column = levelNumber deepest :=
      congrArg Prod.fst (Option.some.inj hnamed)
    refine ⟨hfirst.toFills, fun other hother => ?_⟩
    rw [hlevel]
    exact hdeepest.le other hother
  · intro hdeepest
    exact ⟨column, hdeepest, hfound⟩

/-- Every row is placed by its deepest column if and only if deeper columns come first. -/
theorem forall_namesDeepest_iff (t : TableReading) :
    (∀ row column, t.header.Fills row column → t.NamesDeepest row) ↔ t.header.DeeperFirst := by
  constructor
  · intro hall column hcolumn other hother hindex
    -- A row that fills these two columns only.
    have hfills (c : String) := @fills_markedRow_iff t.header column other c hcolumn hother
    have hfirst : t.header.IsFirst (t.header.markedRow column other) column := by
      refine ⟨(hfills column).2 (.inl rfl), fun c hc => ?_⟩
      rcases (hfills c).1 hc with rfl | rfl
      · exact le_rfl
      · exact hindex.le
    have hdeepest := (namesDeepest_iff hfirst).1 (hall _ column hfirst.toFills)
    exact hdeepest.le other ((hfills other).2 (.inr rfl))
  · intro hdeeper row column hcolumn
    obtain ⟨first, -, hfirst⟩ := exists_isFirst hcolumn
    refine (namesDeepest_iff hfirst).2 ⟨hfirst.toFills, fun other hother => ?_⟩
    rcases (hfirst.le other hother).lt_or_eq with hindex | hindex
    · exact hdeeper first hfirst.mem other hother.mem hindex
    · rw [(List.idxOf_inj hfirst.mem).1 hindex]

/-- A topdown row is read with the number and the cell of the first level column that it fills.
That is the deepest one if and only if no column that the row fills has a higher number; and it
is for all rows if and only if the header has deeper columns in front of higher ones. -/
theorem level_of_topdown_row_is_deepest_iff (t : TableReading) (symbols : SymbolTable) {row : Row}
    (hkind : t.rowKind row = .topdown) :
    (((∀ column, ¬ t.header.Fills row column) ∧ t.levelAndName? row = none ∧
        (t.addRow symbols row).symbols = symbols ∧ (t.addRow symbols row).metric = none) ∨
      ∃ column, t.header.IsFirst row column ∧
        t.levelAndName? row = some (levelNumber column, t.header.cell row column) ∧
        t.EntersAs symbols row (levelNumber column) (t.header.cell row column) ∧
        (t.NamesDeepest row ↔
          ∀ other, t.header.Fills row other → levelNumber other ≤ levelNumber column)) ∧
      ((∀ row column, t.header.Fills row column → t.NamesDeepest row) ↔
        t.header.DeeperFirst) := by
  refine ⟨?_, t.forall_namesDeepest_iff⟩
  cases hfind : t.header.levels.find? (t.header.cell row · != "") with
  | none =>
    have hnone : t.levelAndName? row = none := by rw [levelAndName?_eq, hfind, Option.map_none]
    refine .inl ⟨levelAndName?_eq_none_iff.1 hnone, hnone, ?_⟩
    simp [addRow, hkind, addTopdownRow, hnone]
  | some column =>
    have hfirst := isFirst_of_find? hfind
    have hfound := levelAndName?_of_isFirst hfirst
    have htopdown := topdown?_eq_some_iff.2 ⟨hkind, hfound⟩
    refine .inr ⟨column, hfirst, hfound, entersAs_of_topdown? htopdown, ?_⟩
    rw [namesDeepest_iff hfirst]
    exact ⟨fun hdeepest => hdeepest.le, fun hle => ⟨hfirst.toFills, hle⟩⟩

/-! ### A row that fills two levels -/

/-- A header with the deeper column in front. -/
def deeperFirstReading : TableReading :=
  ⟨⟨["Key", "Level2", "Level1", "Metric Description", "SKL"]⟩, ["SKL"], "SKL", plainRules⟩

def latencyFirstRow : Row :=
  ["FE", "Fetch_Latency", "Frontend_Bound", "Latency stalls", "STALLS"]

theorem namesDeepest_deeperFirstReading :
    deeperFirstReading.rowKind latencyFirstRow = .topdown ∧
      deeperFirstReading.header.DeeperFirst ∧
      deeperFirstReading.NamesDeepest latencyFirstRow ∧
      deeperFirstReading.levelAndName? latencyFirstRow = some (2, "Fetch_Latency") := by
  have hkind : deeperFirstReading.rowKind latencyFirstRow = .topdown := by decide +kernel
  have hdeeper : deeperFirstReading.header.DeeperFirst := by
    unfold DeeperFirst
    decide +kernel
  have hfills : deeperFirstReading.header.Fills latencyFirstRow "Level1" :=
    ⟨by decide +kernel, by decide +kernel⟩
  have hnames :=
    (level_of_topdown_row_is_deepest_iff deeperFirstReading {} hkind).2.2 hdeeper _ _ hfills
  exact ⟨hkind, hdeeper, hnames, by decide +kernel⟩

/-- The second row fills the columns of both levels. -/
def latencyText : String :=
  "Key,Level1,Level2,Metric Description,SKL\nFE,Frontend_Bound,,Frontend stalls,IDLE\n" ++
    "FE,Frontend_Bound,Fetch_Latency,Latency stalls,STALLS\n"

def latencyReading : TableReading :=
  ⟨⟨["Key", "Level1", "Level2", "Metric Description", "SKL"]⟩, ["SKL"], "SKL", plainRules⟩

def latencyRow : Row :=
  ["FE", "Frontend_Bound", "Fetch_Latency", "Latency stalls", "STALLS"]

def latencyTable : BuiltTable :=
  ⟨"SKL", latencyReading.addRows {}
    [["FE", "Frontend_Bound", "", "Frontend stalls", "IDLE"], latencyRow]⟩

/-- The row of the second level is read as another one of the first. -/
theorem not_namesDeepest_latencyRow :
    buildTable latencyText "SKL" ⟨"SKL", [], none⟩ plainRules = .ok latencyTable ∧
      latencyTable.contents.metrics.map (·.groups) = [some "TopdownL1", some "TopdownL1"] ∧
      latencyReading.rowKind latencyRow = .topdown ∧
      latencyReading.header.IsDeepest latencyRow "Level2" ∧
      latencyReading.levelAndName? latencyRow = some (1, "Frontend_Bound") ∧
      ¬ latencyReading.NamesDeepest latencyRow := by
  have hfirst : latencyReading.header.IsFirst latencyRow "Level1" :=
    find?_levels_eq_some_iff.1 (by decide +kernel)
  have hsecond : latencyReading.header.Fills latencyRow "Level2" :=
    ⟨by decide +kernel, by decide +kernel⟩
  have hlevels : latencyReading.header.levels = ["Level1", "Level2"] := by decide +kernel
  refine ⟨buildTable_of_split (by cbv) rfl rfl rfl, by decide +kernel, by decide +kernel,
    ⟨hsecond, ?_⟩, by decide +kernel, ?_⟩
  · intro other hother
    have hmem := hother.mem
    rw [hlevels] at hmem
    rcases List.mem_pair.1 hmem with rfl | rfl
    · decide +kernel
    · exact le_rfl
  · intro hnames
    have hle := ((namesDeepest_iff hfirst).1 hnames).le "Level2" hsecond
    exact absurd hle (by decide +kernel)

end TableReading

end TopdownMetrics

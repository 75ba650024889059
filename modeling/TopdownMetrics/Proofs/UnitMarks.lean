import TopdownMetrics.Proofs.SharedLongnames
import TopdownMetrics.Proofs.SourcedRecords

/-!
# Units and event files

The records of a model with efficient cores are marked with the unit that they are counted
on.  The tables take this mark as soon as there are events of efficient cores, with or without
events of the other ones.  So the mark of the main table names a unit that has an event file
exactly if no row of the mapfile gives events of efficient cores alone.  Otherwise there are
sources from which a record with a wrong mark is made.
-/

namespace TopdownMetrics

open Formula

/-- The unit of a record, if it is one of a processor with two kinds of cores, has an event
file. -/
structure Metric.NamesUnitOf (r : Metric) (m : Model) : Prop where
  core : r.unit = some "cpu_core" → m.hasFile "core" = true
  atom : r.unit = some "cpu_atom" → m.hasFile "atom" = true

/-- Under some rules, what is read from some sources for the model gives it the record. -/
def Model.HasRecord (m : Model) (r : Metric) : Prop :=
  ∃ (rules : Rules) (s : Sources), m.HasRecordIn rules s r

/-- Some rules, events, extra metrics and tables give the model the record, no matter whether
any sources hold them. -/
def Model.MayHaveRecord (m : Model) (r : Metric) : Prop :=
  ∃ (rules : Rules) (catalog : EventCatalog) (extra : List ExtraMetric)
    (tables : List (MetricTable × String)), tables.map (·.1) = m.metricTables ∧
      r ∈ modelMetrics rules m catalog extra tables

theorem Model.HasRecord.mayHaveRecord {m : Model} {r : Metric} (h : m.HasRecord r) :
    m.MayHaveRecord r := by
  obtain ⟨rules, s, events, tables, -, htables, hr⟩ := h
  exact ⟨rules, _, _, tables, Generation.map_fst_of_readTables htables, hr⟩

/-! ## The units of records -/

section

variable {rules : Rules} {m : Model} {catalog : EventCatalog} {extra : List ExtraMetric}
  {tables : List (MetricTable × String)} {r : Metric}

theorem unit_of_mem_idleStateMetrics {arch : String} (hr : r ∈ idleStateMetrics rules arch) :
    r.unit = none := by
  unfold idleStateMetrics at hr
  cases hstates : rules.idleStatesFor? arch with
  | none => simp [hstates] at hr
  | some states =>
    simp only [hstates, List.mem_append, List.mem_map] at hr
    rcases hr with ⟨state, _, rfl⟩ | ⟨state, _, rfl⟩
    · rfl
    · rfl

/-- A record of a model is a record of one of its tables or has no unit. -/
theorem exists_table_or_unit_of_mem_modelMetrics
    (hr : r ∈ modelMetrics rules m catalog extra tables) :
    (∃ table ∈ tables, r ∈ tableMetrics rules m catalog extra table.1 table.2) ∨
      r.unit = none := by
  unfold modelMetrics at hr
  dsimp only at hr
  split at hr
  · cases hr
  · rcases List.mem_append.1 hr with hr | hr
    · exact .inl (List.mem_flatMap.1 hr)
    · exact .inr (unit_of_mem_idleStateMetrics hr)

theorem mem_modelMetrics_of_mem_tableMetrics {table : MetricTable × String}
    (htable : table ∈ tables) (hr : r ∈ tableMetrics rules m catalog extra table.1 table.2) :
    r ∈ modelMetrics rules m catalog extra tables := by
  have hmem : r ∈ tables.flatMap fun table =>
      tableMetrics rules m catalog extra table.1 table.2 := List.mem_flatMap.2 ⟨table, htable, hr⟩
  unfold modelMetrics
  dsimp only
  rw [if_neg fun hempty => List.ne_nil_of_mem hmem (List.isEmpty_iff.1 hempty)]
  exact List.mem_append_left _ hmem

theorem unitMark_of_mem_metricTables {table : MetricTable} (htable : table ∈ m.metricTables) :
    unitMark table.pmu = none ∨ m.hasFile "atom" = true := by
  unfold Model.metricTables at htable
  obtain ⟨⟨file, pmu⟩, _, hurl⟩ := List.mem_filterMap.1 htable
  obtain ⟨url, _, rfl⟩ := Option.map_eq_some_iff.1 hurl
  cases hatom : m.hasFile "atom" with
  | false => exact .inl rfl
  | true => exact .inr rfl

/-- Only models with events of efficient cores have records with a unit. -/
theorem Model.MayHaveRecord.unit_eq_none_or (h : m.MayHaveRecord r) :
    r.unit = none ∨ m.hasFile "atom" = true := by
  obtain ⟨rules, catalog, extra, tables, htables, hr⟩ := h
  rcases exists_table_or_unit_of_mem_modelMetrics hr with ⟨table, htable, hr⟩ | hnone
  · have hmem : table.1 ∈ m.metricTables := htables ▸ List.mem_map_of_mem htable
    rcases unit_of_mem_tableMetrics hr with hunit | ⟨-, hnone⟩
    · exact (unitMark_of_mem_metricTables hmem).imp_left hunit.trans
    · exact .inl hnone
  · exact .inl hnone

end

/-! ## A record of the main table -/

/-- A row with a constant formula in a main table that is counted on a unit has a record with
this unit. -/
theorem exists_record_of_mainTable {rules : Rules} {m : Model} {column : FormulaColumn}
    {url text : String} {texts : String → String} {built : BuiltTable} {spec : MetricSpec}
    (htable : ⟨.metricTable, url, "cpu_core"⟩ ∈ m.metricTables) (htext : texts url = text)
    (hcolumn : rules.columnFor? m.shortname = some column)
    (hbuilt : buildTable text m.shortname column rules = .ok built)
    (hspec : spec ∈ built.contents.metrics) (hformula : spec.formula = "1")
    (hkeeps : rules.KeepsConstant m.shortname spec.name) (hname : spec.name ≠ uncoreFrequencyName)
    (catalog : EventCatalog) (extra : List ExtraMetric) :
    ∃ r ∈ modelMetrics rules m catalog extra
        (m.metricTables.map fun table => (table, texts table.url)),
      r.name = spec.name ∧ r.unit = some "cpu_core" := by
  obtain ⟨r, hr, hrecord⟩ := exists_record_of_constantRow ⟨rules, catalog, m.shortname, "cpu_core"⟩
    extra hcolumn hbuilt hspec hformula hkeeps
  have hmem : r ∈ tableMetrics rules m catalog extra ⟨.metricTable, url, "cpu_core"⟩
      (texts url) := by
    rw [htext]
    exact hr
  have hunit := (unit_of_mem_tableMetrics hmem).resolve_right
    fun huncore => hname (hrecord.symm.trans huncore.1)
  exact ⟨r, mem_modelMetrics_of_mem_tableMetrics (List.mem_map_of_mem htable) hmem, hrecord,
    hunit⟩

/-- A text that holds no event and one metric, whose formula is constant. -/
def constantText : String :=
  String.join
    ["[\x7b\"\":[\n",
      "\"Key\",\"Level1\",\"Metric Description\",\"F\",\n",
      "\"Info\",\"ONE\",\"One\",\"1\",\n",
      "\"\"]\x7d]"]

def constantHeader : Header :=
  ⟨["Key", "Level1", "Metric Description", "F", ""]⟩

/-- Rules under which the formulas of an architecture are in the column `F`. -/
def constantRules (arch : String) : Rules :=
  { plainRules with
    formulaColumns := [⟨"F", [], none⟩]
    archs := [(arch, { ArchRules.undeclared with formulaColumn := some "F" })] }

theorem arch_constantRules (arch : String) :
    (constantRules arch).arch arch = { ArchRules.undeclared with formulaColumn := some "F" } := by
  simp [Rules.arch, constantRules]

theorem columnFor?_constantRules (arch : String) :
    (constantRules arch).columnFor? arch = some ⟨"F", [], none⟩ := by
  unfold Rules.columnFor?
  rw [arch_constantRules]
  rfl

theorem keepsConstant_constantRules (arch name : String) :
    (constantRules arch).KeepsConstant arch name := by
  constructor
  case ignored => exact List.not_mem_nil
  case dropped =>
    rw [arch_constantRules]
    exact List.not_mem_nil
  case forced =>
    rw [arch_constantRules]
    rfl
  case fixups =>
    unfold Rules.fixupsFor
    rw [arch_constantRules]
    rfl
  case slots =>
    show Text.contains "1" "topdown" = false
    decide

def constantReading (arch : String) : TableReading :=
  ⟨constantHeader, ["F"], arch, constantRules arch⟩

def constantRow : Row :=
  ["Info", "ONE", "One", "1", ""]

theorem metric_addRow_constantRow (arch : String) :
    ((constantReading arch).addRow {} constantRow).metric = some (plainRow "ONE" "One" "1") := by
  have hkind : (constantReading arch).rowKind constantRow = .info := by
    have hkey : (constantReading arch).header.cell constantRow Header.keyColumn = "Info" := rfl
    have hprefixes : (constantReading arch).rules.topdownPrefixes = ["FE"] := rfl
    rw [TableReading.rowKind, hkey, hprefixes]
    decide
  have hlocate : (constantReading arch).locate constantRow = (none, []) := rfl
  have hformula : (constantReading arch).formula? constantRow = some "1" := by
    unfold TableReading.formula? constantReading
    rw [arch_constantRules]
    rfl
  unfold TableReading.addRow TableReading.addInfoRow
  rw [hkind, hlocate, hformula]
  rfl

/-- The text can be read as events and as a table. -/
theorem reads_constantText (arch : String) :
    Event.ofFile? constantText = some [] ∧
      ∃ built, buildTable constantText arch ⟨"F", [], none⟩ (constantRules arch) = .ok built ∧
        plainRow "ONE" "One" "1" ∈ built.contents.metrics := by
  have hevents : Event.ofFile? constantText = some [] := by
    decide +kernel
  have hsplit : splitHeader? (Csv.rows constantText) =
      some (constantHeader, [constantRow, ["]\x7d]"]]) := by
    decide +kernel
  have hcolumn : chooseColumn constantHeader ⟨"F", [], none⟩ (constantRules arch) =
      .ok ("F", ["F"]) := rfl
  refine ⟨hevents, _, buildTable_of_split hsplit rfl rfl hcolumn, ?_⟩
  refine List.mem_append_left _ ?_
  show _ ∈ ((constantReading arch).addRow {} constantRow).metric.toList
  rw [metric_addRow_constantRow]
  exact List.mem_singleton_self _

/-- A main table that is counted on a unit can have records. -/
theorem Model.exists_hasRecord_unit {m : Model} {url : String}
    (htable : ⟨.metricTable, url, "cpu_core"⟩ ∈ m.metricTables) :
    ∃ r, m.HasRecord r ∧ r.unit = some "cpu_core" := by
  obtain ⟨hevents, built, hbuilt, hspec⟩ := reads_constantText m.shortname
  have hconstant {url : String} (hurl : url ∈ m.neededUrls) :
      Sources.textAt (m.neededUrls.map (·, constantText)) url = constantText :=
    Sources.textAt_of_mem hurl constantText
  have hfound : m.FoundIn (Sources.ofTexts (m.neededUrls.map (·, constantText)))
      (Sources.textAt (m.neededUrls.map (·, constantText))) := by
    refine foundIn_ofTexts (fun url hurl => by simpa [Function.comp_def] using hurl) ?_
    intro file hfile
    rw [hconstant (List.mem_append_left _ (List.mem_map_of_mem hfile)), hevents]
    rfl
  obtain ⟨r, hr, -, hunit⟩ := hfound.exists_hasRecordIn (exists_record_of_mainTable htable
    (hconstant (List.mem_append_right _ (List.mem_map_of_mem htable)))
    (columnFor?_constantRules m.shortname) hbuilt hspec rfl
    (keepsConstant_constantRules m.shortname "ONE") (by decide))
  exact ⟨r, ⟨_, _, hr⟩, hunit⟩

/-! ## Rows of a mapfile -/

/-- Beside a row for events of the efficient cores of a model there is one for those of its
other cores. -/
def MapfileRow.CoreBesideAtom (rows : List MapfileRow) (shortname : String) : Prop :=
  ∀ row ∈ rows, row.shortname = shortname → row.kind = "atom" →
    ∃ other ∈ rows, other.shortname = shortname ∧ other.kind = "core"

instance (rows : List MapfileRow) : DecidablePred (MapfileRow.CoreBesideAtom rows) :=
  fun shortname => inferInstanceAs (Decidable (∀ row ∈ rows, row.shortname = shortname →
    row.kind = "atom" → ∃ other ∈ rows, other.shortname = shortname ∧ other.kind = "core"))

namespace Model

variable {text base : String} {available : String → Bool} {ms : List Model} {m : Model}
  {rows : List MapfileRow}

theorem kind_ne_of_mem_eventFileKinds {kind : String} (hkind : kind ∈ eventFileKinds)
    (file : AuxiliaryFile) : file.kind ≠ kind := by
  rintro rfl
  revert hkind
  cases file <;> decide

theorem Gathers.hasFile_iff (h : m.Gathers base rows) {kind : String}
    (hkind : kind ∈ eventFileKinds) :
    m.hasFile kind = true ↔ ∃ row ∈ rows, row.shortname = m.shortname ∧ row.kind = kind := by
  unfold hasFile
  rw [Std.TreeMap.contains_iff_mem, Std.TreeMap.mem_iff_isSome_getElem?,
    Option.isSome_iff_exists]
  simp only [h.files kind (kind_ne_of_mem_eventFileKinds hkind)]
  constructor
  · rintro ⟨_, row, hrow, hname, hkind, -⟩
    exact ⟨row, hrow, hname, hkind⟩
  · rintro ⟨row, hrow, hname, hkind⟩
    exact ⟨_, row, hrow, hname, hkind, rfl⟩

theorem gathers_of_mem (h : listOfMapfile text base available = .ok ms) (hm : m ∈ ms) :
    m.Gathers base (MapfileRow.ofText text) := by
  obtain ⟨entries, hgathers, rfl⟩ := exists_entries_of_listOfMapfile h
  obtain ⟨shortname, entry, hentry, rfl⟩ := MapfileEntries.mem_toModels_iff.1 hm
  exact hgathers.model hentry

/-- With events of efficient cores there are both tables, each with a unit of its own. -/
theorem metricTables_of_mem (h : listOfMapfile text base available = .ok ms) (hm : m ∈ ms)
    (hatom : m.hasFile "atom" = true) :
    m.metricTables = [⟨.metricTable, base ++ "/TMA_Metrics-full.csv", "cpu_core"⟩,
      ⟨.efficientMetricTable, base ++ "/E-core_TMA_Metrics.csv", "cpu_atom"⟩] := by
  obtain ⟨entries, -, rfl⟩ := exists_entries_of_listOfMapfile h
  obtain ⟨shortname, entry, -, rfl⟩ := MapfileEntries.mem_toModels_iff.1 hm
  have hkept : (MapfileEntries.tableFiles base available shortname entry).contains "atom" =
      true := by
    have hcontains : (MapfileEntries.filesOf base available shortname entry).contains "atom" =
        true := hatom
    rw [Std.TreeMap.contains_eq_isSome_getElem?, MapfileEntries.filesOf_eq,
      MapfileEntries.getElem?_addIf (by decide), MapfileEntries.getElem?_addIf (by decide)]
      at hcontains
    rw [Std.TreeMap.contains_eq_isSome_getElem?, hcontains]
  have hmain : (MapfileEntries.filesOf base available shortname entry)[
      AuxiliaryFile.metricTable.kind]? = some (base ++ "/TMA_Metrics-full.csv") := by
    rw [MapfileEntries.filesOf_eq, MapfileEntries.getElem?_addIf (by decide),
      MapfileEntries.getElem?_addIf (by decide)]
    exact MapfileEntries.getElem?_addIf_self
  have hefficient : (MapfileEntries.filesOf base available shortname entry)[
      AuxiliaryFile.efficientMetricTable.kind]? = some (base ++ "/E-core_TMA_Metrics.csv") := by
    rw [MapfileEntries.filesOf_eq, MapfileEntries.getElem?_addIf (by decide), hkept]
    exact MapfileEntries.getElem?_addIf_self
  have hfiles : (entries.modelOf base available shortname entry).files =
      MapfileEntries.filesOf base available shortname entry := rfl
  rw [metricTables, hatom, hfiles]
  simp [hmain, hefficient]

theorem metricTable_mem_metricTables (h : listOfMapfile text base available = .ok ms)
    (hm : m ∈ ms) (hatom : m.hasFile "atom" = true) :
    ⟨.metricTable, base ++ "/TMA_Metrics-full.csv", "cpu_core"⟩ ∈ m.metricTables := by
  rw [metricTables_of_mem h hm hatom]
  exact List.mem_cons_self

theorem MayHaveRecord.namesUnitOf {r : Metric} (hr : m.MayHaveRecord r)
    (hmodel : m.Gathers base rows) (hbeside : MapfileRow.CoreBesideAtom rows m.shortname) :
    r.NamesUnitOf m := by
  have hmarked {unit : String} (hunit : r.unit = some unit) : m.hasFile "atom" = true := by
    apply hr.unit_eq_none_or.resolve_left
    simp [hunit]
  constructor
  case atom => exact hmarked
  case core =>
    intro hunit
    obtain ⟨row, hrow, hname, hkind⟩ := (hmodel.hasFile_iff (by decide)).1 (hmarked hunit)
    exact (hmodel.hasFile_iff (by decide)).2 (hbeside row hrow hname hkind)

/-- The units of the records of a model have event files, whatever the sources hold, exactly
if no row gives it events of efficient cores alone.  The same is true of all records that
events, extra metrics and tables could give it, be they in any sources or not. -/
theorem hasRecord_namesUnit_iff (h : listOfMapfile text base available = .ok ms) (hm : m ∈ ms) :
    ((∀ r, m.HasRecord r → r.NamesUnitOf m) ↔
      MapfileRow.CoreBesideAtom (MapfileRow.ofText text) m.shortname) ∧
    ((∀ r, m.MayHaveRecord r → r.NamesUnitOf m) ↔
      MapfileRow.CoreBesideAtom (MapfileRow.ofText text) m.shortname) := by
  have hmodel := gathers_of_mem h hm
  have hbeside (hunits : ∀ r, m.HasRecord r → r.NamesUnitOf m) :
      MapfileRow.CoreBesideAtom (MapfileRow.ofText text) m.shortname := by
    intro row hrow hname hkind
    have hatom := (hmodel.hasFile_iff (by decide)).2 ⟨row, hrow, hname, hkind⟩
    obtain ⟨r, hr, hunit⟩ := exists_hasRecord_unit (metricTable_mem_metricTables h hm hatom)
    exact (hmodel.hasFile_iff (by decide)).1 ((hunits r hr).core hunit)
  constructor
  · exact ⟨hbeside, fun hrows r hr => hr.mayHaveRecord.namesUnitOf hmodel hrows⟩
  · exact ⟨fun hunits => hbeside fun r hr => hunits r hr.mayHaveRecord,
      fun hrows r hr => hr.namesUnitOf hmodel hrows⟩

def headerLine : String :=
  "Family-model,Version,Filename,EventType,Core Type,Native Model ID,Core Role Name\n"

/-- Alder Lake with rows for both kinds of its cores. -/
def hybridText : String :=
  String.join
    [headerLine,
      "6-97,V1,/ADL/events/adl_cove_core.json,hybridcore,,,Core\n",
      "6-97,V1,/ADL/events/adl_mont_core.json,hybridcore,,,Atom\n"]

/-- Alder Lake with efficient cores only. -/
def efficientText : String :=
  String.join [headerLine, "6-BE,V1,/ADL/events/adl_mont_core.json,core,,,\n"]

def coveRow : MapfileRow :=
  ⟨"6-97", "V1", "/ADL/events/adl_cove_core.json", "core"⟩

def montRow : MapfileRow :=
  ⟨"6-97", "V1", "/ADL/events/adl_mont_core.json", "atom"⟩

def efficientRow : MapfileRow :=
  ⟨"6-BE", "V1", "/ADL/events/adl_mont_core.json", "atom"⟩

theorem exists_rows_hybridText : ∃ cells, Csv.rows hybridText = mapfileColumns :: cells ∧
    cells.map MapfileRow.ofCells = [coveRow, montRow] := by
  refine ⟨[["6-97", "V1", "/ADL/events/adl_cove_core.json", "hybridcore", "", "", "Core"],
    ["6-97", "V1", "/ADL/events/adl_mont_core.json", "hybridcore", "", "", "Atom"]], ?_, ?_⟩
  · exact (Csv.rows_join _).trans (by decide +kernel)
  · decide +kernel

/-- The row says `core`, but the efficient cores are listed so. -/
theorem exists_rows_efficientText : ∃ cells, Csv.rows efficientText = mapfileColumns :: cells ∧
    cells.map MapfileRow.ofCells = [efficientRow] := by
  refine ⟨[["6-BE", "V1", "/ADL/events/adl_mont_core.json", "core", "", "", ""]], ?_, ?_⟩
  · exact (Csv.rows_join _).trans (by decide +kernel)
  · decide +kernel

theorem shortname_coveRow : coveRow.shortname = "ADL" := by
  decide

theorem shortname_efficientRow : efficientRow.shortname = "ADL" := by
  decide

theorem consistent_hybrid : MapfileRow.Consistent [coveRow, montRow] := by
  rw [MapfileRow.consistent_iff_pairwise, List.pairwise_pair]
  intro _ _
  have hkind : coveRow.kind ≠ montRow.kind := by decide
  exact ⟨by decide, rfl, fun hsame => absurd hsame hkind⟩

theorem consistent_efficient : MapfileRow.Consistent [efficientRow] := by
  rw [MapfileRow.consistent_iff_pairwise]
  exact List.pairwise_singleton _ _

theorem exists_mem_listOfMapfile (base : String) (available : String → Bool)
    (htext : ∃ cells, Csv.rows text = mapfileColumns :: cells ∧
      cells.map MapfileRow.ofCells = rows)
    (hconsistent : MapfileRow.Consistent rows) (row : MapfileRow) (hrow : row ∈ rows)
    (hknm : row.shortname ≠ "KNM") :
    ∃ ms, listOfMapfile text base available = .ok ms ∧ MapfileRow.ofText text = rows ∧
      ∃ m ∈ ms, m.shortname = row.shortname := by
  obtain ⟨cells, htext, rfl⟩ := htext
  obtain ⟨entries, hentries⟩ := (MapfileEntries.gathers_ofRows base _).1.2 hconsistent
  have hgathers := (MapfileEntries.gathers_ofRows base _).2 entries hentries
  refine ⟨_, (listOfMapfile_eq_ok_iff htext rfl).2 ⟨entries, hentries, rfl⟩, ?_, ?_⟩
  · rw [MapfileRow.ofText, htext]
    rfl
  · obtain ⟨m, hm, hname, -⟩ := hgathers.exists_model_of_mem available hrow hknm
    exact ⟨m, hm, hname⟩

/-- The records of Alder Lake, of which there are some with a unit, name units with event
files. -/
theorem namesUnit_hybridText :
    ∃ ms, listOfMapfile hybridText "/repo" (fun _ => false) = .ok ms ∧
      ∃ m ∈ ms, m.shortname = "ADL" ∧ (∀ r, m.HasRecord r → r.NamesUnitOf m) ∧
        (∀ r, m.MayHaveRecord r → r.NamesUnitOf m) ∧
        ∃ r, m.HasRecord r ∧ r.unit = some "cpu_core" := by
  obtain ⟨ms, hms, htext, m, hm, hname⟩ := exists_mem_listOfMapfile "/repo" (fun _ => false)
    exists_rows_hybridText consistent_hybrid coveRow (by simp) (by simp [shortname_coveRow])
  rw [shortname_coveRow] at hname
  have hbeside : MapfileRow.CoreBesideAtom (MapfileRow.ofText hybridText) m.shortname := by
    intro _ _ _ _
    exact ⟨coveRow, by simp [htext], shortname_coveRow.trans hname.symm, rfl⟩
  have hmodel := gathers_of_mem hms hm
  have hatom : m.hasFile "atom" = true :=
    (hmodel.hasFile_iff (by decide)).2 ⟨montRow, by simp [htext], hname.symm, rfl⟩
  obtain ⟨hrecords, hpossible⟩ := hasRecord_namesUnit_iff hms hm
  exact ⟨ms, hms, m, hm, hname, hrecords.2 hbeside, hpossible.2 hbeside,
    exists_hasRecord_unit (metricTable_mem_metricTables hms hm hatom)⟩

/-- A table with a metric whose formula is constant. -/
def alderText : String :=
  String.join ["Key,Level1,Metric Description,ADL/RPL\n", "Info.Thread,ONE,One,1\n"]

def alderHeader : Header :=
  ⟨["Key", "Level1", "Metric Description", "ADL/RPL"]⟩

def alderColumn : FormulaColumn :=
  (Rules.builtin.columnFor? "ADL").getD default

theorem exists_buildTable_alderText :
    ∃ built, Rules.builtin.columnFor? "ADL" = some alderColumn ∧
      buildTable alderText "ADL" alderColumn .builtin = .ok built ∧
      plainRow "ONE" "One" "1" ∈ built.contents.metrics := by
  have hcolumn : Rules.builtin.columnFor? "ADL" = some alderColumn := rfl
  have hsplit : splitHeader? (Csv.rows alderText) =
      some (alderHeader, [["Info.Thread", "ONE", "One", "1"]]) := by
    decide +kernel
  exact ⟨_, hcolumn, buildTable_of_split hsplit rfl rfl rfl, by decide +kernel⟩

/-- No events, a main table, and a table without metrics. -/
def efficientFiles : List (String × String) :=
  [("/repo/ADL/events/adl_mont_core.json", "[]"),
    ("/repo/TMA_Metrics-full.csv", alderText),
    ("/repo/E-core_TMA_Metrics.csv", "Key,Level1,Metric Description,GRT\n")]

theorem textAt_efficientFiles :
    Sources.textAt efficientFiles "/repo/ADL/events/adl_mont_core.json" = "[]" ∧
      Sources.textAt efficientFiles "/repo/TMA_Metrics-full.csv" = alderText :=
  ⟨rfl, rfl⟩

theorem keepsConstant_builtin : Rules.builtin.KeepsConstant "ADL" "ONE" where
  ignored := by decide
  dropped := by decide
  forced := rfl
  fixups := by decide +kernel
  slots := rfl

theorem eq_of_files_efficientRow {kind url : String} (hmodel : m.Gathers "/repo" [efficientRow])
    (hkind : kind ∈ eventFileKinds) (hurl : m.files[kind]? = some url) :
    kind = "atom" ∧ url = "/repo/ADL/events/adl_mont_core.json" := by
  obtain ⟨row, hrow, -, rfl, rfl⟩ :=
    (hmodel.files kind (kind_ne_of_mem_eventFileKinds hkind) url).1 hurl
  obtain rfl := List.mem_singleton.1 hrow
  exact ⟨rfl, by decide⟩

theorem foundIn_efficientFiles (hmodel : m.Gathers "/repo" [efficientRow])
    (htables : m.metricTables = [⟨.metricTable, "/repo/TMA_Metrics-full.csv", "cpu_core"⟩,
      ⟨.efficientMetricTable, "/repo/E-core_TMA_Metrics.csv", "cpu_atom"⟩]) :
    m.FoundIn (Sources.ofTexts efficientFiles) (Sources.textAt efficientFiles) := by
  have hevents : ∀ file ∈ Generation.eventFiles m,
      file.2 = "/repo/ADL/events/adl_mont_core.json" := by
    intro file hfile
    obtain ⟨kind, hkind, hentry⟩ := List.mem_filterMap.1 hfile
    obtain ⟨url, hurl, rfl⟩ := Option.map_eq_some_iff.1 hentry
    exact (eq_of_files_efficientRow hmodel hkind hurl).2
  apply foundIn_ofTexts
  · intro url hurl
    rcases List.mem_append.1 hurl with hurl | hurl
    · obtain ⟨file, hfile, rfl⟩ := List.mem_map.1 hurl
      rw [hevents file hfile]
      exact List.mem_cons_self
    · rw [htables] at hurl
      exact List.mem_cons_of_mem _ hurl
  · intro file hfile
    rw [hevents file hfile, textAt_efficientFiles.1]
    decide

/-- With the built-in rules and with efficient cores only, a record names the other cores. -/
theorem not_namesUnit_efficientText :
    ∃ ms, listOfMapfile efficientText "/repo"
        (fun url => (Sources.ofTexts efficientFiles).contains (Source.path url)) = .ok ms ∧
      ∃ m ∈ ms, m.hasFile "core" = false ∧
        ∃ r, m.HasRecordIn .builtin (Sources.ofTexts efficientFiles) r ∧ r.name = "ONE" ∧
          r.unit = some "cpu_core" := by
  obtain ⟨ms, hms, htext, m, hm, hname⟩ := exists_mem_listOfMapfile "/repo"
    (fun url => (Sources.ofTexts efficientFiles).contains (Source.path url))
    exists_rows_efficientText consistent_efficient efficientRow (by simp)
    (by simp [shortname_efficientRow])
  have hmodel := gathers_of_mem hms hm
  rw [htext] at hmodel
  have hcore : m.hasFile "core" = false := by
    rw [hasFile, Std.TreeMap.contains_eq_isSome_getElem?]
    cases hurl : m.files["core"]? with
    | none => rfl
    | some url => exact absurd (eq_of_files_efficientRow hmodel (by decide) hurl).1 (by decide)
  have hatom : m.hasFile "atom" = true :=
    (hmodel.hasFile_iff (by decide)).2 ⟨efficientRow, by simp, hname.symm, rfl⟩
  rw [shortname_efficientRow] at hname
  have hfound := foundIn_efficientFiles hmodel (metricTables_of_mem hms hm hatom)
  have hrecord (catalog : EventCatalog) (extra : List ExtraMetric) :
      ∃ r ∈ modelMetrics .builtin m catalog extra (m.metricTables.map fun table =>
          (table, Sources.textAt efficientFiles table.url)),
        r.name = "ONE" ∧ r.unit = some "cpu_core" := by
    have htable := metricTable_mem_metricTables hms hm hatom
    obtain ⟨built, hcolumn, hbuilt, hspec⟩ := exists_buildTable_alderText
    have hkeeps := keepsConstant_builtin
    rw [← hname] at hcolumn hbuilt hkeeps
    exact exists_record_of_mainTable htable textAt_efficientFiles.2 hcolumn hbuilt hspec rfl
      hkeeps (by decide) catalog extra
  obtain ⟨r, hr, hname, hunit⟩ := hfound.exists_hasRecordIn hrecord
  exact ⟨ms, hms, m, hm, hcore, r, hr, hname, hunit⟩

end Model

end TopdownMetrics

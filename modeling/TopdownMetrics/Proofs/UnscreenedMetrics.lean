import TopdownMetrics.Proofs.RowReferences

/-!
# Metrics that only the references are checked of

A row of a table becomes a draft only if its name is neither ignored nor dropped and its
formula parses.  The uncore frequency and the extra metrics join the drafts behind these
checks.  What can keep them from the output is a word that is no known name, or a record of
their name that is there before; neither the lists of the rules nor the parser is asked.
-/

namespace TopdownMetrics

open Formula

/-! ## Rows and other metrics -/

/-- The rules keep metrics of the name from being emitted. -/
def ExtractionContext.Excludes (ctx : ExtractionContext) (name : String) : Prop :=
  name ∈ ctx.rules.ignoredMetrics ∨ name ∈ (ctx.rules.arch ctx.arch).droppedMetrics

def MetricSource.isRow : MetricSource → Bool
  | .row _ => true
  | _ => false

/-- The drafts of a table and its extra metrics that refer to known names only. -/
def acceptedOf (ctx : ExtractionContext) (extra : List ExtraMetric)
    (contents : TableContents) : List Draft :=
  (checkReferences ctx (extractionDrafts ctx extra contents)).1

/-- An accepted draft of a metric that is no row. -/
def Unscreened (ctx : ExtractionContext) (extra : List ExtraMetric) (contents : TableContents)
    (d : Draft) : Prop :=
  d ∈ acceptedOf ctx extra contents ∧
    ∃ s ∈ metricSources contents extra, s.isRow = false ∧
      s.draft ctx (Scope.ofArch contents.symbols ctx.rules ctx.arch ctx.pmu) = .ok d

section

variable {ctx : ExtractionContext} {extra : List ExtraMetric} {contents : TableContents}
  {text : String} {column : FormulaColumn} {built : BuiltTable} {spec : MetricSpec} {d : Draft}

theorem not_excludes_of_draftOfSpec {symbols : SymbolTable}
    (h : draftOfSpec ctx (Scope.ofArch symbols ctx.rules ctx.arch ctx.pmu) spec = .ok d) :
    ¬ ctx.Excludes d.name := by
  obtain ⟨hignored, hdropped, _, _, _, rfl⟩ := draftOfSpec_eq_ok_iff.1 h
  exact not_or.2 ⟨hignored, hdropped⟩

theorem mem_extractionDrafts_of_accepted (hd : d ∈ acceptedOf ctx extra contents) :
    d ∈ extractionDrafts ctx extra contents :=
  (checkReferences_sublist ctx _).subset hd

theorem unscreened_of_excludes (hd : d ∈ acceptedOf ctx extra contents)
    (hexcluded : ctx.Excludes d.name) : Unscreened ctx extra contents d := by
  obtain ⟨s, hs, hdraft⟩ :=
    (mem_extractionDrafts_iff ctx extra contents).1 (mem_extractionDrafts_of_accepted hd)
  cases s with
  | row spec => exact absurd hexcluded (not_excludes_of_draftOfSpec hdraft)
  | uncoreFrequency => exact ⟨hd, _, hs, rfl, hdraft⟩
  | extra m => exact ⟨hd, _, hs, rfl, hdraft⟩

theorem exists_parse_of_parseFragment {scope : Scope} {formula : String} {e : ResolveError}
    (h : scope.parseFragment formula = .error e) : ∃ cause, e = .parse cause := by
  unfold Scope.parseFragment at h
  cases hparse : Formula.parse (Fixup.applyAll scope.fixups formula) with
  | ok tree =>
    rw [hparse] at h
    cases h
  | error cause =>
    rw [hparse] at h
    cases h
    exact ⟨cause, rfl⟩

theorem draftOfSpec_of_parse_error {scope : Scope} {e : ResolveError}
    (hignored : spec.name ∉ ctx.rules.ignoredMetrics)
    (hdropped : spec.name ∉ scope.arch.droppedMetrics)
    (havailable : isUnavailable (scope.recordFormula spec) = false)
    (hparse : scope.parseFragment (scope.recordFormula spec) = .error e) :
    draftOfSpec ctx scope spec = .error (.warning (.invalidFormula spec.name e.message)) := by
  obtain ⟨cause, rfl⟩ := exists_parse_of_parseFragment hparse
  have htext : resolveText scope (scope.recordFormula spec) = .error (.parse cause) := by
    unfold resolveText Scope.resolve
    rw [hparse]
    rfl
  unfold Scope.recordFormula at havailable htext
  simp [draftOfSpec, hignored, hdropped, havailable, htext, resolveFinding]

theorem metrics_eq_of_buildTable (hcolumn : ctx.rules.columnFor? ctx.arch = some column)
    (hbuilt : buildTable text ctx.arch column ctx.rules = .ok built) :
    (extractMetrics ctx extra text).metrics = (Emission.ofDrafts ctx.rules ctx.pmu
      (acceptedOf ctx extra built.contents)).records := by
  rw [extractMetrics_of_buildTable hcolumn hbuilt, extractContents_metrics]
  rfl

/-- A record with a name that the rules exclude is that of a metric that is no row, so there
is no such record exactly if no such metric passes the check of references. -/
theorem excluded_records_are_unscreened
    (hcolumn : ctx.rules.columnFor? ctx.arch = some column)
    (hbuilt : buildTable text ctx.arch column ctx.rules = .ok built) :
    (∀ r ∈ (extractMetrics ctx extra text).metrics, ctx.Excludes r.name →
      ∃ d, Unscreened ctx extra built.contents d ∧ r = d.toMetric ctx.rules ctx.pmu) ∧
    ((∀ r ∈ (extractMetrics ctx extra text).metrics, ¬ ctx.Excludes r.name) ↔
      ∀ d, Unscreened ctx extra built.contents d → ¬ ctx.Excludes d.name) := by
  rw [metrics_eq_of_buildTable hcolumn hbuilt]
  have hrecord : ∀ r ∈ (Emission.ofDrafts ctx.rules ctx.pmu
      (acceptedOf ctx extra built.contents)).records, ctx.Excludes r.name →
      ∃ d, Unscreened ctx extra built.contents d ∧ r = d.toMetric ctx.rules ctx.pmu := by
    intro r hr hexcluded
    obtain ⟨d, hd, rfl⟩ := Emission.exists_draft_of_mem hr
    exact ⟨d, unscreened_of_excludes hd hexcluded, rfl⟩
  refine ⟨hrecord, ?_, ?_⟩
  · intro hnone d hd hexcluded
    obtain ⟨r, hr, hname⟩ := Emission.exists_record_of_mem hd.1
    exact hnone r hr (hname ▸ hexcluded)
  · intro hnone r hr hexcluded
    obtain ⟨d, hd, rfl⟩ := hrecord r hr hexcluded
    exact hnone d hd hexcluded

end

/-! ### An ignored name and an unfinished formula among extra metrics -/

def lenientRules : Rules :=
  { plainRules with keywords := ["duration_time"], ignoredMetrics := ["Time"] }

def lenientContext : ExtractionContext :=
  ⟨lenientRules, {}, "SKL", "cpu"⟩

/-- The formula of the row ends too early. -/
def unfinishedText : String :=
  "Key,Level1,Metric Description,SKL\nInfo.Thread,Half,Half,1 +\n"

def unfinishedTable : BuiltTable :=
  ⟨"SKL", TableReading.addRows
    ⟨⟨["Key", "Level1", "Metric Description", "SKL"]⟩, ["SKL"], "SKL", lenientRules⟩ {}
    [["Info.Thread", "Half", "Half", "1 +"]]⟩

/-- One metric has the name that is ignored, the other the formula of the row. -/
def lenientExtras : List ExtraMetric :=
  [⟨"Time", none, "duration_time", "", none⟩, ⟨"Rest", none, "1 +", "", none⟩]

def timeRecord : Metric :=
  ⟨"", none, "duration_time", none, "Time", none, none, none⟩

def restRecord : Metric :=
  ⟨"", none, "1 +", none, "Rest", none, none, none⟩

theorem buildTable_unfinishedText :
    buildTable unfinishedText "SKL" ⟨"SKL", [], none⟩ lenientRules = .ok unfinishedTable :=
  buildTable_of_split (by decide) rfl rfl rfl

def unfinishedScope : Scope :=
  Scope.ofArch unfinishedTable.contents.symbols lenientRules "SKL" "cpu"

theorem parse_unfinished : Formula.parse "1 +" = .error .unexpectedEnd := by
  cbv

theorem parseFragment_unfinished :
    unfinishedScope.parseFragment "1 +" = .error (.parse .unexpectedEnd) := by
  show (Formula.parse "1 +").mapError ResolveError.parse = _
  rw [parse_unfinished]
  rfl

theorem extractionDrafts_unfinished :
    extractionDrafts lenientContext lenientExtras unfinishedTable.contents =
      lenientExtras.map ExtraMetric.draft := by
  have hrows : unfinishedTable.contents.metrics = [plainRow "Half" "Half" "1 +"] :=
    rfl
  have hrow : draftOfSpec lenientContext unfinishedScope (plainRow "Half" "Half" "1 +") =
      .error (.warning (.invalidFormula "Half" (ResolveError.parse .unexpectedEnd).message)) :=
    draftOfSpec_of_parse_error (by decide) List.not_mem_nil (by decide) parseFragment_unfinished
  have huncore : uncoreFrequency? unfinishedScope = none :=
    uncoreFrequency?_eq_none rfl
  show (partitionDrafts (unfinishedTable.contents.metrics.map
    (draftOfSpec lenientContext unfinishedScope) ++
      (uncoreFrequency? unfinishedScope).toList)).1 ++ _ = _
  rw [hrows, huncore]
  simp only [List.map_cons, List.map_nil, hrow]
  rfl

theorem acceptedOf_unfinished :
    acceptedOf lenientContext lenientExtras unfinishedTable.contents =
      lenientExtras.map ExtraMetric.draft := by
  unfold acceptedOf
  rw [extractionDrafts_unfinished]
  decide +kernel

theorem columnFor?_lenientContext :
    lenientContext.rules.columnFor? lenientContext.arch = some ⟨"SKL", [], none⟩ := by
  decide

theorem metrics_unfinishedText :
    (extractMetrics lenientContext lenientExtras unfinishedText).metrics =
      [timeRecord, restRecord] := by
  rw [metrics_eq_of_buildTable columnFor?_lenientContext buildTable_unfinishedText,
    acceptedOf_unfinished]
  decide

/-- The record with the ignored name is that of the extra metric. -/
theorem unscreened_timeRecord :
    lenientContext.rules.columnFor? lenientContext.arch = some ⟨"SKL", [], none⟩ ∧
      buildTable unfinishedText "SKL" ⟨"SKL", [], none⟩ lenientRules = .ok unfinishedTable ∧
      timeRecord ∈ (extractMetrics lenientContext lenientExtras unfinishedText).metrics ∧
      lenientContext.Excludes timeRecord.name ∧
      ∃ d, Unscreened lenientContext lenientExtras unfinishedTable.contents d ∧
        timeRecord = d.toMetric lenientRules "cpu" := by
  have hmem : timeRecord ∈
      (extractMetrics lenientContext lenientExtras unfinishedText).metrics := by
    rw [metrics_unfinishedText]
    exact List.mem_cons_self
  have hexcluded : lenientContext.Excludes timeRecord.name := .inl (by decide)
  have hunscreened := (@excluded_records_are_unscreened lenientContext lenientExtras _ _ _
    columnFor?_lenientContext buildTable_unfinishedText).1 timeRecord hmem hexcluded
  exact ⟨columnFor?_lenientContext, buildTable_unfinishedText, hmem, hexcluded, hunscreened⟩

/-- A metric is emitted although the rules ignore its name. -/
theorem not_forall_not_excludes_lenient :
    ¬ ∀ r ∈ (extractMetrics lenientContext lenientExtras unfinishedText).metrics,
      ¬ lenientContext.Excludes r.name := by
  rw [metrics_unfinishedText]
  intro hnone
  exact hnone timeRecord List.mem_cons_self (.inl (by decide))

/-! ## Formulas -/

section

variable {ctx : ExtractionContext} {extra : List ExtraMetric} {text : String}
  {column : FormulaColumn} {built : BuiltTable}

theorem mem_diagnostics_of_buildTable (hcolumn : ctx.rules.columnFor? ctx.arch = some column)
    (hbuilt : buildTable text ctx.arch column ctx.rules = .ok built) {f : Diagnostic} :
    f ∈ (extractMetrics ctx extra text).diagnostics ↔
      f ∈ built.contents.diagnostics ∨ f ∈ draftFindings ctx built.contents ∨
        f ∈ (checkReferences ctx (extractionDrafts ctx extra built.contents)).2 ∨
        f ∈ (Emission.ofDrafts ctx.rules ctx.pmu
          (acceptedOf ctx extra built.contents)).diagnostics := by
  rw [extractMetrics_of_buildTable hcolumn hbuilt, extractContents_diagnostics]
  simp only [List.mem_append]
  rfl

theorem mem_draftFindings_of_draftOfSpec {contents : TableContents} {spec : MetricSpec}
    {f : Diagnostic} (hspec : spec ∈ contents.metrics)
    (hdraft : draftOfSpec ctx (Scope.ofArch contents.symbols ctx.rules ctx.arch ctx.pmu) spec =
      .error f) : f ∈ draftFindings ctx contents := by
  apply mem_partitionDrafts_findings_iff.2
  exact List.mem_append_left _ (List.mem_map.2 ⟨spec, hspec, hdraft⟩)

/-- An extra metric is accepted exactly if it belongs to a set of drafts that refer to events
and to one another only. -/
theorem draft_mem_acceptedOf_iff {contents : TableContents} {m : ExtraMetric} :
    m.draft ∈ acceptedOf ctx extra contents ↔
      ∃ S : Set Draft, SelfConsistent ctx S ∧
        (∀ d ∈ S, d ∈ extractionDrafts ctx extra contents) ∧ m.draft ∈ S := by
  constructor
  · intro haccepted
    exact ⟨_, (checkReferences_drops ctx (extractionDrafts ctx extra contents)).2,
      fun d hd => mem_extractionDrafts_of_accepted hd, haccepted⟩
  · rintro ⟨S, hS, hsub, hmem⟩
    exact mem_checkReferences_of_selfConsistent hS hsub hmem

/-- A formula that does not parse keeps a row from the output, with a finding of its name.  An
extra metric is asked for its words only: it is accepted exactly if it belongs to a
self-consistent set of drafts.  Then it leaves a record of its name, and otherwise a finding
that one of its words is unknown. -/
theorem only_rows_are_parsed
    (hcolumn : ctx.rules.columnFor? ctx.arch = some column)
    (hbuilt : buildTable text ctx.arch column ctx.rules = .ok built) :
    let scope := Scope.ofArch built.contents.symbols ctx.rules ctx.arch ctx.pmu
    let extraction := extractMetrics ctx extra text
    let drafts := extractionDrafts ctx extra built.contents
    (∀ spec ∈ built.contents.metrics, ¬ ctx.Excludes spec.name →
      isUnavailable (scope.recordFormula spec) = false →
      ∀ e, scope.parseFragment (scope.recordFormula spec) = .error e →
        draftOfSpec ctx scope spec = .error (.warning (.invalidFormula spec.name e.message)) ∧
          .warning (.invalidFormula spec.name e.message) ∈ extraction.diagnostics) ∧
    ∀ m ∈ extra,
      (m.draft ∈ acceptedOf ctx extra built.contents ↔
        ∃ S : Set Draft, SelfConsistent ctx S ∧ (∀ d ∈ S, d ∈ drafts) ∧ m.draft ∈ S) ∧
      (m.draft ∈ acceptedOf ctx extra built.contents →
        ∃ r ∈ extraction.metrics, r.name = m.name ∧ (r.expr = m.expr ∨
          .warning (.duplicateMetric m.name r.expr m.expr) ∈ extraction.diagnostics)) ∧
      (m.draft ∉ acceptedOf ctx extra built.contents →
        ∃ symbol, .warning (.unresolvedSymbol m.name symbol) ∈ extraction.diagnostics) := by
  intro scope extraction drafts
  have hmetrics : extraction.metrics = _ := metrics_eq_of_buildTable hcolumn hbuilt
  have hdiagnostics {f : Diagnostic} : f ∈ extraction.diagnostics ↔ _ :=
    mem_diagnostics_of_buildTable hcolumn hbuilt
  constructor
  · intro spec hspec hexcluded havailable e hparse
    obtain ⟨hignored, hdropped⟩ := not_or.1 hexcluded
    have hdraft := draftOfSpec_of_parse_error hignored hdropped havailable hparse
    exact ⟨hdraft, hdiagnostics.2 (.inr (.inl (mem_draftFindings_of_draftOfSpec hspec hdraft)))⟩
  · intro m hm
    have hdrafts : m.draft ∈ drafts := List.mem_append_right _ (List.mem_map_of_mem hm)
    refine ⟨draft_mem_acceptedOf_iff, fun haccepted => ?_, fun hdropped => ?_⟩
    · obtain ⟨r, hr, hname, hexpr⟩ := Emission.exists_record_or_conflict_of_mem haccepted
      exact ⟨r, hmetrics ▸ hr, hname,
        hexpr.imp_right fun hconflict => hdiagnostics.2 (.inr (.inr (.inr hconflict)))⟩
    · obtain ⟨symbol, hsymbol⟩ :=
        (checkReferences_drops ctx drafts).1.exists_finding hdrafts hdropped
      exact ⟨symbol, hdiagnostics.2 (.inr (.inr (.inl hsymbol)))⟩

end

/-! ### The unfinished formula as a row and as an extra metric -/

/-- The row leaves a finding; the extra metric is accepted and leaves a record. -/
theorem parsed_unfinishedText :
    lenientContext.rules.columnFor? lenientContext.arch = some ⟨"SKL", [], none⟩ ∧
      buildTable unfinishedText "SKL" ⟨"SKL", [], none⟩ lenientRules = .ok unfinishedTable ∧
      .warning (.invalidFormula "Half" (ResolveError.parse .unexpectedEnd).message) ∈
        (extractMetrics lenientContext lenientExtras unfinishedText).diagnostics ∧
      ∃ r ∈ (extractMetrics lenientContext lenientExtras unfinishedText).metrics,
        r.name = "Rest" := by
  obtain ⟨hrows, hextra⟩ := @only_rows_are_parsed lenientContext lenientExtras _ _ _
    columnFor?_lenientContext buildTable_unfinishedText
  have hrow := hrows (plainRow "Half" "Half" "1 +") List.mem_cons_self
    (not_or.2 ⟨by decide, List.not_mem_nil⟩) (by decide) _ parseFragment_unfinished
  have hrest : (⟨"Rest", none, "1 +", "", none⟩ : ExtraMetric) ∈ lenientExtras := by decide
  have haccepted : ExtraMetric.draft ⟨"Rest", none, "1 +", "", none⟩ ∈
      acceptedOf lenientContext lenientExtras unfinishedTable.contents := by
    rw [acceptedOf_unfinished]
    exact List.mem_map_of_mem hrest
  obtain ⟨r, hr, hname, _⟩ := (hextra _ hrest).2.1 haccepted
  exact ⟨columnFor?_lenientContext, buildTable_unfinishedText, hrow.2, r, hr, hname⟩

/-- A formula that does not parse is emitted, and no finding names its metric. -/
theorem emitted_unparsed_restRecord :
    Formula.parse restRecord.expr = .error .unexpectedEnd ∧
      ¬ (restRecord ∉ (extractMetrics lenientContext lenientExtras unfinishedText).metrics ∧
        ∃ f ∈ (extractMetrics lenientContext lenientExtras unfinishedText).diagnostics,
          f.finding.metric? = some restRecord.name) := by
  refine ⟨parse_unfinished, fun h => h.1 ?_⟩
  rw [metrics_unfinishedText]
  exact List.mem_cons_of_mem _ List.mem_cons_self

end TopdownMetrics

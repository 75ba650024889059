import TopdownMetrics.Metrics.Extraction
import TopdownMetrics.Proofs.SelfConsistency

/-!
# Emitted records and the names they refer to

The check of references compares formulas with the names of accepted drafts, but of several
accepted drafts of one name only the first becomes a record.  No name is lost by that: each
accepted draft leaves a record of its name, and each record comes from an accepted draft, so
the records refer to events and to each other only.
-/

namespace TopdownMetrics

open Formula

namespace Emission

variable {e : Emission} {m : Metric}

theorem position_eq_none_iff {name : String} :
    e.positions[name]? = none ↔ name ∉ e.records.map (·.name) := by
  rw [Option.eq_none_iff_forall_ne_some, List.mem_iff_getElem?, not_exists]
  exact forall_congr' fun i => not_congr (e.position_iff name i)

theorem push_of_notMem (h : m.name ∉ e.records.map (·.name)) :
    ∃ hnew, e.push m = (e.append m hnew, true) := by
  have hnew : e.positions[m.name]? = none := position_eq_none_iff.2 h
  refine ⟨hnew, ?_⟩
  unfold push
  split
  · rfl
  · rename_i hsome
    rw [hnew] at hsome
    cases hsome

/-- A record is compared with the one of its name, wherever that stands. -/
theorem push_of_mem {r : Metric} (hr : r ∈ e.records) (hname : r.name = m.name) :
    e.push m = if r.expr = m.expr then (e, false)
      else ({ e with diagnostics := e.diagnostics ++
        [.warning (.duplicateMetric m.name r.expr m.expr)] }, false) := by
  obtain ⟨j, hj⟩ := List.mem_iff_getElem?.1 hr
  have hposition : e.positions[m.name]? = some j := by
    rw [e.position_iff, List.getElem?_map, hj, ← hname]
    rfl
  unfold push
  split
  · rename_i hnone
    rw [hposition] at hnone
    cases hnone
  · rename_i i hsome
    obtain rfl := Option.some.inj (hposition.symm.trans hsome)
    have hexisting : e.records.get ⟨j, lt_length_of_position hsome⟩ = r := by
      rw [List.get_eq_getElem]
      exact Option.some.inj ((List.getElem?_eq_getElem _).symm.trans hj)
    simp only [hexisting]

/-- What adding a record can do: the record is added, or there is one of its name already;
then a record with another formula leaves a warning. -/
theorem push_cases (e : Emission) (m : Metric) :
    (∃ hnew, e.push m = (e.append m hnew, true)) ∨
      ∃ r ∈ e.records, r.name = m.name ∧
        (r.expr = m.expr ∧ e.push m = (e, false) ∨
          r.expr ≠ m.expr ∧ e.push m = ({ e with diagnostics := e.diagnostics ++
            [.warning (.duplicateMetric m.name r.expr m.expr)] }, false)) := by
  by_cases htaken : m.name ∈ e.records.map (·.name)
  · obtain ⟨r, hr, hname⟩ := List.mem_map.1 htaken
    refine .inr ⟨r, hr, hname, ?_⟩
    by_cases hexpr : r.expr = m.expr
    · exact .inl ⟨hexpr, by rw [push_of_mem hr hname, if_pos hexpr]⟩
    · exact .inr ⟨hexpr, by rw [push_of_mem hr hname, if_neg hexpr]⟩
  · exact .inl (push_of_notMem htaken)

theorem mem_push_of_mem {r : Metric} (h : r ∈ e.records) : r ∈ (e.push m).1.records := by
  rcases push_cases e m with ⟨_, hpush⟩ | ⟨_, _, _, ⟨_, hpush⟩ | ⟨_, hpush⟩⟩
  · simp [hpush, h]
  · simp [hpush, h]
  · simp [hpush, h]

theorem mem_diagnostics_push_of_mem {f : Diagnostic} (h : f ∈ e.diagnostics) :
    f ∈ (e.push m).1.diagnostics := by
  rcases push_cases e m with ⟨_, hpush⟩ | ⟨_, _, _, ⟨_, hpush⟩ | ⟨_, hpush⟩⟩
  · simp [hpush, h]
  · simp [hpush, h]
  · simp [hpush, h]

theorem mem_or_eq_of_mem_push {r : Metric} (h : r ∈ (e.push m).1.records) :
    r ∈ e.records ∨ r = m := by
  rcases push_cases e m with ⟨_, hpush⟩ | ⟨_, _, _, ⟨_, hpush⟩ | ⟨_, hpush⟩⟩
  · simpa [hpush] using h
  · exact .inl (by simpa [hpush] using h)
  · exact .inl (by simpa [hpush] using h)

/-! ## Emitting a list of drafts -/

variable {rules : Rules} {pmu : String}

theorem ofDrafts_concat (rules : Rules) (pmu : String) (ds : List Draft) (d : Draft) :
    ofDrafts rules pmu (ds ++ [d]) = ((ofDrafts rules pmu ds).push (d.toMetric rules pmu)).1 :=
  List.foldl_concat ..

/-- A draft that is emitted leaves a record of its name.  If that record has another formula,
there is a warning. -/
theorem exists_record_or_conflict_of_mem {ds : List Draft} {d : Draft} (hd : d ∈ ds) :
    ∃ r ∈ (ofDrafts rules pmu ds).records, r.name = d.name ∧
      (r.expr = d.expr ∨ .warning (.duplicateMetric d.name r.expr d.expr) ∈
        (ofDrafts rules pmu ds).diagnostics) := by
  induction ds using List.reverseRecOn with
  | nil => simp at hd
  | append_singleton ds last ih =>
    rw [ofDrafts_concat]
    rcases List.mem_append.1 hd with hd | hd
    · obtain ⟨r, hr, hname, hexpr⟩ := ih hd
      exact ⟨r, mem_push_of_mem hr, hname, hexpr.imp_right mem_diagnostics_push_of_mem⟩
    · obtain rfl := List.mem_singleton.1 hd
      rcases push_cases (ofDrafts rules pmu ds) (d.toMetric rules pmu) with
        ⟨_, hpush⟩ | ⟨r, hr, hname, ⟨hexpr, hpush⟩ | ⟨_, hpush⟩⟩
      · exact ⟨d.toMetric rules pmu, by simp [hpush], rfl, .inl rfl⟩
      · exact ⟨r, mem_push_of_mem hr, hname, .inl hexpr⟩
      · refine ⟨r, mem_push_of_mem hr, hname, .inr ?_⟩
        rw [hpush]
        exact List.mem_append_right _ (List.mem_singleton_self _)

theorem exists_record_of_mem {ds : List Draft} {d : Draft} (hd : d ∈ ds) :
    ∃ r ∈ (ofDrafts rules pmu ds).records, r.name = d.name := by
  obtain ⟨r, hr, hname, -⟩ := exists_record_or_conflict_of_mem hd
  exact ⟨r, hr, hname⟩

theorem exists_draft_of_mem {ds : List Draft} {r : Metric}
    (hr : r ∈ (ofDrafts rules pmu ds).records) : ∃ d ∈ ds, d.toMetric rules pmu = r := by
  induction ds using List.reverseRecOn with
  | nil => simp [ofDrafts] at hr
  | append_singleton ds last ih =>
    rw [ofDrafts_concat] at hr
    rcases mem_or_eq_of_mem_push hr with hold | hnew
    · obtain ⟨d, hd, hdr⟩ := ih hold
      exact ⟨d, List.mem_append_left _ hd, hdr⟩
    · exact ⟨last, by simp, hnew.symm⟩

end Emission

/-! ## Extraction -/

variable {ctx : ExtractionContext} {extra : List ExtraMetric}

/-- The drafts of a table and of the extra metrics whose references are checked. -/
def extractionDrafts (ctx : ExtractionContext) (extra : List ExtraMetric)
    (contents : TableContents) : List Draft :=
  let scope := Scope.ofArch contents.symbols ctx.rules ctx.arch ctx.pmu
  (partitionDrafts
    (contents.metrics.map (draftOfSpec ctx scope) ++ (uncoreFrequency? scope).toList)).1 ++
      extra.map ExtraMetric.draft

theorem extractContents_metrics (ctx : ExtractionContext) (extra : List ExtraMetric)
    (contents : TableContents) :
    (extractContents ctx extra contents).metrics =
      (Emission.ofDrafts ctx.rules ctx.pmu
        (checkReferences ctx (extractionDrafts ctx extra contents)).1).records :=
  rfl

theorem extractMetrics_of_buildTable {text : String} {column : FormulaColumn} {built : BuiltTable}
    (hcolumn : ctx.rules.columnFor? ctx.arch = some column)
    (hbuilt : buildTable text ctx.arch column ctx.rules = .ok built) :
    extractMetrics ctx extra text = extractContents ctx extra built.contents := by
  simp only [extractMetrics, hcolumn, hbuilt]

theorem exists_contents_of_mem_metrics {text : String} {m : Metric}
    (hm : m ∈ (extractMetrics ctx extra text).metrics) :
    ∃ contents, extractMetrics ctx extra text = extractContents ctx extra contents := by
  unfold extractMetrics at hm
  cases hcolumn : ctx.rules.columnFor? ctx.arch with
  | none => simp [hcolumn] at hm
  | some column =>
    cases hbuilt : buildTable text ctx.arch column ctx.rules with
    | ok built => exact ⟨built.contents, extractMetrics_of_buildTable hcolumn hbuilt⟩
    | error e => simp [hcolumn, hbuilt] at hm

theorem covers_of_mem_metrics {contents : TableContents} {m : Metric}
    (hm : m ∈ (extractContents ctx extra contents).metrics) :
    ctx.Covers (fun name => ∃ r ∈ (extractContents ctx extra contents).metrics, r.name = name)
      m.expr := by
  rw [extractContents_metrics] at hm ⊢
  obtain ⟨d, hd, rfl⟩ := Emission.exists_draft_of_mem hm
  have hcovers := (checkReferences_drops ctx (extractionDrafts ctx extra contents)).2 d hd
  apply hcovers.mono
  rintro name ⟨e, he, rfl⟩
  exact Emission.exists_record_of_mem he

/-- The formula of an emitted record has only words that are numbers, keywords, events or
names of records of the same extraction. -/
theorem unresolvedWords_eq_nil_of_mem_metrics (ctx : ExtractionContext)
    (extra : List ExtraMetric) (text : String) {m : Metric}
    (hm : m ∈ (extractMetrics ctx extra text).metrics) :
    unresolvedWords ctx.rules
      (fun word => ctx.catalog.contains word ||
        (extractMetrics ctx extra text).metrics.any (·.name == word)) m.expr = [] := by
  obtain ⟨contents, hcontents⟩ := exists_contents_of_mem_metrics hm
  rw [hcontents] at hm ⊢
  rw [unresolvedWords_eq_nil_iff]
  have hcovers := covers_of_mem_metrics hm
  simpa only [ExtractionContext.Covers, Bool.or_eq_true, List.any_eq_true, beq_iff_eq]
    using hcovers

/-! ### A loop among extra metrics -/

/-- Rules under which every word but a number has to be a known name. -/
def plainRules : Rules where
  keywords := []
  keywordPrefixes := []
  ignoredMetrics := []
  watchdogMetrics := []
  topdownPrefixes := ["FE"]
  slots := ⟨"topdown", "SLOTS", "0 * SLOTS"⟩
  metricGroups := []
  context := ⟨[], []⟩
  commonFixups := []
  fixupSets := []
  formulaColumns := [⟨"SKL", [], none⟩]
  archs := []
  idleStates := []

def plainContext : ExtractionContext :=
  ⟨plainRules, {}, "SKL", "cpu"⟩

def emptyTableText : String :=
  "Key,Level1,Metric Description,SKL\n"

/-- The first two metrics refer to each other, the third to an unknown event, and the
fourth to the third. -/
def loopedExtras : List ExtraMetric :=
  [⟨"CPI", none, "1 / IPC", "", none⟩, ⟨"IPC", none, "1 / CPI", "", none⟩,
    ⟨"Miss_Rate", none, "MISSES / IPC", "", none⟩, ⟨"Hit_Rate", none, "1 - Miss_Rate", "", none⟩]

def loopedRecord : Metric :=
  ⟨"", none, "1 / IPC", none, "CPI", none, none, none⟩

theorem unresolvedWords_loopedRecord :
    loopedRecord ∈ (extractMetrics plainContext loopedExtras emptyTableText).metrics ∧
      unresolvedWords plainRules
        (fun word => plainContext.catalog.contains word ||
          (extractMetrics plainContext loopedExtras emptyTableText).metrics.any (·.name == word))
        loopedRecord.expr = [] := by
  have hmem : loopedRecord ∈
      (extractMetrics plainContext loopedExtras emptyTableText).metrics := by
    decide +kernel
  exact ⟨hmem, unresolvedWords_eq_nil_of_mem_metrics plainContext loopedExtras emptyTableText hmem⟩

end TopdownMetrics

import Mathlib.Data.List.Forall2
import TopdownMetrics.Proofs.EmittedRecords
import TopdownMetrics.Proofs.TableRows

/-!
# Where every metric of a table goes

A metric can leave the extraction when its draft is made, when references are checked and
when records are emitted.  The first two stages keep some items and report each of the
others once; this is a `Sorting` of the items.  Emission gives each draft an outcome of its
own.  Carried back through the two sortings, the outcomes of the drafts become outcomes of
the metrics of the table, and no record and no finding is left over.
-/

namespace TopdownMetrics

open Formula

/-! ## Outcomes -/

/-- What becomes of a metric of an extraction. -/
inductive Outcome where
  | emitted (record : Metric)
  /-- The metric is left out quietly, because of a record that is there already. -/
  | merged (record : Metric)
  | reported (finding : Diagnostic)

namespace Outcome

def record? : Outcome → Option Metric
  | .emitted r => some r
  | _ => none

def finding? : Outcome → Option Diagnostic
  | .reported f => some f
  | _ => none

end Outcome

/-- The metric that a finding is about. -/
def Finding.metric? : Finding → Option String
  | .missingFormula metric _ => some metric
  | .unresolvedSymbol metric _ => some metric
  | .invalidFormula metric _ => some metric
  | .duplicateMetric metric _ _ => some metric
  | .malformedTable _ _ => none
  | .skipped metric _ => some metric

/-- What an outcome must be for a metric of the given name with the given draft. -/
def Accounts (ctx : ExtractionContext) (name : String) (draft : Except Diagnostic Draft) :
    Outcome → Prop
  | .emitted r => r.name = name ∧ ∃ d, draft = .ok d ∧ r = d.toMetric ctx.rules ctx.pmu
  | .merged r => r.name = name ∧ ∃ d, draft = .ok d ∧ r.expr = d.expr
  | .reported f => f.finding.metric? = some name ∧ ∀ failure, draft = .error failure → f = failure

/-- Every merge in a list of outcomes is into a record that is there before. -/
def MergesBack (earlier : List Metric) : List Outcome → Prop
  | [] => True
  | .emitted r :: outcomes => MergesBack (earlier ++ [r]) outcomes
  | .merged r :: outcomes => r ∈ earlier ∧ MergesBack earlier outcomes
  | .reported _ :: outcomes => MergesBack earlier outcomes

theorem MergesBack.exists_emitted {earlier : List Metric} {outcomes : List Outcome}
    (h : MergesBack earlier outcomes) {i : Nat} {r : Metric}
    (hi : outcomes[i]? = some (.merged r)) :
    r ∈ earlier ∨ ∃ j < i, outcomes[j]? = some (.emitted r) := by
  induction outcomes generalizing earlier i with
  | nil => simp at hi
  | cons o outcomes ih =>
    cases i with
    | zero =>
      obtain rfl : o = .merged r := by simpa using hi
      exact .inl h.1
    | succ i =>
      rw [List.getElem?_cons_succ] at hi
      cases o with
      | emitted first =>
        rcases ih h hi with hmem | ⟨j, hj, hemitted⟩
        · rcases List.mem_append.1 hmem with hmem | hmem
          · exact .inl hmem
          · rw [List.mem_singleton.1 hmem]
            exact .inr ⟨0, Nat.succ_pos i, rfl⟩
        · exact .inr ⟨j + 1, Nat.succ_lt_succ hj, hemitted⟩
      | merged first =>
        rcases ih h.2 hi with hmem | ⟨j, hj, hemitted⟩
        · exact .inl hmem
        · exact .inr ⟨j + 1, Nat.succ_lt_succ hj, hemitted⟩
      | reported finding =>
        rcases ih h hi with hmem | ⟨j, hj, hemitted⟩
        · exact .inl hmem
        · exact .inr ⟨j + 1, Nat.succ_lt_succ hj, hemitted⟩

/-! ## Emission -/

theorem exists_outcomes_of_emission (ctx : ExtractionContext) (ds : List Draft) (e : Emission) :
    let emission := ds.foldl (fun e d => (e.push (d.toMetric ctx.rules ctx.pmu)).1) e
    ∃ outcomes : List Outcome,
      List.Forall₂ (fun d o => Accounts ctx d.name (.ok d) o) ds outcomes ∧
        emission.records = e.records ++ outcomes.filterMap Outcome.record? ∧
        emission.diagnostics = e.diagnostics ++ outcomes.filterMap Outcome.finding? ∧
        MergesBack e.records outcomes := by
  induction ds generalizing e with
  | nil => exact ⟨[], .nil, by simp, by simp, trivial⟩
  | cons d ds ih =>
    obtain ⟨outcomes, hall, hrecords, hdiagnostics, hmerges⟩ :=
      ih (e.push (d.toMetric ctx.rules ctx.pmu)).1
    simp only [List.foldl_cons, hrecords, hdiagnostics]
    rcases e.push_cases (d.toMetric ctx.rules ctx.pmu) with
      ⟨_, hpush⟩ | ⟨r, hr, hname, ⟨hexpr, hpush⟩ | ⟨hexpr, hpush⟩⟩
    · rw [hpush] at hmerges ⊢
      refine ⟨.emitted (d.toMetric ctx.rules ctx.pmu) :: outcomes, ?_, ?_, rfl, hmerges⟩
      · exact .cons ⟨rfl, d, rfl, rfl⟩ hall
      · exact List.append_assoc ..
    · rw [hpush] at hmerges ⊢
      refine ⟨.merged r :: outcomes, ?_, rfl, rfl, hr, hmerges⟩
      exact .cons ⟨hname, d, rfl, hexpr⟩ hall
    · rw [hpush] at hmerges ⊢
      refine ⟨.reported (.warning (.duplicateMetric d.name r.expr d.expr)) :: outcomes,
        ?_, rfl, ?_, hmerges⟩
      · exact .cons ⟨rfl, nofun⟩ hall
      · exact List.append_assoc ..

/-! ## Sorting items into kept and reported ones -/

section Sorting

variable {α β : Type} {keeps : α → β → Prop} {reports : α → Diagnostic → Prop}

/-- Each item is kept, in order, or leaves exactly one of the findings, which come in any
order. -/
inductive Sorting (keeps : α → β → Prop) (reports : α → Diagnostic → Prop) :
    List α → List β → List Diagnostic → Prop where
  | nil : Sorting keeps reports [] [] []
  | keep {a : α} {b : β} {items : List α} {kept : List β} {findings : List Diagnostic}
      (hkeep : keeps a b) (h : Sorting keeps reports items kept findings) :
      Sorting keeps reports (a :: items) (b :: kept) findings
  | report {a : α} {f : Diagnostic} {items : List α} {kept : List β}
      {findings all : List Diagnostic} (hreport : reports a f)
      (h : Sorting keeps reports items kept findings) (hall : all.Perm (f :: findings)) :
      Sorting keeps reports (a :: items) kept all

namespace Sorting

variable {items others : List α} {kept more : List β} {findings further : List Diagnostic}

theorem append (h : Sorting keeps reports items kept findings)
    (hothers : Sorting keeps reports others more further) :
    Sorting keeps reports (items ++ others) (kept ++ more) (findings ++ further) := by
  induction h with
  | nil => exact hothers
  | keep hkeep _ ih => exact .keep hkeep ih
  | report hreport _ hall ih => exact .report hreport ih (hall.append_right further)

theorem of_forall₂ (h : List.Forall₂ keeps items kept) :
    Sorting keeps reports items kept [] := by
  induction h with
  | nil => exact .nil
  | cons hkeep _ ih => exact .keep hkeep ih

theorem insert {before after : List α} {a : α} {f : Diagnostic} (hreport : reports a f)
    (h : Sorting keeps reports (before ++ after) kept findings) :
    Sorting keeps reports (before ++ a :: after) kept (f :: findings) := by
  induction before generalizing kept findings with
  | nil => exact .report hreport h (.refl _)
  | cons first before ih =>
    cases h with
    | keep hkeep h => exact .keep hkeep (ih h)
    | report hfirst h hall =>
      exact .report hfirst (ih h) ((hall.cons f).trans (.swap ..))

/-- Outcomes of the kept items, together with the findings, are outcomes of all items. -/
theorem exists_outcomes (h : Sorting keeps reports items kept findings)
    {P : β → Outcome → Prop} {Q : α → Outcome → Prop}
    (hkeeps : ∀ a b o, keeps a b → P b o → Q a o)
    (hreports : ∀ a f, reports a f → Q a (.reported f))
    {outcomes : List Outcome} (houtcomes : List.Forall₂ P kept outcomes)
    {earlier : List Metric} (hmerges : MergesBack earlier outcomes) :
    ∃ all : List Outcome, List.Forall₂ Q items all ∧
      all.filterMap Outcome.record? = outcomes.filterMap Outcome.record? ∧
      (all.filterMap Outcome.finding?).Perm (findings ++ outcomes.filterMap Outcome.finding?) ∧
      MergesBack earlier all := by
  induction h generalizing outcomes earlier with
  | nil =>
    cases houtcomes
    exact ⟨[], .nil, rfl, .nil, trivial⟩
  | keep hkeep _ ih =>
    cases houtcomes with
    | @cons _ first _ rest hfirst hrest =>
    have hfirst := hkeeps _ _ _ hkeep hfirst
    cases first with
    | emitted r =>
      obtain ⟨all, hforall, hrecords, hfindings, hback⟩ := ih hrest hmerges
      exact ⟨.emitted r :: all, .cons hfirst hforall, congrArg (r :: ·) hrecords, hfindings, hback⟩
    | merged r =>
      obtain ⟨all, hforall, hrecords, hfindings, hback⟩ := ih hrest hmerges.2
      exact ⟨.merged r :: all, .cons hfirst hforall, hrecords, hfindings, hmerges.1, hback⟩
    | reported f =>
      obtain ⟨all, hforall, hrecords, hfindings, hback⟩ := ih hrest hmerges
      refine ⟨.reported f :: all, .cons hfirst hforall, hrecords, ?_, hback⟩
      exact (hfindings.cons f).trans List.perm_middle.symm
  | report hreport _ hall ih =>
    obtain ⟨all, hforall, hrecords, hfindings, hback⟩ := ih houtcomes hmerges
    refine ⟨.reported _ :: all, .cons (hreports _ _ hreport) hforall, hrecords, ?_, hback⟩
    exact (hfindings.cons _).trans (hall.symm.append_right _)

end Sorting

end Sorting

theorem Drops.sorting {ctx : ExtractionContext} {ds left : List Draft}
    {findings : List Diagnostic} (h : Drops ctx ds findings left) :
    Sorting Eq (fun d f => f.finding.metric? = some d.name) ds left findings := by
  induction h with
  | none ds => exact .of_forall₂ (List.forall₂_refl ds)
  | drop symbol _ _ ih => exact .insert rfl ih

/-! ## The metrics of a table -/

/-- Where a metric of an extraction comes from. -/
inductive MetricSource where
  | row (spec : MetricSpec)
  | uncoreFrequency
  | extra (metric : ExtraMetric)

namespace MetricSource

def name : MetricSource → String
  | .row spec => spec.name
  | .uncoreFrequency => uncoreFrequencyName
  | .extra m => m.name

/-- The draft of a metric before references are checked, or the finding that there is
none. -/
def draft (ctx : ExtractionContext) (scope : Scope) : MetricSource → Except Diagnostic Draft
  | .row spec => draftOfSpec ctx scope spec
  | .uncoreFrequency => uncoreFrequencyDraft scope
  | .extra m => .ok m.draft

end MetricSource

/-- The metrics of a table in order of their rows, and the uncore frequency if the table
counts socket clocks. -/
def tableSources (contents : TableContents) : List MetricSource :=
  contents.metrics.map .row ++
    if contents.symbols.info.contains socketClocks then [.uncoreFrequency] else []

def metricSources (contents : TableContents) (extra : List ExtraMetric) : List MetricSource :=
  tableSources contents ++ extra.map .extra

theorem metric?_resolveFinding (name : String) (e : ResolveError) :
    (resolveFinding name e).finding.metric? = some name := by
  cases e <;> rfl

section

variable {ctx : ExtractionContext} {scope : Scope} {spec : MetricSpec}

theorem draftOfSpec_cases (ctx : ExtractionContext) (scope : Scope) (spec : MetricSpec) :
    (∃ f, draftOfSpec ctx scope spec = .error f ∧ f.finding.metric? = some spec.name) ∨
      ∃ d, draftOfSpec ctx scope spec = .ok d ∧ d.name = spec.name := by
  unfold draftOfSpec
  split
  · exact .inl ⟨_, rfl, rfl⟩
  split
  · exact .inl ⟨_, rfl, rfl⟩
  dsimp only
  split
  · exact .inl ⟨_, rfl, rfl⟩
  cases resolveText scope ((scope.arch.forcedFormulas.lookup spec.name).getD spec.formula) with
  | error e => exact .inl ⟨_, rfl, metric?_resolveFinding spec.name e⟩
  | ok text => exact .inr ⟨_, rfl, rfl⟩

theorem MetricSource.draft_cases (ctx : ExtractionContext) (scope : Scope) (s : MetricSource) :
    (∃ f, s.draft ctx scope = .error f ∧ f.finding.metric? = some s.name) ∨
      ∃ d, s.draft ctx scope = .ok d ∧ d.name = s.name := by
  cases s with
  | row spec => exact draftOfSpec_cases ctx scope spec
  | uncoreFrequency =>
    unfold MetricSource.draft uncoreFrequencyDraft
    cases scope.resolve uncoreFrequencyFormula with
    | error e => exact .inl ⟨_, rfl, metric?_resolveFinding uncoreFrequencyName e⟩
    | ok e => exact .inr ⟨_, rfl, rfl⟩
  | extra m => exact .inr ⟨m.draft, rfl, rfl⟩

theorem partitionDrafts_sorting (ctx : ExtractionContext) (scope : Scope)
    (sources : List MetricSource) :
    Sorting (fun s d => s.draft ctx scope = .ok d ∧ d.name = s.name)
      (fun s f => s.draft ctx scope = .error f ∧ f.finding.metric? = some s.name) sources
      (partitionDrafts (sources.map (·.draft ctx scope))).1
      (partitionDrafts (sources.map (·.draft ctx scope))).2 := by
  induction sources with
  | nil => exact .nil
  | cons s sources ih =>
    rw [List.map_cons]
    rcases s.draft_cases ctx scope with ⟨f, hdraft, hmetric⟩ | ⟨d, hdraft, hname⟩
    · rw [hdraft]
      exact .report ⟨hdraft, hmetric⟩ ih (.refl _)
    · rw [hdraft]
      exact .keep ⟨hdraft, hname⟩ ih

end

section

variable (ctx : ExtractionContext) (extra : List ExtraMetric) (contents : TableContents)

/-- What keeps metrics of a table from becoming drafts. -/
def draftFindings : List Diagnostic :=
  let scope := Scope.ofArch contents.symbols ctx.rules ctx.arch ctx.pmu
  (partitionDrafts
    (contents.metrics.map (draftOfSpec ctx scope) ++ (uncoreFrequency? scope).toList)).2

theorem map_draft_tableSources :
    let scope := Scope.ofArch contents.symbols ctx.rules ctx.arch ctx.pmu
    (tableSources contents).map (·.draft ctx scope) =
      contents.metrics.map (draftOfSpec ctx scope) ++ (uncoreFrequency? scope).toList := by
  intro scope
  have huncore : uncoreFrequency? scope =
      if contents.symbols.info.contains socketClocks then some (uncoreFrequencyDraft scope)
      else none := rfl
  unfold tableSources
  rw [List.map_append, List.map_map, huncore]
  split <;> rfl

theorem metricSources_sorting :
    let scope := Scope.ofArch contents.symbols ctx.rules ctx.arch ctx.pmu
    Sorting (fun s d => s.draft ctx scope = .ok d ∧ d.name = s.name)
      (fun s f => s.draft ctx scope = .error f ∧ f.finding.metric? = some s.name)
      (metricSources contents extra) (extractionDrafts ctx extra contents)
      (draftFindings ctx contents) := by
  intro scope
  have htable := partitionDrafts_sorting ctx scope (tableSources contents)
  rw [map_draft_tableSources ctx contents] at htable
  have hextra : List.Forall₂ (fun s d => s.draft ctx scope = .ok d ∧ d.name = s.name)
      (extra.map MetricSource.extra) (extra.map ExtraMetric.draft) := by
    rw [List.forall₂_map_left_iff, List.forall₂_map_right_iff]
    exact List.forall₂_same.2 fun m _ => ⟨rfl, rfl⟩
  have hall := htable.append (.of_forall₂ hextra)
  rw [List.append_nil] at hall
  exact hall

theorem mem_partitionDrafts_iff {results : List (Except Diagnostic Draft)} {d : Draft} :
    d ∈ (partitionDrafts results).1 ↔ .ok d ∈ results := by
  induction results with
  | nil => simp [partitionDrafts]
  | cons result results ih =>
    cases result with
    | error finding => simp [partitionDrafts, ih]
    | ok first => simp [partitionDrafts, ih]

theorem mem_partitionDrafts_findings_iff {results : List (Except Diagnostic Draft)}
    {f : Diagnostic} : f ∈ (partitionDrafts results).2 ↔ .error f ∈ results := by
  induction results with
  | nil => simp [partitionDrafts]
  | cons result results ih =>
    cases result with
    | error finding => simp [partitionDrafts, ih]
    | ok first => simp [partitionDrafts, ih]

theorem mem_extractionDrafts_iff {d : Draft} :
    d ∈ extractionDrafts ctx extra contents ↔
      ∃ s ∈ metricSources contents extra,
        s.draft ctx (Scope.ofArch contents.symbols ctx.rules ctx.arch ctx.pmu) = .ok d := by
  have htable : d ∈ (partitionDrafts ((tableSources contents).map
      (·.draft ctx (Scope.ofArch contents.symbols ctx.rules ctx.arch ctx.pmu)))).1 ↔
      ∃ s ∈ tableSources contents,
        s.draft ctx (Scope.ofArch contents.symbols ctx.rules ctx.arch ctx.pmu) = .ok d := by
    rw [mem_partitionDrafts_iff, List.mem_map]
  have hextra : d ∈ extra.map ExtraMetric.draft ↔ ∃ s ∈ extra.map MetricSource.extra,
      s.draft ctx (Scope.ofArch contents.symbols ctx.rules ctx.arch ctx.pmu) = .ok d := by
    simp [MetricSource.draft]
  rw [map_draft_tableSources] at htable
  simp only [extractionDrafts, metricSources, List.mem_append, or_and_right, exists_or, htable,
    hextra]

theorem extractContents_diagnostics :
    (extractContents ctx extra contents).diagnostics =
      contents.diagnostics ++
        (draftFindings ctx contents ++
          ((checkReferences ctx (extractionDrafts ctx extra contents)).2 ++
            (Emission.ofDrafts ctx.rules ctx.pmu
              (checkReferences ctx (extractionDrafts ctx extra contents)).1).diagnostics)) := by
  rw [← List.append_assoc, ← List.append_assoc]
  rfl

end

/-- Every metric of a table, the uncore frequency and every extra metric has exactly one
outcome: a record of its name, a finding about it, or a quiet merge into an earlier record
of its name with the same formula.  The records are those of the outcomes, in order, and the
findings those of the outcomes beside the ones of reading the table. -/
theorem extractMetrics_accounts_for_every_metric {ctx : ExtractionContext} {text : String}
    {column : FormulaColumn} {built : BuiltTable} (extra : List ExtraMetric)
    (hcolumn : ctx.rules.columnFor? ctx.arch = some column)
    (hbuilt : buildTable text ctx.arch column ctx.rules = .ok built) :
    let scope := Scope.ofArch built.contents.symbols ctx.rules ctx.arch ctx.pmu
    ∃ outcomes : List Outcome,
      List.Forall₂ (fun source outcome =>
        Accounts ctx source.name (source.draft ctx scope) outcome)
        (metricSources built.contents extra) outcomes ∧
      (extractMetrics ctx extra text).metrics = outcomes.filterMap Outcome.record? ∧
      (∃ findings, (extractMetrics ctx extra text).diagnostics =
          built.contents.diagnostics ++ findings ∧
        findings.Perm (outcomes.filterMap Outcome.finding?)) ∧
      ∀ (i : Nat) (r : Metric), outcomes[i]? = some (.merged r) →
        ∃ j < i, outcomes[j]? = some (.emitted r) := by
  intro scope
  rw [extractMetrics_of_buildTable hcolumn hbuilt, extractContents_metrics,
    extractContents_diagnostics]
  have hdrops := (checkReferences_drops ctx (extractionDrafts ctx extra built.contents)).1
  obtain ⟨last, hlast, hrecords, hdiagnostics, hback⟩ := exists_outcomes_of_emission ctx
    (checkReferences ctx (extractionDrafts ctx extra built.contents)).1 ∅
  -- From the drafts that are emitted back to those whose references are checked.
  obtain ⟨checked, hchecked, hcheckedRecords, hcheckedFindings, hback⟩ :=
    hdrops.sorting.exists_outcomes (Q := fun d o => Accounts ctx d.name (.ok d) o)
      (by rintro d _ o rfl h; exact h) (fun d f hmetric => ⟨hmetric, nofun⟩) hlast hback
  -- And from those back to the metrics of the table.
  obtain ⟨all, hall, hallRecords, hallFindings, hback⟩ :=
    (metricSources_sorting ctx extra built.contents).exists_outcomes
      (Q := fun s o => Accounts ctx s.name (s.draft ctx scope) o)
      (by rintro s d o ⟨hdraft, hname⟩ h; rw [hdraft, ← hname]; exact h)
      (by
        rintro s f ⟨hdraft, hmetric⟩
        refine ⟨hmetric, fun failure hfailure => ?_⟩
        rw [hdraft] at hfailure
        exact Except.error.inj hfailure)
      hchecked hback
  refine ⟨all, hall, ?_, ⟨_, rfl, ?_⟩, ?_⟩
  · rw [hallRecords, hcheckedRecords]
    exact hrecords
  · have hemission : (Emission.ofDrafts ctx.rules ctx.pmu
        (checkReferences ctx (extractionDrafts ctx extra built.contents)).1).diagnostics =
      last.filterMap Outcome.finding? := hdiagnostics
    rw [hemission]
    exact (hallFindings.trans (hcheckedFindings.append_left _)).symm
  · intro i r hi
    exact (hback.exists_emitted hi).resolve_left List.not_mem_nil

/-! ### A table that lists a name twice -/

/-- The second row of the name `IPC` has no formula. -/
def repeatedText : String :=
  "Key,Level1,Metric Description,SKL\nInfo.Thread,CLKS,Cycles,CYCLES\nInfo.Thread,IPC,Rate,INSTS\nInfo.Thread,IPC,Rate,#NA\n"

def repeatedTable : BuiltTable :=
  ⟨"SKL", TableReading.addRows
    ⟨⟨["Key", "Level1", "Metric Description", "SKL"]⟩, ["SKL"], "SKL", plainRules⟩ {}
    [["Info.Thread", "CLKS", "Cycles", "CYCLES"], ["Info.Thread", "IPC", "Rate", "INSTS"],
      ["Info.Thread", "IPC", "Rate", "#NA"]]⟩

theorem buildTable_repeatedText :
    buildTable repeatedText "SKL" ⟨"SKL", [], none⟩ plainRules = .ok repeatedTable :=
  buildTable_of_split (by cbv) rfl rfl rfl

theorem accounts_repeatedText :
    plainRules.columnFor? "SKL" = some ⟨"SKL", [], none⟩ ∧
    buildTable repeatedText "SKL" ⟨"SKL", [], none⟩ plainRules = .ok repeatedTable ∧
    ∃ outcomes : List Outcome,
      List.Forall₂ (fun source outcome => Accounts plainContext source.name
          (source.draft plainContext
            (Scope.ofArch repeatedTable.contents.symbols plainRules "SKL" "cpu")) outcome)
        (metricSources repeatedTable.contents loopedExtras) outcomes ∧
      (extractMetrics plainContext loopedExtras repeatedText).metrics =
        outcomes.filterMap Outcome.record? ∧
      (∃ findings, (extractMetrics plainContext loopedExtras repeatedText).diagnostics =
          repeatedTable.contents.diagnostics ++ findings ∧
        findings.Perm (outcomes.filterMap Outcome.finding?)) ∧
      ∀ (i : Nat) (r : Metric), outcomes[i]? = some (.merged r) →
        ∃ j < i, outcomes[j]? = some (.emitted r) := by
  have hcolumn : plainRules.columnFor? "SKL" = some ⟨"SKL", [], none⟩ := by decide
  exact ⟨hcolumn, buildTable_repeatedText,
    @extractMetrics_accounts_for_every_metric plainContext _ _ _ loopedExtras hcolumn
      buildTable_repeatedText⟩

end TopdownMetrics

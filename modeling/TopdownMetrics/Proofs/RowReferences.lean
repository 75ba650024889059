import TopdownMetrics.Proofs.Accounting
import TopdownMetrics.Proofs.ResolvedRendering
import TopdownMetrics.Proofs.TableRows

/-!
# References to the metrics of a table

Whether a row is emitted depends on its own formula or the one that the rules force on it;
what a reference to its name becomes depends on the formula of the last row of that name.
The two agree, and the reference stays a reference, unless that last formula is marked as
not available.  Then the reference becomes zero although the metric may well be emitted,
from a forced formula or from an earlier row.
-/

namespace TopdownMetrics

open Formula

/-- The extraction emits the record of a row. -/
def EmitsRow (ctx : ExtractionContext) (extra : List ExtraMetric) (text : String)
    (contents : TableContents) (spec : MetricSpec) : Prop :=
  ∃ d, draftOfSpec ctx (Scope.ofArch contents.symbols ctx.rules ctx.arch ctx.pmu) spec = .ok d ∧
    d.toMetric ctx.rules ctx.pmu ∈ (extractMetrics ctx extra text).metrics

theorem Formula.Scope.step_bare_of_info {s : Scope} {name formula : String}
    (hinfo : s.table.info[name]? = some formula) (hignored : name ∉ s.rules.ignoredMetrics) :
    s.step (.bare name) =
      if Text.trim formula = "#NA" then .ok (.num "0")
      else .ok (.metric (s.table.canonicalName name)) := by
  show s.bareReference (.bare name) = _
  unfold Scope.bareReference
  simp [Symbol.bare, Symbol.isQualified, hinfo, hignored]

/-- The formula from which the record of a row is made. -/
def Formula.Scope.recordFormula (s : Scope) (spec : MetricSpec) : String :=
  (s.arch.forcedFormulas.lookup spec.name).getD spec.formula

theorem resolveText_eq_ok_iff {s : Scope} {formula text : String} :
    resolveText s formula = .ok text ↔
      ∃ own tree, s.resolve formula = .ok own ∧
        withCompanionSlots s.rules.slots own = .ok tree ∧ tree.render = text := by
  unfold resolveText
  constructor
  · intro h
    obtain ⟨own, hown, h⟩ := bind_eq_ok_iff.1 h
    obtain ⟨tree, htree, h⟩ := bind_eq_ok_iff.1 h
    exact ⟨own, tree, hown, mapError_eq_ok_iff.1 htree, Except.ok.inj h⟩
  · rintro ⟨own, tree, hown, htree, rfl⟩
    have hslots : (withCompanionSlots s.rules.slots own).mapError ResolveError.parse = .ok tree :=
      mapError_eq_ok_iff.2 htree
    exact bind_eq_ok_iff.2 ⟨own, hown, bind_eq_ok_iff.2 ⟨tree, hslots, rfl⟩⟩

theorem draftOfSpec_eq_ok_iff {ctx : ExtractionContext} {scope : Scope} {spec : MetricSpec}
    {d : Draft} :
    draftOfSpec ctx scope spec = .ok d ↔
      spec.name ∉ ctx.rules.ignoredMetrics ∧ spec.name ∉ scope.arch.droppedMetrics ∧
        isUnavailable (scope.recordFormula spec) = false ∧
        ∃ text, resolveText scope (scope.recordFormula spec) = .ok text ∧
          d = ⟨spec.name, text, spec.groups, spec.description, spec.locate, spec.scaleUnit,
            true⟩ := by
  unfold draftOfSpec
  by_cases hignored : spec.name ∈ ctx.rules.ignoredMetrics
  · simp [hignored]
  by_cases hdropped : spec.name ∈ scope.arch.droppedMetrics
  · simp [hignored, hdropped]
  simp only [List.contains_eq_mem, hignored, hdropped, decide_false, Bool.false_eq_true,
    if_false, not_false_eq_true, true_and, Scope.recordFormula]
  cases isUnavailable ((scope.arch.forcedFormulas.lookup spec.name).getD spec.formula) with
  | true => simp
  | false =>
    cases resolveText scope ((scope.arch.forcedFormulas.lookup spec.name).getD spec.formula) with
    | error cause => simp
    | ok text => simp [eq_comm]

/-- A row with an unavailable formula has a draft only if the rules force another formula
on it. -/
theorem forced_of_draftOfSpec {ctx : ExtractionContext} {scope : Scope} {spec : MetricSpec}
    {d : Draft} (h : draftOfSpec ctx scope spec = .ok d) (hformula : spec.formula = "#NA") :
    (scope.arch.forcedFormulas.lookup spec.name).isSome = true := by
  obtain ⟨_, _, havailable, _⟩ := draftOfSpec_eq_ok_iff.1 h
  cases hforced : scope.arch.forcedFormulas.lookup spec.name with
  | some formula => rfl
  | none =>
    simp [Scope.recordFormula, hforced, hformula, isUnavailable] at havailable

theorem exists_findRev?_of_mem {α : Type} {l : List α} {p : α → Bool} {a : α} (ha : a ∈ l)
    (hp : p a = true) : ∃ last ∈ l, l.findRev? p = some last := by
  rw [List.findRev?_eq_find?_reverse]
  have hsome : (l.reverse.find? p).isSome = true :=
    List.find?_isSome.2 ⟨a, List.mem_reverse.2 ha, hp⟩
  obtain ⟨last, hlast⟩ := Option.isSome_iff_exists.1 hsome
  exact ⟨last, List.mem_reverse.1 (List.mem_of_find?_eq_some hlast), hlast⟩

theorem exists_last_row {specs : List MetricSpec} {spec : MetricSpec} (hspec : spec ∈ specs) :
    ∃ last ∈ specs, specs.findRev? (·.tableName == spec.tableName) = some last :=
  exists_findRev?_of_mem hspec (beq_self_eq_true _)

/-- A reference to the table name of an emitted row is the metric of that name, unless the
last row of the name is marked as not available.  In that case it is zero, and the record
comes from a forced formula or from an earlier row. -/
theorem step_of_emitted_row {ctx : ExtractionContext} {text : String} {column : FormulaColumn}
    {built : BuiltTable} {extra : List ExtraMetric} {spec : MetricSpec}
    (hbuilt : buildTable text ctx.arch column ctx.rules = .ok built)
    (hspec : spec ∈ built.contents.metrics)
    (hemitted : EmitsRow ctx extra text built.contents spec)
    (hignored : spec.tableName ∉ ctx.rules.ignoredMetrics) :
    let scope := Scope.ofArch built.contents.symbols ctx.rules ctx.arch ctx.pmu
    ∃ last, built.contents.metrics.findRev? (·.tableName == spec.tableName) = some last ∧
      (last.formula ≠ "#NA" → scope.step (.bare spec.tableName) =
        .ok (.metric (built.contents.symbols.canonicalName spec.tableName))) ∧
      (last.formula = "#NA" → scope.step (.bare spec.tableName) = .ok (.num "0") ∧
        ((scope.arch.forcedFormulas.lookup spec.name).isSome = true ∨ last ≠ spec)) := by
  intro scope
  obtain ⟨last, hmem, hlast⟩ := exists_last_row hspec
  have hinfo : scope.table.info[spec.tableName]? = some last.formula := by
    have hfind := getElem?_info_of_buildTable hbuilt spec.tableName
    rw [hlast] at hfind
    exact hfind
  have hstep := Scope.step_bare_of_info hinfo hignored
  rw [trim_formula_of_buildTable hbuilt hmem] at hstep
  refine ⟨last, hlast, ?_, ?_⟩
  · intro hformula
    rw [hstep, if_neg hformula]
    rfl
  · intro hformula
    refine ⟨by rw [hstep, if_pos hformula], ?_⟩
    -- If the row is the last of its name, its own formula is the unavailable one.
    by_cases hsame : last = spec
    · obtain ⟨d, hdraft, _⟩ := hemitted
      rw [hsame] at hformula
      exact .inl (forced_of_draftOfSpec hdraft hformula)
    · exact .inr hsame

/-! ### A repeated name -/

theorem uncoreFrequency?_eq_none {s : Scope} (h : s.table.info.contains socketClocks = false) :
    uncoreFrequency? s = none := by
  simp [uncoreFrequency?, h]

theorem Formula.Scope.step_bare_of_none {s : Scope} {name : String}
    (hinfo : s.table.info[name]? = none) :
    s.step (.bare name) = .ok (.event (.plain name)) := by
  show s.bareReference (.bare name) = _
  unfold Scope.bareReference
  simp [Symbol.bare, Symbol.isQualified, hinfo]

theorem Formula.Scope.settle_of_event {s : Scope} {name : String}
    (hinfo : s.table.info[name]? = none) (passes : Nat) :
    s.settle (passes + 1) (.symbol (.bare name)) = .ok (.event (.plain name)) := by
  have hstep : s.substitute (.symbol (.bare name)) = .ok (.event (.plain name)) :=
    Scope.step_bare_of_none hinfo
  rw [(Scope.settle_of_pass rfl hstep (Expr.simplified_event _) passes).1]
  exact (s.settle_of_done rfl passes).1

theorem Formula.Scope.resolve_of_event {s : Scope} {name : String}
    (hparse : s.parseFragment name = .ok (.symbol (.bare name)))
    (hinfo : s.table.info[name]? = none) :
    s.resolve name = .ok (.event (.plain name)) := by
  rw [(Scope.resolve_of_parse hparse (Expr.simplified_symbol _)).1]
  exact Scope.settle_of_event hinfo (passLimit - 1)

theorem Formula.withCompanionSlots_of_not_family {slots : SlotsRule} {e : Expr}
    (hfamily : Text.contains e.render slots.family = false) :
    withCompanionSlots slots e = .ok e := by
  unfold withCompanionSlots
  simp [hfamily]

theorem resolveText_of_event {s : Scope} {name : String}
    (hparse : s.parseFragment name = .ok (.symbol (.bare name)))
    (hinfo : s.table.info[name]? = none)
    (hfamily : Text.contains name s.rules.slots.family = false) :
    resolveText s name = .ok name :=
  resolveText_eq_ok_iff.2 ⟨_, .event (.plain name), Scope.resolve_of_event hparse hinfo,
    withCompanionSlots_of_not_family hfamily, rfl⟩

/-- The context of the table in which `IPC` stands twice, with the events it counts. -/
def repeatedContext : ExtractionContext :=
  { plainContext with
    catalog := ({} : EventCatalog).registerAll [{ name := "CYCLES" }, { name := "INSTS" }] }

def repeatedScope : Scope :=
  Scope.ofArch repeatedTable.contents.symbols plainRules "SKL" "cpu"

/-- A row for which nothing but names and a formula is given. -/
def plainRow (name description formula : String) : MetricSpec :=
  ⟨name, name, formula, description, none, none, none⟩

def plainDraft (name description formula : String) : Draft :=
  ⟨name, formula, none, description, none, none, true⟩

theorem metrics_repeatedTable :
    repeatedTable.contents.metrics =
      [plainRow "CLKS" "Cycles" "CYCLES", plainRow "IPC" "Rate" "INSTS",
        plainRow "IPC" "Rate" "#NA"] :=
  rfl

theorem draftOfSpec_plainRow {name description event : String}
    (hparse : repeatedScope.parseFragment event = .ok (.symbol (.bare event)))
    (hinfo : repeatedScope.table.info[event]? = none)
    (hfamily : Text.contains event "topdown" = false)
    (havailable : isUnavailable event = false) :
    draftOfSpec repeatedContext repeatedScope (plainRow name description event) =
      .ok (plainDraft name description event) := by
  have htext := resolveText_of_event hparse hinfo hfamily
  exact draftOfSpec_eq_ok_iff.2
    ⟨List.not_mem_nil, List.not_mem_nil, havailable, event, htext, rfl⟩

theorem emitsRow_repeated :
    EmitsRow repeatedContext [] repeatedText repeatedTable.contents
        (plainRow "CLKS" "Cycles" "CYCLES") ∧
      EmitsRow repeatedContext [] repeatedText repeatedTable.contents
        (plainRow "IPC" "Rate" "INSTS") := by
  have hcycles : draftOfSpec repeatedContext repeatedScope (plainRow "CLKS" "Cycles" "CYCLES") =
      .ok (plainDraft "CLKS" "Cycles" "CYCLES") :=
    draftOfSpec_plainRow
      (Scope.parseFragment_of_render rfl rfl (by decide) (by decide))
      rfl rfl (by decide)
  have hinsts : draftOfSpec repeatedContext repeatedScope (plainRow "IPC" "Rate" "INSTS") =
      .ok (plainDraft "IPC" "Rate" "INSTS") :=
    draftOfSpec_plainRow
      (Scope.parseFragment_of_render rfl rfl (by decide) (by decide))
      rfl rfl (by decide)
  have hnone : draftOfSpec repeatedContext repeatedScope (plainRow "IPC" "Rate" "#NA") =
      .error (.info (.missingFormula "IPC" "SKL")) := rfl
  have huncore : uncoreFrequency? repeatedScope = none :=
    uncoreFrequency?_eq_none rfl
  have hdrafts : extractionDrafts repeatedContext [] repeatedTable.contents =
      [plainDraft "CLKS" "Cycles" "CYCLES", plainDraft "IPC" "Rate" "INSTS"] := by
    show (partitionDrafts (repeatedTable.contents.metrics.map
      (draftOfSpec repeatedContext repeatedScope) ++
        (uncoreFrequency? repeatedScope).toList)).1 ++ [] = _
    rw [metrics_repeatedTable, huncore]
    simp only [List.map_cons, List.map_nil, hcycles, hinsts, hnone]
    rfl
  have hcolumn : repeatedContext.rules.columnFor? repeatedContext.arch =
      some ⟨"SKL", [], none⟩ := by decide
  have hmetrics : (extractMetrics repeatedContext [] repeatedText).metrics =
      [(plainDraft "CLKS" "Cycles" "CYCLES").toMetric plainRules "cpu",
        (plainDraft "IPC" "Rate" "INSTS").toMetric plainRules "cpu"] := by
    rw [extractMetrics_of_buildTable hcolumn buildTable_repeatedText, extractContents_metrics,
      hdrafts]
    decide +kernel
  constructor
  · exact ⟨_, hcycles, by rw [hmetrics]; exact List.mem_cons_self⟩
  · exact ⟨_, hinsts, by rw [hmetrics]; exact List.mem_cons_of_mem _ List.mem_cons_self⟩

/-- `CLKS` stands in one row only, and a reference to it stays one. -/
theorem step_repeatedScope_clks :
    EmitsRow repeatedContext [] repeatedText repeatedTable.contents
        (plainRow "CLKS" "Cycles" "CYCLES") ∧
      plainRow "CLKS" "Cycles" "CYCLES" ∈ repeatedTable.contents.metrics ∧
      "CLKS" ∉ plainRules.ignoredMetrics ∧
      repeatedScope.step (.bare "CLKS") = .ok (.metric "CLKS") := by
  have hmem : plainRow "CLKS" "Cycles" "CYCLES" ∈ repeatedTable.contents.metrics := by
    rw [metrics_repeatedTable]
    exact List.mem_cons_self
  have hignored : (plainRow "CLKS" "Cycles" "CYCLES").tableName ∉
      repeatedContext.rules.ignoredMetrics := List.not_mem_nil
  obtain ⟨last, hlast, hmetric, -⟩ := @step_of_emitted_row repeatedContext _ _ _ _ _
    buildTable_repeatedText hmem emitsRow_repeated.1 hignored
  have hformula : last = plainRow "CLKS" "Cycles" "CYCLES" := by
    rw [metrics_repeatedTable] at hlast
    exact (Option.some.inj hlast).symm
  have hname : repeatedTable.contents.symbols.canonicalName "CLKS" = "CLKS" := by
    decide +kernel
  refine ⟨emitsRow_repeated.1, hmem, hignored, (hmetric ?_).trans ?_⟩
  · rw [hformula]
    decide
  · exact congrArg (fun name => Except.ok (Expr.metric name)) hname

/-- The record of `IPC` is emitted, yet a reference to `IPC` becomes zero. -/
theorem step_repeatedScope_ipc :
    EmitsRow repeatedContext [] repeatedText repeatedTable.contents
        (plainRow "IPC" "Rate" "INSTS") ∧
      plainRow "IPC" "Rate" "INSTS" ∈ repeatedTable.contents.metrics ∧
      "IPC" ∉ plainRules.ignoredMetrics ∧
      repeatedScope.step (.bare "IPC") = .ok (.num "0") ∧
      repeatedScope.step (.bare "IPC") ≠
        .ok (.metric (repeatedTable.contents.symbols.canonicalName "IPC")) := by
  have hinfo : repeatedScope.table.info["IPC"]? = some "#NA" := by decide +kernel
  have hignored : "IPC" ∉ repeatedScope.rules.ignoredMetrics := List.not_mem_nil
  have hzero : repeatedScope.step (.bare "IPC") = .ok (.num "0") := by
    rw [Scope.step_bare_of_info hinfo hignored, if_pos (by decide)]
  refine ⟨emitsRow_repeated.2, ?_, hignored, hzero, ?_⟩
  · rw [metrics_repeatedTable]
    exact List.mem_cons_of_mem _ List.mem_cons_self
  · rw [hzero]
    intro h
    cases h

end TopdownMetrics

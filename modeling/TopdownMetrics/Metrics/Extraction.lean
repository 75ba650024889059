import TopdownMetrics.Formula.Resolve
import TopdownMetrics.Metrics.Emission
import TopdownMetrics.Metrics.ReferenceCheck
import TopdownMetrics.Table.Build

/-!
# Extracting the metrics of a table

The rows of a table become drafts with resolved formulas.  A draft is kept only when
every name in its formula is an event or a draft that is kept; what is left is emitted.
-/

namespace TopdownMetrics

open Formula

structure Extraction where
  metrics : List Metric := []
  diagnostics : List Diagnostic := []

def resolveFinding (metric : String) : ResolveError → Diagnostic
  | .unresolvedSymbol symbol => .warning (.unresolvedSymbol metric symbol)
  | e => .warning (.invalidFormula metric e.message)

/-- The text of a resolved formula, with the slots term where it is needed. -/
def resolveText (scope : Scope) (formula : String) : Except ResolveError String := do
  let e ← scope.resolve formula
  return (← (withCompanionSlots scope.rules.slots e).mapError .parse).render

def isUnavailable (formula : String) : Bool :=
  formula == "#NA" || formula == "N/A"

/-- The draft of a metric of the table, or why there is none. -/
def draftOfSpec (ctx : ExtractionContext) (scope : Scope) (spec : MetricSpec) :
    Except Diagnostic Draft :=
  if ctx.rules.ignoredMetrics.contains spec.name then
    .error (.info (.skipped spec.name "ignored metric"))
  else if scope.arch.droppedMetrics.contains spec.name then
    .error (.info (.skipped spec.name ("not supported on " ++ ctx.arch)))
  else
    let formula := (scope.arch.forcedFormulas.lookup spec.name).getD spec.formula
    if isUnavailable formula then .error (.info (.missingFormula spec.name ctx.arch))
    else
      match resolveText scope formula with
      | .error e => .error (resolveFinding spec.name e)
      | .ok text =>
        .ok {
          name := spec.name
          expr := text
          groups := spec.groups
          description := spec.description
          locate := spec.locate
          scaleUnit := spec.scaleUnit
          pmuScoped := true }

/-- The metric from which the frequency of the uncore is derived. -/
def socketClocks : String := "Socket_CLKS"

def uncoreFrequencyFormula : String :=
  "Socket_CLKS / #num_dies / duration_time / 1000000000"

def uncoreFrequencyName : String := "UNCORE_FREQ"

def uncoreFrequencyDraft (scope : Scope) : Except Diagnostic Draft :=
  match scope.resolve uncoreFrequencyFormula with
  | .error e => .error (resolveFinding uncoreFrequencyName e)
  | .ok e => .ok {
      name := uncoreFrequencyName
      expr := e.render
      groups := some "SoC"
      description := "Uncore frequency per die [GHZ]"
      locate := none
      scaleUnit := none
      pmuScoped := false }

/-- The draft of the uncore frequency, if the table counts socket clocks. -/
def uncoreFrequency? (scope : Scope) : Option (Except Diagnostic Draft) :=
  if scope.table.info.contains socketClocks then some (uncoreFrequencyDraft scope) else none

/-- The drafts among the results and the findings among them. -/
def partitionDrafts : List (Except Diagnostic Draft) → List Draft × List Diagnostic
  | [] => ([], [])
  | .ok d :: rest =>
    let (ds, findings) := partitionDrafts rest
    (d :: ds, findings)
  | .error finding :: rest =>
    let (ds, findings) := partitionDrafts rest
    (ds, finding :: findings)

def extractContents (ctx : ExtractionContext) (extra : List ExtraMetric)
    (contents : TableContents) : Extraction :=
  let scope := Scope.ofArch contents.symbols ctx.rules ctx.arch ctx.pmu
  let results := contents.metrics.map (draftOfSpec ctx scope) ++ (uncoreFrequency? scope).toList
  let (drafts, dropped) := partitionDrafts results
  let (accepted, unresolved) := checkReferences ctx (drafts ++ extra.map ExtraMetric.draft)
  let emission := Emission.ofDrafts ctx.rules ctx.pmu accepted
  { metrics := emission.records
    diagnostics := contents.diagnostics ++ dropped ++ unresolved ++ emission.diagnostics }

/-- The records of a table for an architecture.  A table that cannot be read yields none
and a finding. -/
def extractMetrics (ctx : ExtractionContext) (extra : List ExtraMetric) (text : String) :
    Extraction :=
  match ctx.rules.columnFor? ctx.arch with
  | none => {}
  | some column =>
    match buildTable text ctx.arch column ctx.rules with
    | .ok built => extractContents ctx extra built.contents
    | .error e =>
      let missing := match e with
        | .missingColumn column => column
        | e => e.message
      { diagnostics := [.warning (.malformedTable ctx.arch missing)] }

end TopdownMetrics

import Std.Data.String.ToNat
import TopdownMetrics.Generation.Generate
import TopdownMetrics.Proofs.FirstDrafts
import TopdownMetrics.Proofs.RowReferences

/-!
# The records of a model

The records of one table have different names.  The records of a model are those of its
tables and the residencies of its idle states, put one behind the other without looking for
names that come again.  Records of one name are told apart by their units, as long as each
table has a unit of its own; but the uncore frequency and the residencies carry no unit.
-/

namespace TopdownMetrics

open Formula

/-! ## The records of a table -/

theorem nodup_names_extractMetrics (ctx : ExtractionContext) (extra : List ExtraMetric)
    (text : String) : ((extractMetrics ctx extra text).metrics.map (·.name)).Nodup := by
  unfold extractMetrics
  cases ctx.rules.columnFor? ctx.arch with
  | none => exact List.nodup_nil
  | some column =>
    cases hbuilt : buildTable text ctx.arch column ctx.rules with
    | error e => simp [hbuilt]
    | ok built =>
      simp only [hbuilt]
      rw [extractContents_metrics]
      exact Emission.nodup_names _

theorem pmuScoped_of_mem_extractionDrafts {ctx : ExtractionContext} {extra : List ExtraMetric}
    {contents : TableContents} {d : Draft} (hd : d ∈ extractionDrafts ctx extra contents) :
    d.pmuScoped = true ∨ d.name = uncoreFrequencyName := by
  obtain ⟨s, _, hdraft⟩ := (mem_extractionDrafts_iff ctx extra contents).1 hd
  cases s with
  | row spec =>
    obtain ⟨_, _, _, text, _, rfl⟩ := draftOfSpec_eq_ok_iff.1 hdraft
    exact .inl rfl
  | uncoreFrequency =>
    have hdraft : uncoreFrequencyDraft _ = .ok d := hdraft
    unfold uncoreFrequencyDraft at hdraft
    split at hdraft
    · cases hdraft
    · cases hdraft
      exact .inr rfl
  | extra m =>
    cases hdraft
    exact .inl rfl

/-- The mark of the records of a table that is counted on a unit. -/
def unitMark (pmu : String) : Option String :=
  if pmu = defaultPmu then none else some pmu

theorem unit_of_mem_extractMetrics {ctx : ExtractionContext} {extra : List ExtraMetric}
    {text : String} {r : Metric} (hr : r ∈ (extractMetrics ctx extra text).metrics) :
    r.unit = unitMark ctx.pmu ∨ r.name = uncoreFrequencyName ∧ r.unit = none := by
  obtain ⟨contents, hcontents⟩ := exists_contents_of_mem_metrics hr
  rw [hcontents, extractContents_metrics] at hr
  obtain ⟨d, hd, rfl⟩ := Emission.exists_draft_of_mem hr
  have hmem := (checkReferences_drops ctx (extractionDrafts ctx extra contents)).1.sublist.subset hd
  have hunit : (d.toMetric ctx.rules ctx.pmu).unit =
      if d.pmuScoped ∧ ctx.pmu ≠ defaultPmu then some ctx.pmu else none := rfl
  rw [hunit]
  unfold unitMark
  by_cases hscoped : d.pmuScoped = true
  · left
    by_cases hpmu : ctx.pmu = defaultPmu
    · simp [hpmu]
    · simp [hscoped, hpmu]
  · right
    have hname := (pmuScoped_of_mem_extractionDrafts hmem).resolve_left hscoped
    exact ⟨hname, if_neg fun h => hscoped h.1⟩

/-! ## Residencies -/

/-- What stands behind the number of the state in the name of a residency. -/
def IdleScope.nameEnd : IdleScope → String
  | .core => "_Core_Residency"
  | .package => "_Pkg_Residency"

theorem name_residencyMetric (scope : IdleScope) (state : Nat) :
    (residencyMetric scope state).name.toList =
      'C' :: (state.repr.toList ++ scope.nameEnd.toList) := by
  cases scope with
  | core => simp [residencyMetric, IdleScope.nameEnd, toString]
  | package => simp [residencyMetric, IdleScope.nameEnd, toString]

theorem residencyMetric_inj {scope other : IdleScope} {state number : Nat}
    (h : (residencyMetric scope state).name = (residencyMetric other number).name) :
    scope = other ∧ state = number := by
  have hnames := congrArg String.toList h
  rw [name_residencyMetric, name_residencyMetric, List.cons_inj_right] at hnames
  have hscope : scope = other := by
    -- The names end in different letters in front of `_Residency`.
    have hends := congrArg List.reverse hnames
    cases scope with
    | core =>
      cases other with
      | core => rfl
      | package => simp [IdleScope.nameEnd] at hends
    | package =>
      cases other with
      | core => simp [IdleScope.nameEnd] at hends
      | package => rfl
  subst hscope
  exact ⟨rfl, Nat.repr_inj.1 (String.toList_inj.1 (List.append_cancel_right hnames))⟩

theorem pairwise_residencies {scope : IdleScope} {states : List Nat} (h : states.Nodup) :
    (states.map (residencyMetric scope)).Pairwise fun r s => r.name ≠ s.name := by
  rw [List.pairwise_map]
  apply h.imp
  intro state number hne hname
  exact hne (residencyMetric_inj hname).2

theorem pairwise_idleStateMetrics {rules : Rules} {arch : String}
    (h : ∀ states, rules.idleStatesFor? arch = some states →
      states.core.Nodup ∧ states.package.Nodup) :
    (idleStateMetrics rules arch).Pairwise fun r s => r.name ≠ s.name := by
  unfold idleStateMetrics
  cases hstates : rules.idleStatesFor? arch with
  | none => exact .nil
  | some states =>
    obtain ⟨hcore, hpackage⟩ := h states hstates
    rw [List.pairwise_append]
    refine ⟨pairwise_residencies hcore, pairwise_residencies hpackage, ?_⟩
    intro r hr s hs hname
    obtain ⟨state, _, rfl⟩ := List.mem_map.1 hr
    obtain ⟨number, _, rfl⟩ := List.mem_map.1 hs
    cases (residencyMetric_inj hname).1

/-! ## The tables of a model -/

namespace Generation

variable {model : Model} {σ : Type} {files : σ}

theorem run_bind_eq_ok {α β : Type} {x : ExceptT ModelFailure (StateM σ) α}
    {f : α → ExceptT ModelFailure (StateM σ) β} {b : β}
    (h : ((x >>= f).run.run files).1 = .ok b) :
    ∃ a after, (x.run.run files).1 = .ok a ∧ ((f a).run.run after).1 = .ok b := by
  rw [ExceptT.run_bind, StateT.run_bind] at h
  cases hx : x.run.run files with
  | mk result after =>
    rw [hx] at h
    cases result with
    | error cause => cases h
    | ok a => exact ⟨a, after, rfl, h⟩

/-- The tables that are read are those of the model, in order. -/
theorem map_fst_of_readTables [FileAccess (StateM σ)] {tables : List (MetricTable × String)}
    (h : ((readTables model : ExceptT ModelFailure (StateM σ) _).run.run files).1 =
      .ok tables) : tables.map (·.1) = model.metricTables := by
  unfold readTables at h
  generalize model.metricTables = list at h ⊢
  induction list generalizing files tables with
  | nil =>
    cases h
    rfl
  | cons table rest ih =>
    rw [List.mapM_cons] at h
    obtain ⟨first, _, hfirst, h⟩ := run_bind_eq_ok h
    obtain ⟨later, _, hlater, h⟩ := run_bind_eq_ok h
    obtain ⟨text, _, _, hfirst⟩ := run_bind_eq_ok hfirst
    cases hfirst
    cases h
    rw [List.map_cons, ih hlater]

end Generation

def Model.HasBothTables (model : Model) : Prop :=
  model.hasFile AuxiliaryFile.metricTable.kind = true ∧
    model.hasFile AuxiliaryFile.efficientMetricTable.kind = true

/-- Two tables of a model with efficient cores are counted on units of their own. -/
theorem pairwise_metricTables (model : Model) :
    model.metricTables.Pairwise fun main efficient => model.HasBothTables ∧
      (model.hasFile "atom" = true → unitMark main.pmu = some "cpu_core" ∧
        unitMark efficient.pmu = some "cpu_atom") := by
  have hmark : unitMark "cpu_core" = some "cpu_core" ∧ unitMark "cpu_atom" = some "cpu_atom" := by
    decide
  unfold Model.metricTables Model.HasBothTables Model.hasFile
  cases hmain : model.files[AuxiliaryFile.metricTable.kind]? with
  | none =>
    cases hefficient : model.files[AuxiliaryFile.efficientMetricTable.kind]? with
    | none => simp [hmain, hefficient]
    | some url => simp [hmain, hefficient]
  | some mainUrl =>
    cases hefficient : model.files[AuxiliaryFile.efficientMetricTable.kind]? with
    | none => simp [hmain, hefficient]
    | some url =>
      have hboth : AuxiliaryFile.metricTable.kind ∈ model.files ∧
          AuxiliaryFile.efficientMetricTable.kind ∈ model.files := by
        rw [Std.TreeMap.mem_iff_isSome_getElem?, Std.TreeMap.mem_iff_isSome_getElem?, hmain,
          hefficient]
        exact ⟨rfl, rfl⟩
      simp +contextual [hboth, hmark]

/-! ## The records of a model -/

/-- The records of the tables of a model. -/
def tableRecords (rules : Rules) (model : Model) (catalog : EventCatalog)
    (extra : List ExtraMetric) (tables : List (MetricTable × String)) : List Metric :=
  tables.flatMap fun (table, text) => tableMetrics rules model catalog extra table text

/-- Why a record of a model has the name and the unit of a later one. -/
inductive Clash (rules : Rules) (model : Model) (listed : List Metric) (r s : Metric) :
    Prop where
  /-- Both tables count socket clocks. -/
  | uncoreFrequency (hr : r ∈ listed) (hs : s ∈ listed) (hname : r.name = uncoreFrequencyName)
      (hunit : r.unit = none) (htables : model.HasBothTables) : Clash rules model listed r s
  /-- Both tables are counted on the default unit. -/
  | sharedUnit (hr : r ∈ listed) (hs : s ∈ listed) (htables : model.HasBothTables)
      (hatom : model.hasFile "atom" = false) : Clash rules model listed r s
  /-- A table or an extra metric has the name of a residency. -/
  | residency (hr : r ∈ listed) (hs : s ∈ idleStateMetrics rules model.shortname) :
      Clash rules model listed r s
  /-- The rules list an idle state twice. -/
  | repeatedState {states : IdleStateRule}
      (hstates : rules.idleStatesFor? model.shortname = some states)
      (hrepeated : ¬ (states.core.Nodup ∧ states.package.Nodup)) : Clash rules model listed r s

section

variable {rules : Rules} {model : Model} {catalog : EventCatalog} {extra : List ExtraMetric}
  {tables : List (MetricTable × String)}

theorem pairwise_tableMetrics (rules : Rules) (model : Model) (catalog : EventCatalog)
    (extra : List ExtraMetric) (table : MetricTable) (text : String) :
    (tableMetrics rules model catalog extra table text).Pairwise fun r s => r.name ≠ s.name := by
  unfold tableMetrics
  exact List.pairwise_map.1 (nodup_names_extractMetrics _ _ text)

theorem unit_of_mem_tableMetrics {table : MetricTable} {text : String} {r : Metric}
    (hr : r ∈ tableMetrics rules model catalog extra table text) :
    r.unit = unitMark table.pmu ∨ r.name = uncoreFrequencyName ∧ r.unit = none := by
  unfold tableMetrics at hr
  exact unit_of_mem_extractMetrics hr

theorem clash_of_two_tables {listed : List Metric} {main efficient : MetricTable}
    {text efficientText : String} {r s : Metric} (htables : model.HasBothTables)
    (hmarks : model.hasFile "atom" = true → unitMark main.pmu = some "cpu_core" ∧
      unitMark efficient.pmu = some "cpu_atom")
    (hr : r ∈ tableMetrics rules model catalog extra main text)
    (hs : s ∈ tableMetrics rules model catalog extra efficient efficientText)
    (hlistedr : r ∈ listed) (hlisteds : s ∈ listed) (hname : r.name = s.name)
    (hunit : r.unit = s.unit) : Clash rules model listed r s := by
  cases hatom : model.hasFile "atom" with
  | false => exact .sharedUnit hlistedr hlisteds htables hatom
  | true =>
    obtain ⟨hmain, hefficient⟩ := hmarks hatom
    rcases unit_of_mem_tableMetrics hr with hr | ⟨huncore, hnone⟩
    · rcases unit_of_mem_tableMetrics hs with hs | ⟨huncore, hnone⟩
      · rw [hr, hs, hmain, hefficient] at hunit
        exact absurd hunit (by decide)
      · exact .uncoreFrequency hlistedr hlisteds (hname.trans huncore) (hunit.trans hnone) htables
    · exact .uncoreFrequency hlistedr hlisteds huncore hnone htables

theorem pairwise_tableRecords (rules : Rules) (catalog : EventCatalog)
    (extra : List ExtraMetric) (htables : tables.map (·.1) = model.metricTables) :
    (tableRecords rules model catalog extra tables).Pairwise fun r s =>
      r.name = s.name → r.unit = s.unit →
        Clash rules model (tableRecords rules model catalog extra tables) r s := by
  have hpairs := pairwise_metricTables model
  rw [← htables, List.pairwise_map] at hpairs
  rw [tableRecords, List.pairwise_flatMap]
  constructor
  · intro table _
    apply (pairwise_tableMetrics rules model catalog extra table.1 table.2).imp
    intro r s hne hname
    exact absurd hname hne
  · apply hpairs.imp_of_mem
    intro main efficient hmain hefficient hboth r hr s hs
    exact clash_of_two_tables hboth.1 hboth.2 hr hs (List.mem_flatMap.2 ⟨main, hmain, hr⟩)
      (List.mem_flatMap.2 ⟨efficient, hefficient, hs⟩)

/-- A record of a model has the name and the unit of a later one only if they clash: the
uncore frequency of two tables, two tables of one unit, a record with the name of a residency,
or a residency that the rules list twice. -/
theorem pairwise_modelMetrics {files : FileTree} (rules : Rules) (catalog : EventCatalog)
    (extra : List ExtraMetric)
    (hread : ((Generation.readTables model :
      ExceptT ModelFailure (StateM FileTree) _).run.run files).1 = .ok tables) :
    (modelMetrics rules model catalog extra tables).Pairwise fun r s =>
      r.name = s.name → r.unit = s.unit →
        Clash rules model (tableRecords rules model catalog extra tables) r s := by
  have htables := pairwise_tableRecords rules catalog extra
    (Generation.map_fst_of_readTables hread)
  unfold modelMetrics
  dsimp only
  split
  · exact .nil
  · rw [List.pairwise_append]
    refine ⟨htables, ?_, fun r hr s hs _ _ => .residency hr hs⟩
    by_cases hrepeated : ∀ states, rules.idleStatesFor? model.shortname = some states →
        states.core.Nodup ∧ states.package.Nodup
    · apply (pairwise_idleStateMetrics hrepeated).imp
      intro r s hne hname
      exact absurd hname hne
    · simp only [not_forall] at hrepeated
      obtain ⟨states, hstates, hrepeated⟩ := hrepeated
      exact List.pairwise_of_forall fun r s _ _ => .repeatedState hstates hrepeated

end

/-! ### Socket clocks in both tables -/

/-- Rules under which the number of dies is a constant. -/
def dieRules : Rules :=
  { plainRules with context := ⟨["num_dies"], []⟩ }

def clockText : String :=
  "Key,Level1,Metric Description,SKL\nInfo.System,Socket_CLKS,Clocks,CLOCK\n"

def clockTable : BuiltTable :=
  ⟨"SKL", TableReading.addRows
    ⟨⟨["Key", "Level1", "Metric Description", "SKL"]⟩, ["SKL"], "SKL", dieRules⟩ {}
    [["Info.System", "Socket_CLKS", "Clocks", "CLOCK"]]⟩

/-- A model whose tables have the same text. -/
def hybridModel : Model where
  shortname := "SKL"
  longname := "skylake"
  version := "1"
  identifiers := []
  files := ((({} : Std.TreeMap String String).insert "atom" "atom.json").insert "tma metrics"
    "full.csv").insert "e-core tma metrics" "small.csv"

def hybridTables : List (MetricTable × String) :=
  [(⟨.metricTable, "full.csv", "cpu_core"⟩, clockText),
    (⟨.efficientMetricTable, "small.csv", "cpu_atom"⟩, clockText)]

def hybridFiles : FileTree where
  entries := (({} : Std.TreeMap Location FileEntry).insert ["full.csv"]
    (.file clockText.toUTF8)).insert ["small.csv"] (.file clockText.toUTF8)

theorem readTables_hybridModel :
    ((Generation.readTables hybridModel :
      ExceptT ModelFailure (StateM FileTree) _).run.run hybridFiles).1 = .ok hybridTables :=
  rfl

def clockCatalog : EventCatalog :=
  ({} : EventCatalog).registerAll
    [{ name := "CLOCK" }, { name := "num_dies" }, { name := "duration_time" }]

theorem buildTable_clockText :
    buildTable clockText "SKL" ⟨"SKL", [], none⟩ dieRules = .ok clockTable :=
  buildTable_of_split (by decide) rfl rfl rfl

def clockScope (pmu : String) : Scope :=
  Scope.ofArch clockTable.contents.symbols dieRules "SKL" pmu

/-- The clocks per die and second. -/
def clockRate (clocks dies time : Expr) : Expr :=
  .binary .div (.binary .div (.binary .div clocks dies) time) (.num "1000000000")

def uncoreSource : Expr :=
  clockRate (.symbol (.bare "Socket_CLKS")) (.symbol ⟨.hash, "num_dies", [], none⟩)
    (.symbol (.bare "duration_time"))

def uncoreTree : Expr :=
  clockRate (.metric "Socket_CLKS") (.context "num_dies") (.event (.plain "duration_time"))

theorem substitute_uncoreSource (pmu : String) :
    (clockScope pmu).substitute uncoreSource = .ok uncoreTree := by
  have hclocks : (clockScope pmu).step (.bare "Socket_CLKS") = .ok (.metric "Socket_CLKS") := by
    have hinfo : clockTable.contents.symbols.info["Socket_CLKS"]? = some "CLOCK" :=
      rfl
    have hname : clockTable.contents.symbols.canonicalName "Socket_CLKS" = "Socket_CLKS" :=
      rfl
    rw [Scope.step_bare_of_info hinfo List.not_mem_nil, if_neg (by decide)]
    exact congrArg (fun name => Except.ok (Expr.metric name)) hname
  have hdies : (clockScope pmu).step ⟨.hash, "num_dies", [], none⟩ = .ok (.context "num_dies") :=
    rfl
  have htime : (clockScope pmu).step (.bare "duration_time") =
      .ok (.event (.plain "duration_time")) := by
    exact Scope.step_bare_of_none
      (show clockTable.contents.symbols.info["duration_time"]? = none from rfl)
  simp only [uncoreSource, clockRate, Scope.substitute, hclocks, hdies, htime]
  rfl

theorem resolve_uncoreFrequencyFormula (pmu : String) :
    (clockScope pmu).resolve uncoreFrequencyFormula = .ok uncoreTree := by
  have hparse : (clockScope pmu).parseFragment uncoreFrequencyFormula = .ok uncoreSource :=
    Scope.parseFragment_of_render rfl rfl (by decide) (by decide)
  have hsource : uncoreSource.simplified = uncoreSource := by cbv
  have htree : uncoreTree.simplified = uncoreTree := by cbv
  rw [(Scope.resolve_of_parse hparse hsource).1, show passLimit = 63 + 1 from rfl,
    (Scope.settle_of_pass (by decide) (substitute_uncoreSource pmu) htree 63).1]
  exact ((clockScope pmu).settle_of_done (by decide) 63).1

def clockContext (pmu : String) : ExtractionContext :=
  ⟨dieRules, clockCatalog, "SKL", pmu⟩

def uncoreDraft : Draft :=
  ⟨uncoreFrequencyName, uncoreTree.render, some "SoC", "Uncore frequency per die [GHZ]", none,
    none, false⟩

theorem extractionDrafts_clockTable (pmu : String) :
    extractionDrafts (clockContext pmu) [] clockTable.contents =
      [plainDraft "Socket_CLKS" "Clocks" "CLOCK", uncoreDraft] := by
  have hrows : clockTable.contents.metrics = [plainRow "Socket_CLKS" "Clocks" "CLOCK"] :=
    rfl
  have hinfo : (clockScope pmu).table.info["CLOCK"]? = none :=
    show clockTable.contents.symbols.info["CLOCK"]? = none from rfl
  have hparse : (clockScope pmu).parseFragment "CLOCK" = .ok (.symbol (.bare "CLOCK")) :=
    Scope.parseFragment_of_render rfl rfl (by decide) (by decide)
  have havailable : isUnavailable "CLOCK" = false := by decide
  have hfamily : Text.contains "CLOCK" "topdown" = false := rfl
  have hrow : draftOfSpec (clockContext pmu) (clockScope pmu)
      (plainRow "Socket_CLKS" "Clocks" "CLOCK") =
      .ok (plainDraft "Socket_CLKS" "Clocks" "CLOCK") :=
    draftOfSpec_eq_ok_iff.2 ⟨List.not_mem_nil, List.not_mem_nil, havailable, "CLOCK",
      resolveText_of_event hparse hinfo hfamily, rfl⟩
  have huncore : uncoreFrequency? (clockScope pmu) = some (.ok uncoreDraft) := by
    have hclocks : (clockScope pmu).table.info.contains socketClocks = true :=
      show clockTable.contents.symbols.info.contains socketClocks = true from rfl
    unfold uncoreFrequency? uncoreFrequencyDraft
    rw [if_pos hclocks, resolve_uncoreFrequencyFormula]
    rfl
  show (partitionDrafts (clockTable.contents.metrics.map
    (draftOfSpec (clockContext pmu) (clockScope pmu)) ++
      (uncoreFrequency? (clockScope pmu)).toList)).1 ++ [] = _
  rw [hrows, huncore]
  simp only [List.map_cons, List.map_nil, hrow]
  rfl

/-- Both tables emit the uncore frequency without a unit. -/
theorem tableRecords_hybridModel :
    tableRecords dieRules hybridModel clockCatalog [] hybridTables =
      [(plainDraft "Socket_CLKS" "Clocks" "CLOCK").toMetric dieRules "cpu_core",
        uncoreDraft.toMetric dieRules "cpu_core",
        (plainDraft "Socket_CLKS" "Clocks" "CLOCK").toMetric dieRules "cpu_atom",
        uncoreDraft.toMetric dieRules "cpu_atom"] := by
  have hrecords (pmu : String) : (extractMetrics (clockContext pmu) [] clockText).metrics =
      (Emission.ofDrafts dieRules pmu (checkReferences (clockContext pmu)
        [plainDraft "Socket_CLKS" "Clocks" "CLOCK", uncoreDraft]).1).records := by
    have hcolumn : (clockContext pmu).rules.columnFor? (clockContext pmu).arch =
        some ⟨"SKL", [], none⟩ :=
      show dieRules.columnFor? "SKL" = _ by decide
    rw [extractMetrics_of_buildTable hcolumn buildTable_clockText, extractContents_metrics,
      extractionDrafts_clockTable]
    rfl
  show (extractMetrics (clockContext "cpu_core") [] clockText).metrics ++
    ((extractMetrics (clockContext "cpu_atom") [] clockText).metrics ++ []) = _
  rw [hrecords, hrecords]
  decide +kernel

/-- Nothing but the uncore frequency comes twice. -/
theorem clashes_hybridModel :
    ((Generation.readTables hybridModel :
        ExceptT ModelFailure (StateM FileTree) _).run.run hybridFiles).1 = .ok hybridTables ∧
      (modelMetrics dieRules hybridModel clockCatalog [] hybridTables).Pairwise fun r s =>
        r.name = s.name → r.unit = s.unit → r.name = uncoreFrequencyName := by
  refine ⟨readTables_hybridModel, ?_⟩
  have hpairwise := pairwise_modelMetrics dieRules clockCatalog [] readTables_hybridModel
  apply hpairwise.imp
  intro r s hclash hname hunit
  cases hclash hname hunit with
  | uncoreFrequency _ _ huncore _ _ => exact huncore
  | sharedUnit _ _ _ hatom => exact absurd hatom (by decide)
  | residency _ hs => exact absurd hs (List.not_mem_nil)
  | repeatedState hstates _ => cases hstates

/-- Two records have the name of the uncore frequency and no unit. -/
theorem not_pairwise_hybridModel :
    ((Generation.readTables hybridModel :
        ExceptT ModelFailure (StateM FileTree) _).run.run hybridFiles).1 = .ok hybridTables ∧
      ¬ (modelMetrics dieRules hybridModel clockCatalog [] hybridTables).Pairwise fun r s =>
        ¬ (r.name = s.name ∧ r.unit = s.unit) := by
  refine ⟨readTables_hybridModel, ?_⟩
  show ¬ (if (tableRecords dieRules hybridModel clockCatalog [] hybridTables).isEmpty then []
    else tableRecords dieRules hybridModel clockCatalog [] hybridTables ++
      idleStateMetrics dieRules "SKL").Pairwise _
  rw [tableRecords_hybridModel]
  decide

end TopdownMetrics

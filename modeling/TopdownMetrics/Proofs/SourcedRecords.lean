import TopdownMetrics.Proofs.ModelRecords
import TopdownMetrics.Proofs.PlannedReleases

/-!
# Records from sources

The records of a model are those of the events, extra metrics and tables that are read for it.
Of its files only those with events and the tables have to be there.  If the sources hold them,
reading succeeds; and then a row with a constant formula has a record, whatever the events and
the extra metrics are.
-/

namespace TopdownMetrics

open Formula

/-- Under the rules, what is read from the sources for the model gives it the record. -/
def Model.HasRecordIn (m : Model) (rules : Rules) (s : Sources) (r : Metric) : Prop :=
  ∃ (events : EventStore) (tables : List (MetricTable × String)),
    ((Generation.readEvents m :
        ExceptT ModelFailure (StateM Workspace) _).run.run ⟨s, {}⟩).1 = .ok events ∧
      ((Generation.readTables m :
        ExceptT ModelFailure (StateM Workspace) _).run.run ⟨s, {}⟩).1 = .ok tables ∧
      r ∈ modelMetrics rules m events.catalog
        ((Generation.readExtraMetrics m : StateM Workspace _).run ⟨s, {}⟩).1 tables

/-! ## Reading what is there -/

/-- The sources have the given texts for the files of a model that have to be there, and those
of events hold events. -/
structure Model.FoundIn (m : Model) (s : Sources) (texts : String → String) : Prop where
  events : ∀ file ∈ Generation.eventFiles m,
    Source.decode file.2 s[Source.path file.2]? = .ok (texts file.2) ∧
      (Event.ofFile? (texts file.2)).isSome = true
  tables : ∀ table ∈ m.metricTables,
    Source.decode table.url s[Source.path table.url]? = .ok (texts table.url)

namespace Generation

variable {M : Type → Type} [Monad M] [FileAccess M] [Runs M] {model : Model} {w : Workspace}

theorem run_readSource {url text : String}
    (h : Source.decode url w.sources[Source.path url]? = .ok text) :
    Runs.Run (readSource url : ExceptT ModelFailure M String) w text w := by
  have hread := Source.run_read (m := M) url w
  rw [h] at hread
  exact Runs.bind hread (Runs.pure _ w)

theorem exists_run_addEventFile {s : EventStore} {file : String × String} {text : String}
    (h : Source.decode file.2 w.sources[Source.path file.2]? = .ok text)
    (hevents : (Event.ofFile? text).isSome = true) :
    ∃ s', Runs.Run (addEventFile model s file : ExceptT ModelFailure M EventStore) w s' w := by
  obtain ⟨events, hevents⟩ := Option.isSome_iff_exists.1 hevents
  have hadded : s.addFile? file.1 text model.isHybrid = some
      (EventStore.addEvents (.ofKind file.1 model.isHybrid) s [] 0 events) := by
    unfold EventStore.addFile?
    rw [hevents]
    rfl
  unfold addEventFile
  refine ⟨(EventStore.addEvents (.ofKind file.1 model.isHybrid) s [] 0 events).1,
    Runs.bind (run_readSource h) ?_⟩
  rw [hadded]
  exact Runs.pure _ w

theorem exists_run_foldlM_addEventFile {texts : String → String} {files : List (String × String)}
    (h : ∀ file ∈ files, Source.decode file.2 w.sources[Source.path file.2]? = .ok (texts file.2) ∧
      (Event.ofFile? (texts file.2)).isSome = true) (s : EventStore) :
    ∃ s', Runs.Run (files.foldlM (addEventFile model) s : ExceptT ModelFailure M EventStore)
      w s' w := by
  induction files generalizing s with
  | nil => exact ⟨s, Runs.pure s w⟩
  | cons file files ih =>
    obtain ⟨hfile, hevents⟩ := h file List.mem_cons_self
    have hfirst : ∃ next, Runs.Run
        (addEventFile model s file : ExceptT ModelFailure M EventStore) w next w :=
      exists_run_addEventFile hfile hevents
    obtain ⟨next, hnext⟩ := hfirst
    obtain ⟨s', hs'⟩ := ih (fun later hlater => h later (List.mem_cons_of_mem _ hlater)) next
    rw [List.foldlM_cons]
    exact ⟨s', Runs.bind hnext hs'⟩

/-- Rewrites that cannot be read are no failure. -/
theorem exists_run_readEvents {texts : String → String} (h : model.FoundIn w.sources texts) :
    ∃ events, Runs.Run (readEvents model : ExceptT ModelFailure M EventStore) w events w := by
  have hfiles : ∃ s, Runs.Run ((eventFiles model).foldlM (addEventFile model) {} :
      ExceptT ModelFailure M EventStore) w s w :=
    exists_run_foldlM_addEventFile h.events {}
  obtain ⟨s, hs⟩ := hfiles
  unfold readEvents
  cases hurl : model.files[AuxiliaryFile.uncoreRewrites.kind]? with
  | none => exact ⟨s, Runs.bind hs (Runs.pure s w)⟩
  | some url =>
    have hread := Runs.map (Except.ok (ε := ModelFailure)) (Source.run_read (m := M) url w)
    cases hdecode : Source.decode url w.sources[Source.path url]? with
    | ok text =>
      rw [hdecode] at hread
      exact ⟨(s.applyUncoreText text).1, Runs.bind hs (Runs.bind hread (Runs.pure _ w))⟩
    | error e =>
      rw [hdecode] at hread
      exact ⟨s, Runs.bind hs (Runs.bind hread (Runs.pure s w))⟩

theorem run_readTables [LawfulMonad M] {texts : String → String}
    (h : model.FoundIn w.sources texts) :
    Runs.Run (readTables model : ExceptT ModelFailure M (List (MetricTable × String))) w
      (model.metricTables.map fun table => (table, texts table.url)) w := by
  have hfound := h.tables
  unfold readTables
  generalize model.metricTables = tables at hfound ⊢
  induction tables with
  | nil => exact Runs.pure _ w
  | cons table tables ih =>
    have hfirst := run_readSource (M := M) (hfound table List.mem_cons_self)
    have hrest := ih fun later hlater => hfound later (List.mem_cons_of_mem _ hlater)
    rw [List.mapM_cons]
    exact Runs.bind (Runs.bind hfirst (Runs.pure _ w)) (Runs.bind hrest (Runs.pure _ w))

end Generation

/-- If the sources have the files, then there is a record of a kind that the tables yield with
any events and extra metrics. -/
theorem Model.FoundIn.exists_hasRecordIn {m : Model} {s : Sources} {texts : String → String}
    (h : m.FoundIn s texts) {rules : Rules} {P : Metric → Prop}
    (hrecord : ∀ catalog extra, ∃ r ∈ modelMetrics rules m catalog extra
      (m.metricTables.map fun table => (table, texts table.url)), P r) :
    ∃ r, m.HasRecordIn rules s r ∧ P r := by
  obtain ⟨events, hevents⟩ :=
    Generation.exists_run_readEvents (M := StateM Workspace) (w := ⟨s, {}⟩) h
  have htables := Generation.run_readTables (M := StateM Workspace) (w := ⟨s, {}⟩) h
  obtain ⟨r, hr, hP⟩ := hrecord events.catalog
    ((Generation.readExtraMetrics m : StateM Workspace _).run ⟨s, {}⟩).1
  exact ⟨r, ⟨events, _, congrArg Prod.fst hevents, congrArg Prod.fst htables, hr⟩, hP⟩

/-! ## Sources from texts -/

/-- Sources that hold texts at the given places; of one place, the first text. -/
def Sources.ofTexts (files : List (String × String)) : Sources :=
  files.foldr (fun file s => s.insert (Source.path file.1) file.2.toUTF8) ∅

theorem Sources.getElem?_ofTexts (files : List (String × String)) (path : String) :
    (ofTexts files)[path]? = (files.find? (Source.path ·.1 == path)).map (·.2.toUTF8) := by
  induction files with
  | nil => rfl
  | cons file files ih =>
    show ((ofTexts files).insert (Source.path file.1) file.2.toUTF8)[path]? = _
    rw [Std.TreeMap.getElem?_insert, ih]
    by_cases hpath : Source.path file.1 = path
    · simp [hpath]
    · simp [hpath]

/-- The text of the first file at the place of a URL. -/
def Sources.textAt (files : List (String × String)) (url : String) : String :=
  ((files.find? (Source.path ·.1 == Source.path url)).map (·.2)).getD ""

section

variable {files : List (String × String)} {url : String}

theorem Sources.exists_find?_of_mem (h : url ∈ files.map (·.1)) :
    ∃ file ∈ files, files.find? (Source.path ·.1 == Source.path url) = some file := by
  obtain ⟨named, hnamed, rfl⟩ := List.mem_map.1 h
  have hsome : (files.find? (Source.path ·.1 == Source.path named.1)).isSome = true :=
    List.find?_isSome.2 ⟨named, hnamed, beq_self_eq_true _⟩
  obtain ⟨file, hfile⟩ := Option.isSome_iff_exists.1 hsome
  exact ⟨file, List.mem_of_find?_eq_some hfile, hfile⟩

theorem Sources.decode_ofTexts (h : url ∈ files.map (·.1)) :
    Source.decode url (ofTexts files)[Source.path url]? = .ok (textAt files url) := by
  obtain ⟨file, -, hfile⟩ := exists_find?_of_mem h
  rw [getElem?_ofTexts, textAt, hfile]
  exact Source.decode_toUTF8 url file.2

theorem Sources.textAt_of_mem {urls : List String} (h : url ∈ urls) (text : String) :
    textAt (urls.map (·, text)) url = text := by
  have hmem : url ∈ (urls.map (·, text)).map (·.1) := by simpa [Function.comp_def] using h
  obtain ⟨file, hfile, hfind⟩ := exists_find?_of_mem hmem
  obtain ⟨_, _, rfl⟩ := List.mem_map.1 hfile
  rw [textAt, hfind]
  rfl

end

/-- The places of the files of a model that have to be there. -/
def Model.neededUrls (m : Model) : List String :=
  (Generation.eventFiles m).map (·.2) ++ m.metricTables.map (·.url)

theorem Model.foundIn_ofTexts {m : Model} {files : List (String × String)}
    (hneeded : ∀ url ∈ m.neededUrls, url ∈ files.map (·.1))
    (hevents : ∀ file ∈ Generation.eventFiles m,
      (Event.ofFile? (Sources.textAt files file.2)).isSome = true) :
    m.FoundIn (Sources.ofTexts files) (Sources.textAt files) := by
  constructor
  case events =>
    intro file hfile
    have hurl : file.2 ∈ m.neededUrls := List.mem_append_left _ (List.mem_map_of_mem hfile)
    exact ⟨Sources.decode_ofTexts (hneeded _ hurl), hevents file hfile⟩
  case tables =>
    intro table htable
    have hurl : table.url ∈ m.neededUrls := List.mem_append_right _ (List.mem_map_of_mem htable)
    exact Sources.decode_ofTexts (hneeded _ hurl)

/-! ## Rows with a constant formula -/

/-- The rules emit a row of the name with the formula `1`, and emit it as it is. -/
structure Rules.KeepsConstant (rules : Rules) (arch name : String) : Prop where
  ignored : name ∉ rules.ignoredMetrics
  dropped : name ∉ (rules.arch arch).droppedMetrics
  forced : (rules.arch arch).forcedFormulas.lookup name = none
  fixups : Fixup.applyAll (rules.fixupsFor arch) "1" = "1"
  slots : Text.contains "1" rules.slots.family = false

theorem Formula.Scope.resolve_one {s : Scope} (hfixups : Fixup.applyAll s.fixups "1" = "1") :
    s.resolve "1" = .ok (.num "1") := by
  have hparse : s.parseFragment "1" = .ok (.num "1") :=
    parseFragment_of_render hfixups rfl (by decide) (by decide)
  rw [(resolve_of_parse hparse (Expr.simplified_num "1")).1]
  exact (s.settle_of_done rfl passLimit).1

section

variable {ctx : ExtractionContext} {spec : MetricSpec}

theorem exists_draftOfSpec_one (symbols : SymbolTable) (hformula : spec.formula = "1")
    (h : ctx.rules.KeepsConstant ctx.arch spec.name) :
    ∃ d, draftOfSpec ctx (Scope.ofArch symbols ctx.rules ctx.arch ctx.pmu) spec = .ok d ∧
      d.name = spec.name ∧ d.expr = "1" := by
  have hforced : (Scope.ofArch symbols ctx.rules ctx.arch ctx.pmu).arch.forcedFormulas.lookup
      spec.name = none := h.forced
  have hrecord : (Scope.ofArch symbols ctx.rules ctx.arch ctx.pmu).recordFormula spec = "1" := by
    rw [Scope.recordFormula, hforced]
    exact hformula
  have htext : resolveText (Scope.ofArch symbols ctx.rules ctx.arch ctx.pmu) "1" = .ok "1" :=
    resolveText_eq_ok_iff.2 ⟨.num "1", .num "1", Scope.resolve_one h.fixups,
      withCompanionSlots_of_not_family h.slots, rfl⟩
  refine ⟨_, draftOfSpec_eq_ok_iff.2 ⟨h.ignored, h.dropped, ?_, "1", ?_, rfl⟩, rfl, rfl⟩
  · rw [hrecord]
    decide
  · rw [hrecord]
    exact htext

/-- A row with a constant formula has a record, whatever the events and extra metrics are. -/
theorem exists_record_of_constantRow (ctx : ExtractionContext) (extra : List ExtraMetric)
    {text : String} {column : FormulaColumn} {built : BuiltTable}
    (hcolumn : ctx.rules.columnFor? ctx.arch = some column)
    (hbuilt : buildTable text ctx.arch column ctx.rules = .ok built)
    (hspec : spec ∈ built.contents.metrics) (hformula : spec.formula = "1")
    (h : ctx.rules.KeepsConstant ctx.arch spec.name) :
    ∃ r ∈ (extractMetrics ctx extra text).metrics, r.name = spec.name := by
  obtain ⟨d, hdraft, hname, hexpr⟩ := exists_draftOfSpec_one built.contents.symbols hformula h
  have hmem : d ∈ extractionDrafts ctx extra built.contents := by
    have hsource : MetricSource.row spec ∈ metricSources built.contents extra := by
      unfold metricSources tableSources
      exact List.mem_append_left _ (List.mem_append_left _ (List.mem_map_of_mem hspec))
    exact (mem_extractionDrafts_iff ctx extra built.contents).2 ⟨_, hsource, hdraft⟩
  have hconsistent : SelfConsistent ctx {d} := by
    rintro _ rfl word hword
    have hwords : wordsOf "1".toList = [['1']] := by decide +kernel
    rw [hexpr, hwords, List.mem_singleton] at hword
    subst hword
    exact .inl rfl
  have haccepted := mem_checkReferences_of_selfConsistent hconsistent
    (by simpa using hmem) (Set.mem_singleton d)
  rw [extractMetrics_of_buildTable hcolumn hbuilt, extractContents_metrics, ← hname]
  exact Emission.exists_record_of_mem haccepted

end

end TopdownMetrics

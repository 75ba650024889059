import TopdownMetrics.Proofs.ReleasedTrees

/-!
# Models do not influence each other

Two requests are compared, each with its sources.  If the sources differ only in what a single
model reads, then the releases differ only in the directory of that model.  A request for some
of the models writes for each of them what a request for all models writes.  The one thing
that models share is the map of processors: a model whose identifiers have no pattern keeps it
from being written, and then nothing is written for any model.
-/

namespace TopdownMetrics

open FileTree

/-! ## Requests whose models are apart -/

namespace Request

variable {r : Request} {s s' : Sources} {t : FileTree} {ms : List Model}

/-- The directory that a model is written to. -/
def directoryOf (r : Request) (model : Model) : String :=
  Path.join r.outputDirectory model.longname

/-- Where the map of processors is written. -/
def mapLocation (r : Request) (t : FileTree) : Location :=
  t.destination r.outputDirectory ++ ["mapfile.csv"]

/-- No directory of a model lies in that of another, and no way to one leads through
another. -/
structure Apart (r : Request) (t : FileTree) (ms : List Model) : Prop where
  wellFormed : t.WellFormed
  staysOut : ∀ model ∈ ms, ∀ other ∈ ms, model.shortname ≠ other.shortname →
    t.StaysOut (r.directoryOf model) (r.directoryOf other)

/-- No source stands in the place of a directory of the release. -/
structure SourcesApart (r : Request) (s : Sources) (ms : List Model) : Prop where
  release : Separate s r.outputDirectory
  models : ∀ model ∈ ms, Separate s (r.directoryOf model)

end Request

/-- The path is that of a file of the model, or of an optional file that it has if there is
one. -/
def Model.MayRead (model : Model) (base path : String) : Prop :=
  model.Reads path ∨ path = Source.path (MapfileEntries.uncoreRewritesUrl base model.shortname) ∨
    path = Source.path (MapfileEntries.extraMetricsUrl base model.shortname)

/-- The sources are the same for everything but the given model. -/
structure Request.DifferOnlyFor (r : Request) (s s' : Sources) (ms : List Model)
    (model : Model) : Prop where
  mapfile : s'[Source.path (r.basePath ++ "/mapfile.csv")]? =
    s[Source.path (r.basePath ++ "/mapfile.csv")]?
  rules : ∀ path, r.rulesPath = some path → s'[path]? = s[path]?
  others : ∀ other ∈ ms, other.shortname ≠ model.shortname → ∀ path,
    other.MayRead r.basePath path → s'[path]? = s[path]?

namespace Generation

variable {r : Request} {s s' : Sources} {t : FileTree} {ms : List Model} {model : Model}

theorem slash_notMem_shortname {entries : MapfileEntries} {base : String}
    {available : String → Bool} {rows : List MapfileRow} (h : entries.Gathers base rows)
    (hmodel : model ∈ entries.toModels base available) : '/' ∉ model.shortname.toList := by
  obtain ⟨row, _, _, hname, _⟩ := h.exists_row_of_mem hmodel
  rw [← hname]
  exact slash_notMem_shortnameOfPath row.path

theorem wanted_toModels (r : Request) (entries : MapfileEntries) (base : String)
    (available : String → Bool) : r.wanted (entries.toModels base available) =
      (entries.inOrder.filter fun named => r.wants named.1).map fun named =>
        entries.modelOf base available named.1 named.2 := by
  unfold Request.wanted
  rw [entries.toModels_eq_map, List.filter_map]
  rfl

/-- Sources that differ for one model only lead to releases that agree outside its
directory. -/
theorem agree_outside (hms : listed r.basePath s t = .ok ms) (hapart : r.Apart t ms)
    (hs : r.SourcesApart s ms) (hs' : r.SourcesApart s' ms) (hmodel : model ∈ ms)
    (hdiffer : r.DifferOnlyFor s s' ms model) :
    Agree (.outside t (r.directoryOf model) (t.destination r.outputDirectory))
      (released r s t) (released r s' t) := by
  obtain ⟨entries, hentries, rfl⟩ := exists_entries_of_listed hms
  obtain ⟨rows, hgathers⟩ := Workspace.exists_gathers hentries
  have hentries' : Workspace.entries ⟨s', t⟩ r.basePath = .ok entries := by
    rw [← hentries]
    unfold Workspace.entries
    simp only [hdiffer.mapfile]
  have hrules : r.rules s' = r.rules s := by
    unfold Request.rules
    cases hpath : r.rulesPath with
    | none => rfl
    | some path => simp only [hdiffer.rules path hpath]
  have hms' : listed r.basePath s' t = .ok (entries.toModels r.basePath
      (Workspace.optionalFiles ⟨s', t⟩ entries r.basePath).contains) := by
    rw [listed_eq, hentries']
    rfl
  have hmap : Release.mapText (r.wanted (entries.toModels r.basePath
      (Workspace.optionalFiles ⟨s, t⟩ entries r.basePath).contains)) =
        Release.mapText (r.wanted (entries.toModels r.basePath
          (Workspace.optionalFiles ⟨s', t⟩ entries r.basePath).contains)) := by
    apply Release.mapText_congr
    rw [wanted_toModels, wanted_toModels, List.map_map, List.map_map]
    rfl
  refine agree_released r.archs hapart.wellFormed hrules hs.release hs'.release hms
    hms' (by rw [← hmap]) (fun _ => hmap) ?_
  rw [wanted_toModels, wanted_toModels]
  refine Paired.map fun named hnamed => ?_
  have hmem : entries.modelOf r.basePath (Workspace.optionalFiles ⟨s, t⟩ entries
      r.basePath).contains named.1 named.2 ∈ entries.toModels r.basePath
        (Workspace.optionalFiles ⟨s, t⟩ entries r.basePath).contains := by
    rw [entries.toModels_eq_map]
    exact List.mem_map_of_mem (List.mem_filter.1 hnamed).1
  have hshortname := slash_notMem_shortname hgathers hmem
  by_cases hself : named.1 = model.shortname
  · -- The model itself may have other files in the other sources, but not another directory.
    have hsame := List.inj_on_of_nodup_map
      (entries.nodup_shortnames_toModels r.basePath _) hmem hmodel hself
    have havoids := Region.outside_avoids t (r.directoryOf model) (t.destination r.outputDirectory)
    rw [← hsame] at havoids ⊢
    have hseparate := hs.models _ hmem
    have hseparate' := hs'.models _ hmem
    exact .inr ⟨⟨hshortname, hseparate, havoids⟩, hshortname, hseparate', havoids⟩
  · have hothers := hdiffer.others _ hmem hself
    have havailable (url : String) (hurl : s'[Source.path url]? = s[Source.path url]?) :
        (Workspace.optionalFiles ⟨s, t⟩ entries r.basePath).contains url =
          (Workspace.optionalFiles ⟨s', t⟩ entries r.basePath).contains url := by
      rw [Workspace.contains_optionalFiles, Workspace.contains_optionalFiles,
        Workspace.isAvailable_congr hurl]
    refine .inl ⟨MapfileEntries.modelOf_congr (havailable _ (hothers _ (.inr (.inl rfl))))
      (havailable _ (hothers _ (.inr (.inr rfl)))), hshortname, hs.models _ hmem,
      hs'.models _ hmem, fun path hreads => hothers path (.inl hreads), ?_⟩
    exact Region.outside_covers (hapart.staysOut _ hmodel _ hmem (Ne.symm hself))
      (hapart.staysOut _ hmem _ hmodel hself)

/-- A request for some models writes for each of them what a request for all does. -/
theorem agree_inside (hms : listed r.basePath s t = .ok ms) (hapart : r.Apart t ms)
    (hs : r.SourcesApart s ms) (hmodel : model ∈ ms) (hwants : r.wants model.shortname = true)
    (hlines : ∀ other ∈ ms, other.mapLine?.isSome) :
    Agree (.inside t (r.directoryOf model) (t.destination r.outputDirectory))
      (released r s t) (released { r with archs := [] } s t) := by
  have hall : Request.wanted { r with archs := [] } ms = ms :=
    List.filter_eq_self.2 fun _ _ => rfl
  have hsome : ∃ text, Release.mapText (r.wanted ms) = .ok text :=
    Release.exists_mapText_iff.2 fun other hother => hlines other (List.mem_filter.1 hother).1
  refine agree_released [] hapart.wellFormed rfl hs.release hs.release hms hms
    (iff_of_true hsome ?_) (fun hregion => absurd rfl hregion.2) ?_
  · rw [hall]
    exact Release.exists_mapText_iff.2 hlines
  rw [hall]
  obtain ⟨entries, hentries, rfl⟩ := exists_entries_of_listed hms
  obtain ⟨rows, hgathers⟩ := Workspace.exists_gathers hentries
  refine Paired.filter fun other hother => ?_
  have hshortname := slash_notMem_shortname hgathers hother
  by_cases hself : other.shortname = model.shortname
  · obtain rfl := List.inj_on_of_nodup_map
      (entries.nodup_shortnames_toModels r.basePath _) hother hmodel hself
    exact .inl ⟨hwants, hshortname, hs.models _ hother, hs.models _ hother, fun _ _ => rfl,
      Region.inside_covers t _ _⟩
  · exact .inr ⟨hshortname, hs.models _ hother, Region.inside_avoids
      (hapart.staysOut _ hmodel _ hother (Ne.symm hself)) (hapart.staysOut _ hother _ hmodel hself)⟩

/-- Without the line of a model there is no map, and no file is written. -/
theorem file?_released_of_mapLine?_eq_none (ht : t.WellFormed)
    (hms : listed r.basePath s t = .ok ms) (hs : Separate s r.outputDirectory)
    (hmodel : model ∈ ms) (hwants : r.wants model.shortname = true)
    (hline : model.mapLine? = none) (there : Location) :
    (released r s t).file? there = t.file? there := by
  cases hrules : r.rules s with
  | error e => rw [released_of_rules_error hrules]
  | ok rules =>
    cases htext : Release.mapText (r.wanted ms) with
    | error e =>
      rw [released_of_mapText_error ht hrules hs hms htext]
      exact (makeFrom_spec ht (ht.isDirectoryAt_start _) _).2.2.1 there
    | ok text =>
      have hsome := Release.exists_mapText_iff.1 ⟨text, htext⟩ model
        (List.mem_filter.2 ⟨hmodel, hwants⟩)
      rw [hline] at hsome
      cases hsome

/-- The files that are written outside the directory of a model do not depend on what only that
model reads, and the map of processors does not either.  A request for some models writes for
each of them the files that a request for all models writes, if there is a map of all models.
Otherwise the request for all models writes no file. -/
theorem models_are_independent (hms : listed r.basePath s t = .ok ms) (hapart : r.Apart t ms)
    (hs : r.SourcesApart s ms) :
    (∀ model ∈ ms, ∀ s', r.SourcesApart s' ms → r.DifferOnlyFor s s' ms model → ∀ there,
      ¬ t.destination (r.directoryOf model) <+: there ∨ there = r.mapLocation t →
        (released r s t).file? there = (released r s' t).file? there) ∧
      ((∀ other ∈ ms, other.mapLine?.isSome) → ∀ model ∈ ms, r.wants model.shortname = true →
        ∀ there, t.destination (r.directoryOf model) <+: there → there ≠ r.mapLocation t →
          (released r s t).file? there = (released { r with archs := [] } s t).file? there) ∧
      ((∃ other ∈ ms, other.mapLine? = none) → ∀ there,
        (released { r with archs := [] } s t).file? there = t.file? there) := by
  refine ⟨fun model hmodel s' hs' hdiffer there houtside => ?_,
    fun hlines model hmodel hwants there hinside hmap => ?_, fun hnone there => ?_⟩
  · exact (agree_outside hms hapart hs hs' hmodel hdiffer).contents there houtside
  · exact (agree_inside hms hapart hs hmodel hwants hlines).contents there ⟨hinside, hmap⟩
  · obtain ⟨other, hother, hline⟩ := hnone
    exact file?_released_of_mapLine?_eq_none (r := { r with archs := [] }) hapart.wellFormed hms
      hs.release hother rfl hline there

/-! ## A desktop processor and a server -/

/-- Which files a model reads and writes. -/
def outline (model : Model) : String × String × Option String × List String :=
  (model.shortname, model.longname, model.mapLine?, model.files.toList.map (·.2))

/-- A mapfile with a desktop processor and, under the given identifiers, a server. -/
def serverText (identifiers : List String) : String :=
  "Family-model,Version,Filename,EventType,Core Type,Native Model ID,Core Role Name\n" ++
    "6-4E,V57,/SKL/events/skylake_core.json,core\n" ++
    String.join (identifiers.map (· ++ ",V1,/SKX/events/skylakex_core.json,core\n"))

def serverSources (identifiers : List String) (events : String) : Sources :=
  (({} : Sources).insert "/repo/mapfile.csv" (serverText identifiers).toUTF8).insert
    "/repo/SKL/events/skylake_core.json" events.toUTF8

def serverRows (identifiers : List String) : List MapfileRow :=
  ⟨"6-4E", "V57", "/SKL/events/skylake_core.json", "core"⟩ ::
    identifiers.map fun identifier =>
      ⟨identifier, "V1", "/SKX/events/skylakex_core.json", "core"⟩

def serverEntries (identifiers : List String) : MapfileEntries :=
  (MapfileEntries.ofRows "/repo" (serverRows identifiers)).toOption.getD {}

def serverModels (identifiers : List String) (events : String) : List Model :=
  (serverEntries identifiers).modelsByShortname "/repo" (Workspace.optionalFiles
    ⟨serverSources identifiers events, {}⟩ (serverEntries identifiers) "/repo").contains

def serverOutlines (line : Option String) :
    List (String × String × Option String × List String) :=
  [("SKL", "skylake", some "6-4E,v57,skylake,core",
      ["/repo/SKL/events/skylake_core.json", "/repo/TMA_Metrics-full.csv"]),
    ("SKX", "skylakex", line,
      ["/repo/SKX/events/skylakex_core.json", "/repo/TMA_Metrics-full.csv"])]

def desktopRequest : Request :=
  { basePath := "/repo", archs := ["SKL"] }

theorem separate_serverSources (identifiers : List String) (events : String) {directory : String}
    (h : Path.steps directory ∉ [["repo", "mapfile.csv"],
      ["repo", "SKL", "events", "skylake_core.json"]]) :
    Separate (serverSources identifiers events) directory := by
  intro name hname parent hparent
  rw [Bool.eq_false_iff]
  intro hcontains
  have hpath : "/repo/SKL/events/skylake_core.json" = parent ∨ "/repo/mapfile.csv" = parent := by
    simpa [serverSources, Std.TreeMap.contains_insert] using hcontains
  obtain ⟨_, hparent', hsteps⟩ := Path.parent?_join hname directory
  rw [hparent] at hparent'
  obtain rfl := Option.some.inj hparent'
  rcases hsteps with ⟨rfl, -⟩ | ⟨-, -, hsteps⟩
  · revert hpath
    decide
  · apply h
    rw [← hsteps]
    rcases hpath with rfl | rfl
    · decide
    · decide

theorem names_of_outline {line : Option String} (h : outline model ∈ serverOutlines line) :
    model.shortname = "SKL" ∧ model.longname = "skylake" ∨
      model.shortname = "SKX" ∧ model.longname = "skylakex" := by
  rcases List.mem_cons.1 h with heq | h
  · exact .inl ⟨congrArg Prod.fst heq, congrArg (·.2.1) heq⟩
  · have heq := List.mem_singleton.1 h
    exact .inr ⟨congrArg Prod.fst heq, congrArg (·.2.1) heq⟩

theorem apart_desktopRequest {line : Option String}
    (h : ∀ model ∈ ms, outline model ∈ serverOutlines line) : desktopRequest.Apart {} ms := by
  refine ⟨wellFormed_empty, fun model hmodel other hother hne => ?_⟩
  unfold Request.directoryOf
  rcases names_of_outline (h model hmodel) with ⟨hname, hdirectory⟩ | ⟨hname, hdirectory⟩
  · rcases names_of_outline (h other hother) with ⟨hname', hdirectory'⟩ | ⟨_, hdirectory'⟩
    · exact absurd (hname.trans hname'.symm) hne
    · rw [hdirectory, hdirectory']
      decide
  · rcases names_of_outline (h other hother) with ⟨_, hdirectory'⟩ | ⟨hname', hdirectory'⟩
    · rw [hdirectory, hdirectory']
      decide
    · exact absurd (hname.trans hname'.symm) hne

theorem sourcesApart_desktopRequest {line : Option String} (identifiers : List String)
    (events : String) (h : ∀ model ∈ ms, outline model ∈ serverOutlines line) :
    desktopRequest.SourcesApart (serverSources identifiers events) ms := by
  refine ⟨separate_serverSources identifiers events (by decide), fun model hmodel => ?_⟩
  apply separate_serverSources
  unfold Request.directoryOf
  rcases names_of_outline (h model hmodel) with ⟨_, hdirectory⟩ | ⟨_, hdirectory⟩
  · rw [hdirectory]
    decide
  · rw [hdirectory]
    decide

/-- The rows of the mapfile, and how the processors look in them. -/
structure DescribesServer (identifiers : List String) (events : String) (line : Option String) :
    Prop where
  rows : ∃ cells, Csv.rows (serverText identifiers) = mapfileColumns :: cells ∧
    cells.map MapfileRow.ofCells = serverRows identifiers
  entries : (MapfileEntries.ofRows "/repo" (serverRows identifiers)).toOption.isSome = true
  outlines : (serverModels identifiers events).map outline = serverOutlines line

theorem DescribesServer.exists_listed {identifiers : List String} {events : String}
    {line : Option String} (h : DescribesServer identifiers events line) :
    ∃ ms, listed "/repo" (serverSources identifiers events) {} = .ok ms ∧
      ms.Perm (serverModels identifiers events) ∧
      (∀ o ∈ serverOutlines line, ∃ model ∈ ms, outline model = o) ∧
      ∀ model ∈ ms, outline model ∈ serverOutlines line := by
  -- The bytes of the mapfile are read back by a lemma; only its rows are evaluated.
  obtain ⟨⟨cells, hcells, hrows⟩, hsome, houtlines⟩ := h
  have hrow : MapfileEntries.ofRows "/repo" (serverRows identifiers) =
      .ok (serverEntries identifiers) := by
    unfold serverEntries
    cases hentries : MapfileEntries.ofRows "/repo" (serverRows identifiers) with
    | error e => simp [hentries, Except.toOption] at hsome
    | ok entries => rfl
  have htext : MapfileEntries.ofText (serverText identifiers) "/repo" =
      .ok (serverEntries identifiers) := by
    unfold MapfileEntries.ofText
    rw [hcells]
    change (MapfileEntries.checkHeader mapfileColumns >>= fun _ =>
      MapfileEntries.ofRows "/repo" (cells.map MapfileRow.ofCells)) = _
    rw [hrows, hrow]
    rfl
  have hread : Source.decode ("/repo" ++ "/mapfile.csv")
      (serverSources identifiers events)[Source.path ("/repo" ++ "/mapfile.csv")]? =
        .ok (serverText identifiers) := by
    have hpath : Source.path ("/repo" ++ "/mapfile.csv") = "/repo/mapfile.csv" := by
      decide
    have hlookup : (serverSources identifiers events)["/repo/mapfile.csv"]? =
        some (serverText identifiers).toUTF8 := by
      unfold serverSources
      simp only [Std.TreeMap.getElem?_insert, Std.LawfulEqCmp.compare_eq_iff_eq, String.reduceEq,
        if_false, if_true]
    rw [hpath, hlookup, Source.decode_toUTF8]
  have hentries : Workspace.entries ⟨serverSources identifiers events, {}⟩ "/repo" =
      .ok (serverEntries identifiers) := by
    rw [Workspace.entries_of_ok hread, htext]
    rfl
  have hlisted := listed_eq "/repo" (serverSources identifiers events) {}
  rw [hentries] at hlisted
  refine ⟨_, hlisted, List.mergeSort_perm _ _, fun o ho => ?_, fun model hmodel => ?_⟩
  · rw [← houtlines] at ho
    obtain ⟨model, hmodel, rfl⟩ := List.mem_map.1 ho
    exact ⟨model, List.mem_mergeSort.2 hmodel, rfl⟩
  · rw [← houtlines]
    exact List.mem_map_of_mem (List.mem_mergeSort.1 hmodel)

/-- The events of the desktop processor are read for that processor only. -/
theorem differOnlyFor_desktopRequest {line : Option String} (identifiers : List String)
    (events events' : String) (h : ∀ model ∈ ms, outline model ∈ serverOutlines line)
    (hname : model.shortname = "SKL") :
    desktopRequest.DifferOnlyFor (serverSources identifiers events)
      (serverSources identifiers events') ms model := by
  have hsame (path : String) (hpath : "/repo/SKL/events/skylake_core.json" ≠ path) :
      (serverSources identifiers events')[path]? = (serverSources identifiers events)[path]? := by
    unfold serverSources
    simp only [Std.TreeMap.getElem?_insert, Std.LawfulEqCmp.compare_eq_iff_eq, hpath, if_false]
  constructor
  case mapfile => exact hsame _ (by decide)
  case rules => nofun
  case others =>
    intro other hother hne path hreads
    apply hsame
    have houtline : outline other = ("SKX", "skylakex", line,
        ["/repo/SKX/events/skylakex_core.json", "/repo/TMA_Metrics-full.csv"]) := by
      rcases List.mem_cons.1 (h other hother) with heq | hserver
      · exact absurd ((congrArg Prod.fst heq).trans hname.symm) hne
      · exact List.mem_singleton.1 hserver
    have hshortname : other.shortname = "SKX" := congrArg Prod.fst houtline
    have hfiles : other.files.toList.map (·.2) =
        ["/repo/SKX/events/skylakex_core.json", "/repo/TMA_Metrics-full.csv"] :=
      congrArg (·.2.2.2) houtline
    rcases hreads with ⟨kind, url, hurl, rfl⟩ | rfl | rfl
    · have hmem : url ∈ other.files.toList.map (·.2) :=
        List.mem_map.2 ⟨(kind, url), Std.TreeMap.mem_toList_iff_getElem?_eq_some.2 hurl, rfl⟩
      have hall : ∀ url ∈ ["/repo/SKX/events/skylakex_core.json", "/repo/TMA_Metrics-full.csv"],
          "/repo/SKL/events/skylake_core.json" ≠ Source.path url := by
        decide
      rw [hfiles] at hmem
      exact hall url hmem
    · rw [hshortname]
      decide
    · rw [hshortname]
      decide

def desktopEvents : String :=
  "\x7b\"Events\": [\x7b\"EventName\": \"INST_RETIRED.ANY\"\x7d]\x7d"

/-- Without its events the desktop processor fails, and without the server it is released like
with it. -/
theorem models_are_independent_server :
    ∃ ms, listed "/repo" (serverSources ["6-55"] desktopEvents) {} = .ok ms ∧
      ∃ model ∈ ms, model.shortname = "SKL" ∧
        (∀ there, ¬ ["perf", "skylake"] <+: there →
          (released desktopRequest (serverSources ["6-55"] desktopEvents) {}).file? there =
            (released desktopRequest (serverSources ["6-55"] "") {}).file? there) ∧
        ∀ there, ["perf", "skylake"] <+: there →
          (released desktopRequest (serverSources ["6-55"] desktopEvents) {}).file? there =
            (released { desktopRequest with archs := [] }
              (serverSources ["6-55"] desktopEvents) {}).file? there := by
  have hserver : DescribesServer ["6-55"] desktopEvents (some "6-55,v1,skylakex,core") := by
    refine ⟨⟨[["6-4E", "V57", "/SKL/events/skylake_core.json", "core"],
      ["6-55", "V1", "/SKX/events/skylakex_core.json", "core"]], ?_, ?_⟩, ?_, ?_⟩
    · decide +kernel
    · decide +kernel
    · decide +kernel
    · decide +kernel
  obtain ⟨ms, hms, -, hmodels, houtlines⟩ := hserver.exists_listed
  obtain ⟨model, hmodel, houtline⟩ := hmodels _ List.mem_cons_self
  have hname : model.shortname = "SKL" := congrArg Prod.fst houtline
  have hdestination : ({} : FileTree).destination (desktopRequest.directoryOf model) =
      ["perf", "skylake"] := by
    have hlongname : model.longname = "skylake" := congrArg (·.2.1) houtline
    unfold Request.directoryOf
    rw [hlongname]
    decide +kernel
  have hlines : ∀ other ∈ ms, other.mapLine?.isSome := by
    intro other hother
    rcases List.mem_cons.1 (houtlines other hother) with heq | h
    · exact congrArg (·.2.2.1.isSome) heq
    · exact congrArg (·.2.2.1.isSome) (List.mem_singleton.1 h)
  obtain ⟨houtside, hinside, -⟩ := models_are_independent (r := desktopRequest) hms
    (apart_desktopRequest houtlines) (sourcesApart_desktopRequest _ _ houtlines)
  refine ⟨ms, hms, model, hmodel, hname, fun there hthere => ?_, fun there hthere => ?_⟩
  · rw [← hdestination] at hthere
    exact houtside model hmodel _ (sourcesApart_desktopRequest _ _ houtlines)
      (differOnlyFor_desktopRequest _ _ _ houtlines hname) there (.inl hthere)
  · have hmap : there ≠ desktopRequest.mapLocation {} := by
      rintro rfl
      revert hthere
      decide +kernel
    rw [← hdestination] at hthere
    exact hinside hlines model hmodel (by rw [hname]; decide) there hthere hmap

/-- The identifiers of the server differ inside a character. -/
def accents : List String :=
  ["6-è", "6-é"]

def desktopModels : List Model :=
  (serverModels accents desktopEvents).filter fun model => desktopRequest.wants model.shortname

/-- The release of the desktop processor after its map is written. -/
def desktopRun : Except GenerationError GenerationSummary × Workspace :=
  (generateModels .builtin "perf" desktopModels :
    ExceptT GenerationError (StateM Workspace) GenerationSummary).run.run
      ⟨serverSources accents desktopEvents, (placeMap {} "perf" "6-4E,v57,skylake,core\n").1⟩

theorem describesServer_accents : DescribesServer accents desktopEvents none := by
  refine ⟨⟨[["6-4E", "V57", "/SKL/events/skylake_core.json", "core"],
    ["6-è", "V1", "/SKX/events/skylakex_core.json", "core"],
    ["6-é", "V1", "/SKX/events/skylakex_core.json", "core"]], ?_, ?_⟩, ?_, ?_⟩
  · decide +kernel
  · decide +kernel
  · decide +kernel
  · decide +kernel

theorem map_outline_desktopModels :
    desktopModels.map outline =
      [("SKL", "skylake", some "6-4E,v57,skylake,core",
        ["/repo/SKL/events/skylake_core.json", "/repo/TMA_Metrics-full.csv"])] := by
  have hfilter : desktopModels.map outline =
      (serverOutlines none).filter fun o => desktopRequest.wants o.1 := by
    rw [← describesServer_accents.outlines, List.filter_map]
    rfl
  rw [hfilter]
  decide

theorem mapText_desktopModels :
    Release.mapText desktopModels = .ok "6-4E,v57,skylake,core\n" := by
  have hlines : desktopModels.map (fun model => (model.shortname, model.mapLine?)) =
      [("SKL", some "6-4E,v57,skylake,core")] := by
    have houtline := congrArg (List.map fun o => (o.1, o.2.2.1)) map_outline_desktopModels
    rwa [List.map_map] at houtline
  rw [Release.mapText_eq, hlines]
  decide

theorem desktopRun_writes : desktopRun.1.toOption.isSome = true ∧
    (desktopRun.2.tree.file? ["perf", "skylake", "pipeline.json"]).isSome = true := by
  decide +kernel

theorem wanted_desktopRequest (hperm : ms.Perm (serverModels accents desktopEvents)) :
    desktopRequest.wanted ms = desktopModels := by
  have hlength : desktopModels.length = 1 := by
    rw [← List.length_map outline, map_outline_desktopModels]
    rfl
  obtain ⟨model, hmodel⟩ := List.length_eq_one_iff.1 hlength
  have hfilter : (desktopRequest.wanted ms).Perm desktopModels := hperm.filter _
  rw [hmodel] at hfilter ⊢
  exact List.perm_singleton.1 hfilter

theorem run_desktopModels {summary : GenerationSummary} (h : desktopRun.1 = .ok summary) :
    Runs.Run (generateModels .builtin "perf" desktopModels :
      ExceptT GenerationError (StateM Workspace) GenerationSummary)
        ⟨serverSources accents desktopEvents, (placeMap {} "perf" "6-4E,v57,skylake,core\n").1⟩
        summary desktopRun.2 := by
  unfold desktopRun at h ⊢
  exact Runs.run_of_fst h

theorem released_desktopRequest
    (hms : listed "/repo" (serverSources accents desktopEvents) {} = .ok ms)
    (hwanted : desktopRequest.wanted ms = desktopModels) :
    released desktopRequest (serverSources accents desktopEvents) {} = desktopRun.2.tree := by
  have hseparate : Separate (serverSources accents desktopEvents) "perf" :=
    separate_serverSources _ _ (by decide)
  have hrules : desktopRequest.rules (serverSources accents desktopEvents) = .ok .builtin := rfl
  have htext := mapText_desktopModels
  cases hrun : desktopRun.1 with
  | error e =>
    have hok := desktopRun_writes.1
    rw [hrun] at hok
    cases hok
  | ok summary =>
    have hmodels := run_desktopModels hrun
    rw [← hwanted] at htext hmodels
    exact released_of_placed wellFormed_empty hrules hseparate hms htext (by decide) hmodels

/-- Without a server whose identifiers differ inside a character the events of the desktop
processor are released, and with it they are not. -/
theorem not_independent_accents :
    ∃ ms, listed "/repo" (serverSources accents desktopEvents) {} = .ok ms ∧
      desktopRequest.Apart {} ms ∧
      desktopRequest.SourcesApart (serverSources accents desktopEvents) ms ∧
      ∃ model ∈ ms, desktopRequest.wants model.shortname = true ∧
        ∃ there, destination {} (desktopRequest.directoryOf model) <+: there ∧
          there ≠ desktopRequest.mapLocation {} ∧
          (released desktopRequest (serverSources accents desktopEvents) {}).file? there ≠
            (released { desktopRequest with archs := [] }
              (serverSources accents desktopEvents) {}).file? there := by
  obtain ⟨ms, hms, hperm, hmodels, houtlines⟩ := describesServer_accents.exists_listed
  have hsources := sourcesApart_desktopRequest accents desktopEvents houtlines
  obtain ⟨model, hmodel, houtline⟩ := hmodels _ List.mem_cons_self
  obtain ⟨server, hserver, hline⟩ := hmodels _ (List.mem_cons_of_mem _ List.mem_cons_self)
  have hname : model.shortname = "SKL" := congrArg Prod.fst houtline
  have hlongname : model.longname = "skylake" := congrArg (·.2.1) houtline
  have hall := file?_released_of_mapLine?_eq_none (r := { desktopRequest with archs := [] })
    wellFormed_empty hms hsources.release hserver rfl (congrArg (·.2.2.1) hline)
    ["perf", "skylake", "pipeline.json"]
  refine ⟨ms, hms, apart_desktopRequest houtlines, hsources, model, hmodel,
    by rw [hname]; decide, ["perf", "skylake", "pipeline.json"], ?_, by decide +kernel, ?_⟩
  · unfold Request.directoryOf
    rw [hlongname]
    decide +kernel
  · intro hsame
    have hwritten := desktopRun_writes.2
    rw [← released_desktopRequest hms (wanted_desktopRequest hperm), hsame, hall] at hwritten
    cases hwritten

end Generation

end TopdownMetrics

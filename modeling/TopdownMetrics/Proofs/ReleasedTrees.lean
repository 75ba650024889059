import TopdownMetrics.Proofs.PairedRuns
import TopdownMetrics.Proofs.SharedLongnames
import TopdownMetrics.Proofs.StagedGeneration

/-!
# Released trees

The tree after a release is the one before it, the one with the map of processors, or what the
models make of that.  So two releases with the same rules and with paired models leave trees
that agree on a region, if their maps are the same or lie outside the region.
-/

namespace TopdownMetrics

open FileTree

/-! ## The map -/

namespace FileTree

variable {t : FileTree} {directory text text' : String}

/-- Two texts of the map leave trees that agree on every region without the map. -/
theorem Agree.placeMap {r : Region} (ht : t.WellFormed) (directory : String)
    (htext : r.contents (t.destination directory ++ ["mapfile.csv"]) → text = text') :
    (t.placeMap directory text).2 = (t.placeMap directory text').2 ∧
      Agree r (t.placeMap directory text).1 (t.placeMap directory text').1 := by
  have hstart := ht.isDirectoryAt_start directory
  by_cases hsame : text = text'
  · subst hsame
    exact ⟨rfl, .refl r (place_spec ht hstart _ _ _).1⟩
  · let around : Region := {
      contents := (· ≠ t.destination directory ++ ["mapfile.csv"])
      files := fun _ => True
      directories := fun _ => True }
    have hcontent : around.contents (t.destination directory ++ ["mapfile.csv"]) →
        text.toUTF8 = text'.toUTF8 := fun hmap => absurd rfl hmap
    obtain ⟨hok, hagree⟩ := (Agree.refl around ht).place hstart hstart "mapfile.csv"
      (fun _ _ => trivial) trivial hcontent
    refine ⟨hok, hagree.mono (fun there hr => ?_) (fun _ _ => trivial) fun _ _ => trivial⟩
    rintro rfl
    exact hsame (htext hr)

end FileTree

/-! ## The models of two sources -/

namespace MapfileEntries

variable {entries : MapfileEntries} {base shortname text : String} {entry : ModelEntry}
  {available available' : String → Bool}

/-- The entries in the order of the models. -/
def inOrder (entries : MapfileEntries) : List (String × ModelEntry) :=
  entries.models.toList.mergeSort fun a b =>
    (compare (Text.lower a.2.longname) (Text.lower b.2.longname)).isLE

/-- The order of the models does not depend on the files that there are. -/
theorem toModels_eq_map (entries : MapfileEntries) (base : String) (available : String → Bool) :
    entries.toModels base available =
      entries.inOrder.map fun named => entries.modelOf base available named.1 named.2 := by
  have hlongname (named : String × ModelEntry) :
      (entries.modelOf base available named.1 named.2).longname = Text.lower named.2.longname :=
    rfl
  rw [toModels_eq]
  unfold modelsByShortname inOrder
  refine Eq.symm (List.map_mergeSort fun named _ other _ => ?_)
  rw [hlongname, hlongname]

theorem modelOf_congr
    (hrewrites : available (uncoreRewritesUrl base shortname) =
      available' (uncoreRewritesUrl base shortname))
    (hextra : available (extraMetricsUrl base shortname) =
      available' (extraMetricsUrl base shortname)) :
    entries.modelOf base available shortname entry =
      entries.modelOf base available' shortname entry := by
  unfold modelOf filesOf
  simp only [hrewrites, hextra]

theorem exists_gathers_ofText (h : ofText text base = .ok entries) :
    ∃ rows, entries.Gathers base rows := by
  unfold ofText at h
  split at h
  · cases h
  · rename_i header rows _
    cases hheader : checkHeader header with
    | error e =>
      rw [hheader] at h
      cases h
    | ok =>
      rw [hheader] at h
      exact ⟨_, (gathers_ofRows base _).2 entries h⟩

end MapfileEntries

theorem slash_notMem_shortnameOfPath (path : String) : '/' ∉ (shortnameOfPath path).toList := by
  unfold shortnameOfPath
  rw [String.toList_ofList]
  intro hmem
  have hslash := List.all_eq_true.1 List.all_takeWhile '/' hmem
  simp at hslash

theorem Workspace.exists_gathers {w : Workspace} {base : String} {entries : MapfileEntries}
    (h : w.entries base = .ok entries) : ∃ rows, entries.Gathers base rows := by
  cases hdecoded : Source.decode (base ++ "/mapfile.csv")
      w.sources[Source.path (base ++ "/mapfile.csv")]? with
  | error e =>
    rw [Workspace.entries_of_error hdecoded] at h
    cases h
  | ok text =>
    rw [Workspace.entries_of_ok hdecoded] at h
    cases htext : MapfileEntries.ofText text base with
    | error e =>
      rw [htext] at h
      cases h
    | ok found =>
      rw [htext] at h
      obtain rfl := Except.ok.inj h
      exact MapfileEntries.exists_gathers_ofText htext

theorem Workspace.contains_optionalFiles (w : Workspace) (entries : MapfileEntries)
    (base url : String) : (w.optionalFiles entries base).contains url =
      ((entries.optionalUrls base).contains url && w.isAvailable url) := by
  unfold Workspace.optionalFiles
  rw [Bool.eq_iff_iff]
  simp

theorem Workspace.isAvailable_congr {s s' : Sources} {t : FileTree} {url : String}
    (h : s'[Source.path url]? = s[Source.path url]?) :
    (Workspace.mk s' t).isAvailable url = (Workspace.mk s t).isAvailable url := by
  have hcontains : s'.contains (Source.path url) = s.contains (Source.path url) := by
    rw [Std.TreeMap.contains_eq_isSome_getElem?, Std.TreeMap.contains_eq_isSome_getElem?, h]
  simp only [Workspace.isAvailable, Workspace.kind?, hcontains]

namespace Generation

variable {base : String} {s s' : Sources} {t : FileTree} {ms ms' : List Model}

/-- The models at a base path. -/
def listed (base : String) (s : Sources) (t : FileTree) : Except GenerationError (List Model) :=
  ((readModels base : ExceptT GenerationError (StateM Workspace) (List Model)).run.run ⟨s, t⟩).1

/-- The tree after the release. -/
def released (r : Request) (s : Sources) (t : FileTree) : FileTree :=
  ((generate r : ExceptT GenerationError (StateM Workspace) GenerationSummary).run.run
    ⟨s, t⟩).2.tree

theorem listed_eq (base : String) (s : Sources) (t : FileTree) :
    listed base s t = (Workspace.entries ⟨s, t⟩ base).map fun entries =>
      entries.toModels base (Workspace.optionalFiles ⟨s, t⟩ entries base).contains :=
  congrArg Prod.fst (run_readModels (m := StateM Workspace) ⟨s, t⟩ base)

theorem run_of_listed (h : listed base s t = .ok ms) :
    Runs.Run (readModels base : ExceptT GenerationError (StateM Workspace) (List Model)).run
      ⟨s, t⟩ (.ok ms) ⟨s, t⟩ := by
  have hrun := run_readModels (m := StateM Workspace) ⟨s, t⟩ base
  rw [← listed_eq, h] at hrun
  exact hrun

theorem released_eq {r : Request} {w : Workspace} {outcome : Except GenerationError GenerationSummary}
    (h : Runs.Run (generate r : ExceptT GenerationError (StateM Workspace) _).run ⟨s, t⟩ outcome w) :
    released r s t = w.tree :=
  congrArg (·.2.tree) h

theorem exists_entries_of_listed (h : listed base s t = .ok ms) :
    ∃ entries, Workspace.entries ⟨s, t⟩ base = .ok entries ∧
      entries.toModels base (Workspace.optionalFiles ⟨s, t⟩ entries base).contains = ms := by
  rw [listed_eq] at h
  cases hentries : Workspace.entries ⟨s, t⟩ base with
  | error e =>
    rw [hentries] at h
    cases h
  | ok entries =>
    rw [hentries] at h
    exact ⟨entries, rfl, Except.ok.inj h⟩

/-! ## Two releases -/

/-- A release without rules leaves the tree as it is. -/
theorem released_of_rules_error {r : Request} {e : GenerationError}
    (hrules : r.rules s = .error e) : released r s t = t :=
  released_eq (run_generate_of_error (m := StateM Workspace) (w := ⟨s, t⟩) hrules)

/-- A release whose models have no map makes the directory of the map only. -/
theorem released_of_mapText_error {r : Request} {rules : Rules} {e : OutputError}
    (ht : t.WellFormed) (hrules : r.rules s = .ok rules) (hs : Separate s r.outputDirectory)
    (hms : listed r.basePath s t = .ok ms) (hmap : Release.mapText (r.wanted ms) = .error e) :
    released r s t = (Release.wayTo t r.outputDirectory).1 := by
  obtain ⟨e', hrun⟩ := Release.run_writeMap_of_error (m := StateM Workspace) (w := ⟨s, t⟩) ht hs hmap
  obtain ⟨outcome, hgenerate⟩ := run_generate_of_rules {} hrules
    (run_of_listed hms) hrun nofun fun _ _ => rfl
  exact released_eq hgenerate

/-- Where the map cannot be placed, nothing follows. -/
theorem released_of_not_placed {r : Request} {rules : Rules} {text : String} (ht : t.WellFormed)
    (hrules : r.rules s = .ok rules) (hs : Separate s r.outputDirectory)
    (hms : listed r.basePath s t = .ok ms) (htext : Release.mapText (r.wanted ms) = .ok text)
    (hplaced : (t.placeMap r.outputDirectory text).2 = false) :
    released r s t = (t.placeMap r.outputDirectory text).1 := by
  obtain ⟨mapped, hmap, -, hfailed⟩ :=
    Release.run_writeMap (m := StateM Workspace) (w := ⟨s, t⟩) ht hs htext
  obtain ⟨e, rfl⟩ := hfailed hplaced
  have hread := run_of_listed hms
  obtain ⟨_, hgenerate⟩ := run_generate_of_rules {} hrules hread hmap nofun fun _ _ => rfl
  exact released_eq hgenerate

/-- Where the map is placed, the models follow. -/
theorem released_of_placed {r : Request} {rules : Rules} {text : String} (ht : t.WellFormed)
    (hrules : r.rules s = .ok rules) (hs : Separate s r.outputDirectory)
    (hms : listed r.basePath s t = .ok ms) (htext : Release.mapText (r.wanted ms) = .ok text)
    (hplaced : (t.placeMap r.outputDirectory text).2 = true) {summary : GenerationSummary}
    {v : Workspace} (hmodels : Runs.Run (generateModels rules r.outputDirectory (r.wanted ms) :
      ExceptT GenerationError (StateM Workspace) GenerationSummary)
        ⟨s, (t.placeMap r.outputDirectory text).1⟩ summary v) : released r s t = v.tree := by
  obtain ⟨mapped, hmap, hdone, -⟩ :=
    Release.run_writeMap (m := StateM Workspace) (w := ⟨s, t⟩) ht hs htext
  obtain rfl := hdone hplaced
  have hread := run_of_listed hms
  obtain ⟨_, hgenerate⟩ := run_generate_of_rules _ hrules hread hmap (fun _ => hmodels) nofun
  exact released_eq hgenerate

/-- Two releases with the same rules and paired models. -/
theorem agree_released {r : Request} (archs : List String) {region : Region}
    (ht : t.WellFormed) (hrules : r.rules s' = r.rules s)
    (hs : Separate s r.outputDirectory) (hs' : Separate s' r.outputDirectory)
    (hms : listed r.basePath s t = .ok ms) (hms' : listed r.basePath s' t = .ok ms')
    (hmaps : (∃ text, Release.mapText (r.wanted ms) = .ok text) ↔
      ∃ text, Release.mapText ({ r with archs }.wanted ms') = .ok text)
    (hmap : region.contents (t.destination r.outputDirectory ++ ["mapfile.csv"]) →
      Release.mapText (r.wanted ms) = Release.mapText ({ r with archs }.wanted ms'))
    (hpaired : Paired region t s s' r.outputDirectory (r.wanted ms)
      ({ r with archs }.wanted ms')) :
    Agree region (released r s t) (released { r with archs } s' t) := by
  cases hok : r.rules s with
  | error e =>
    have hok' : Request.rules { r with archs } s' = .error e := hrules.trans hok
    rw [released_of_rules_error hok, released_of_rules_error hok']
    exact .refl region ht
  | ok rules =>
    have hok' : Request.rules { r with archs } s' = .ok rules := hrules.trans hok
    cases htext : Release.mapText (r.wanted ms) with
    | error e =>
      cases htext' : Release.mapText ({ r with archs }.wanted ms') with
      | ok text =>
        obtain ⟨_, hno⟩ := hmaps.2 ⟨text, htext'⟩
        rw [htext] at hno
        cases hno
      | error e' =>
        rw [released_of_mapText_error ht hok hs hms htext,
          released_of_mapText_error ht hok' hs' hms' htext']
        exact .refl region (makeFrom_spec ht (ht.isDirectoryAt_start _) _).1
    | ok text =>
      -- Whether the map can be placed does not depend on its text.
      obtain ⟨text', htext'⟩ := hmaps.1 ⟨text, htext⟩
      rw [htext, htext'] at hmap
      obtain ⟨hsame, hagree⟩ := Agree.placeMap ht r.outputDirectory fun hregion =>
        Except.ok.inj (hmap hregion)
      cases hplaced : (t.placeMap r.outputDirectory text).2 with
      | false =>
        rw [released_of_not_placed ht hok hs hms htext hplaced,
          released_of_not_placed ht hok' hs' hms' htext' (hsame.symm.trans hplaced)]
        exact hagree
      | true =>
        have hworking := (place_spec ht (ht.isDirectoryAt_start r.outputDirectory)
          (Path.steps r.outputDirectory) "mapfile.csv" text.toUTF8).2.1
        have hbeside : Beside region t s s' ⟨s, (t.placeMap r.outputDirectory text).1⟩
            ⟨s', (t.placeMap r.outputDirectory text').1⟩ :=
          ⟨rfl, rfl, hagree, hworking.symm⟩
        obtain ⟨_, _, v, v', hmodels, hmodels', hend⟩ :=
          hpaired.run (m := ExceptT GenerationError (StateM Workspace)) rules hbeside
        rw [released_of_placed ht hok hs hms htext hplaced hmodels,
          released_of_placed ht hok' hs' hms' htext' (hsame.symm.trans hplaced) hmodels']
        exact hend.agree

end Generation

end TopdownMetrics

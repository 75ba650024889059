import TopdownMetrics.Proofs.MapfileModels

/-!
# Models with one long name

The files of a model are written to a directory that is named for its long name.  Rows are
compared with each other within one model only, so two models may get the same long name, and
then the one that is written last takes the place of the other.  They do exactly if rows of
theirs have the same long name up to case.
-/

namespace TopdownMetrics

/-- The rows behind the header of a mapfile. -/
def MapfileRow.ofText (text : String) : List MapfileRow :=
  (Csv.rows text).tail.map ofCells

/-- Rows of different models have different long names, also in lower case. -/
def MapfileRow.DistinctLongnames (rows : List MapfileRow) : Prop :=
  ∀ row ∈ rows, ∀ other ∈ rows, row.shortname ≠ "KNM" → other.shortname ≠ "KNM" →
    Text.lower row.longname = Text.lower other.longname → row.shortname = other.shortname

instance : DecidablePred MapfileRow.DistinctLongnames := fun rows =>
  inferInstanceAs (Decidable (∀ row ∈ rows, ∀ other ∈ rows, row.shortname ≠ "KNM" →
    other.shortname ≠ "KNM" → Text.lower row.longname = Text.lower other.longname →
      row.shortname = other.shortname))

namespace MapfileEntries

variable {entries : MapfileEntries} {base : String} {available : String → Bool}
  {rows : List MapfileRow}

theorem nodup_shortnames_toModels (entries : MapfileEntries) (base : String)
    (available : String → Bool) :
    ((entries.toModels base available).map (·.shortname)).Nodup :=
  (entries.map_shortname_perm base available).nodup_iff.2 Std.TreeMap.nodup_keys

theorem Gathers.exists_row_of_mem (h : entries.Gathers base rows) {m : Model}
    (hm : m ∈ entries.toModels base available) :
    ∃ row ∈ rows, row.shortname ≠ "KNM" ∧ row.shortname = m.shortname ∧
      m.longname = Text.lower row.longname := by
  obtain ⟨shortname, entry, hentry, rfl⟩ := mem_toModels_iff.1 hm
  obtain ⟨hknm, row, hrow, hname⟩ := h.exists_row hentry
  exact ⟨row, hrow, hname ▸ hknm, hname, (h.model hentry).longname row hrow hname⟩

theorem Gathers.exists_model_of_mem (h : entries.Gathers base rows) (available : String → Bool)
    {row : MapfileRow} (hrow : row ∈ rows) (hknm : row.shortname ≠ "KNM") :
    ∃ m ∈ entries.toModels base available, m.shortname = row.shortname ∧
      m.longname = Text.lower row.longname := by
  have hmem : row.shortname ∈ entries.models := (h.mem_models _).2 ⟨hknm, row, hrow, rfl⟩
  obtain ⟨entry, hentry⟩ :=
    Option.isSome_iff_exists.1 (Std.TreeMap.mem_iff_isSome_getElem?.1 hmem)
  exact ⟨_, mem_toModels_iff.2 ⟨_, entry, hentry, rfl⟩, rfl,
    (h.model hentry).longname row hrow rfl⟩

theorem Gathers.nodup_longnames (h : entries.Gathers base rows) :
    ((entries.toModels base available).map (·.longname)).Nodup ↔
      MapfileRow.DistinctLongnames rows := by
  have hshortnames := entries.nodup_shortnames_toModels base available
  constructor
  · intro hnodup row hrow other hother hknm hknm' hlongname
    obtain ⟨m, hm, hname, hlower⟩ := h.exists_model_of_mem available hrow hknm
    obtain ⟨m', hm', hname', hlower'⟩ := h.exists_model_of_mem available hother hknm'
    have hsame : m = m' := List.inj_on_of_nodup_map hnodup hm hm'
      (hlower.trans (hlongname.trans hlower'.symm))
    rw [← hname, ← hname', hsame]
  · intro hdistinct
    refine List.Nodup.map_on ?_ (List.Nodup.of_map _ hshortnames)
    intro m hm m' hm' hlongname
    obtain ⟨row, hrow, hknm, hname, hlower⟩ := h.exists_row_of_mem hm
    obtain ⟨other, hother, hknm', hname', hlower'⟩ := h.exists_row_of_mem hm'
    have hsame : row.shortname = other.shortname :=
      hdistinct row hrow other hother hknm hknm' (hlower.symm.trans (hlongname.trans hlower'))
    exact List.inj_on_of_nodup_map hshortnames hm hm' (hname.symm.trans (hsame.trans hname'))

end MapfileEntries

namespace Model

variable {text base : String} {available : String → Bool} {ms : List Model}

theorem exists_entries_of_listOfMapfile (h : listOfMapfile text base available = .ok ms) :
    ∃ entries : MapfileEntries, entries.Gathers base (MapfileRow.ofText text) ∧
      entries.toModels base available = ms := by
  cases htext : Csv.rows text with
  | nil => simp [listOfMapfile, MapfileEntries.ofText, htext, Except.map] at h
  | cons header rows =>
    cases hheader : MapfileEntries.checkHeader header with
    | error e =>
      simp [listOfMapfile, MapfileEntries.ofText, htext, hheader, Except.map, bind,
        Except.bind] at h
    | ok =>
      obtain ⟨entries, hentries, hmodels⟩ := (listOfMapfile_eq_ok_iff htext hheader).1 h
      refine ⟨entries, ?_, hmodels⟩
      rw [MapfileRow.ofText, htext]
      exact (MapfileEntries.gathers_ofRows base _).2 entries hentries

/-- The models of a mapfile have directories of their own exactly if rows of different models
have different long names, also in lower case. -/
theorem nodup_longnames_iff (h : listOfMapfile text base available = .ok ms) :
    (ms.map (·.longname)).Nodup ↔ MapfileRow.DistinctLongnames (MapfileRow.ofText text) := by
  obtain ⟨entries, hgathers, rfl⟩ := exists_entries_of_listOfMapfile h
  exact hgathers.nodup_longnames

/-- A mapfile with two models, the second one with the given long name. -/
def pairText (longname : String) : String :=
  "Family-model,Version,Filename,EventType,Core Type,Native Model ID,Core Role Name\n" ++
    "6-4E,V57,/SKL/events/skylake_core.json,core\n" ++
    "6-55,V1,/SKX/events/" ++ longname ++ "_core.json,core\n"

def pairCells (longname : String) : List (List String) :=
  [["6-4E", "V57", "/SKL/events/skylake_core.json", "core"],
    ["6-55", "V1", "/SKX/events/" ++ longname ++ "_core.json", "core"]]

theorem exists_listOfMapfile_pairText {longname : String}
    (htext : Csv.rows (pairText longname) = mapfileColumns :: pairCells longname)
    (hnames : ((pairCells longname).map MapfileRow.ofCells).Pairwise
      fun row other => row.shortname ≠ other.shortname) :
    ∃ ms, listOfMapfile (pairText longname) "/repo" (fun _ => false) = .ok ms := by
  have hconsistent : MapfileRow.Consistent ((pairCells longname).map MapfileRow.ofCells) := by
    rw [MapfileRow.consistent_iff_pairwise]
    exact hnames.imp fun hne hsame => absurd hsame hne
  obtain ⟨entries, hentries⟩ := (MapfileEntries.gathers_ofRows "/repo" _).1.2 hconsistent
  exact ⟨_, (listOfMapfile_eq_ok_iff htext rfl).2 ⟨entries, hentries, rfl⟩⟩

theorem rows_pairText_skylakex :
    Csv.rows (pairText "skylakex") = mapfileColumns :: pairCells "skylakex" := by
  decide +kernel

theorem rows_pairText_capital :
    Csv.rows (pairText "Skylake") = mapfileColumns :: pairCells "Skylake" := by
  decide +kernel

/-- The long names of Skylake and of its server differ. -/
theorem nodup_longnames_skylake :
    ∃ ms, listOfMapfile (pairText "skylakex") "/repo" (fun _ => false) = .ok ms ∧
      (ms.map (·.longname)).Nodup := by
  obtain ⟨ms, hms⟩ := exists_listOfMapfile_pairText rows_pairText_skylakex (by decide +kernel)
  refine ⟨ms, hms, (nodup_longnames_iff hms).2 ?_⟩
  rw [MapfileRow.ofText, rows_pairText_skylakex]
  decide +kernel

/-- A long name that differs in case only gives both models one directory. -/
theorem not_nodup_longnames_skylake :
    ∃ ms, listOfMapfile (pairText "Skylake") "/repo" (fun _ => false) = .ok ms ∧
      ¬ (ms.map (·.longname)).Nodup := by
  obtain ⟨ms, hms⟩ := exists_listOfMapfile_pairText rows_pairText_capital (by decide +kernel)
  obtain ⟨entries, hgathers, rfl⟩ := exists_entries_of_listOfMapfile hms
  refine ⟨_, hms, fun hnodup => ?_⟩
  have hdistinct := hgathers.nodup_longnames.1 hnodup
  rw [MapfileRow.ofText, rows_pairText_capital] at hdistinct
  revert hdistinct
  decide +kernel

end Model

end TopdownMetrics

import TopdownMetrics.Proofs.PlannedReleases

/-!
# Runs side by side

Two runs write into trees of their own, and a region says where these trees are to stay in
agreement.  A model that both runs write keeps the agreement if the region covers the way to
its directory, and a model that only one of them writes keeps it if its directory lies outside
the region.  Lists of models that are paired in this way leave trees that agree on the region.
-/

namespace TopdownMetrics

open FileTree

namespace FileTree

variable {t u : FileTree} {directory : String} {files : List (String × ByteArray)}
  {r r' : Region}

/-- The locations on the way to what a path leads to. -/
def passes (t : FileTree) (path : String) : List Location :=
  visits (t.start path) (Path.steps path)

/-- What a path leads to. -/
def destination (t : FileTree) (path : String) : Location :=
  (Path.steps path).foldl advance (t.start path)

theorem destination_mem_passes (t : FileTree) (path : String) :
    t.destination path ∈ t.passes path :=
  foldl_advance_mem_visits _ _

theorem start_congr_workingDirectory (h : t.workingDirectory = u.workingDirectory)
    (path : String) : t.start path = u.start path := by
  unfold FileTree.start
  rw [h]

theorem passes_congr (h : t.workingDirectory = u.workingDirectory) (path : String) :
    t.passes path = u.passes path := by
  unfold passes
  rw [start_congr_workingDirectory h]

theorem destination_congr (h : t.workingDirectory = u.workingDirectory) (path : String) :
    t.destination path = u.destination path := by
  unfold destination
  rw [start_congr_workingDirectory h]

/-- The way to a directory and the places of the files of a model in it belong to a region. -/
structure Region.Covers (r : Region) (t : FileTree) (directory : String) : Prop where
  files : ∀ there ∈ t.passes directory, r.files there
  directories : ∀ name, IsModelFile name → r.directories (t.destination directory ++ [name])

/-- The way to a directory and the places of the files of a model in it lie outside a
region. -/
structure Region.Avoids (r : Region) (t : FileTree) (directory : String) : Prop where
  directories : ∀ there ∈ t.passes directory, ¬ r.directories there
  files : ∀ name, IsModelFile name → ¬ r.contents (t.destination directory ++ [name]) ∧
    ¬ r.files (t.destination directory ++ [name])

theorem Region.Covers.congr (hr : r.Covers t directory)
    (h : t.workingDirectory = u.workingDirectory) : r.Covers u directory := by
  obtain ⟨hfiles, hdirectories⟩ := hr
  rw [passes_congr h] at hfiles
  rw [destination_congr h] at hdirectories
  exact ⟨hfiles, hdirectories⟩

theorem Region.Avoids.congr (hr : r.Avoids t directory)
    (h : t.workingDirectory = u.workingDirectory) : r.Avoids u directory := by
  obtain ⟨hdirectories, hfiles⟩ := hr
  rw [passes_congr h] at hdirectories
  rw [destination_congr h] at hfiles
  exact ⟨hdirectories, hfiles⟩

theorem Agree.placeIn (h : Agree r t u) (hr : r.Covers t directory)
    (hfiles : ∀ file ∈ files, IsModelFile file.1) :
    Agree r (t.placeIn directory files).1 (u.placeIn directory files).1 := by
  have hstart := start_congr_workingDirectory h.workingDirectory directory
  unfold FileTree.placeIn
  rw [← hstart]
  refine h.placeAll (h.left.isDirectoryAt_start directory) ?_ hr.files fun file hfile =>
    hr.directories _ (hfiles file hfile)
  rw [hstart]
  exact h.right.isDirectoryAt_start directory

theorem Agree.placeIn_left (h : Agree r t u) (hr : r.Avoids t directory)
    (hfiles : ∀ file ∈ files, IsModelFile file.1) :
    Agree r (t.placeIn directory files).1 u :=
  h.placeAll_left (h.left.isDirectoryAt_start directory) hr.directories fun file hfile =>
    hr.files _ (hfiles file hfile)

theorem Agree.mono (h : Agree r t u) (hcontents : ∀ there, r'.contents there → r.contents there)
    (hfiles : ∀ there, r'.files there → r.files there)
    (hdirectories : ∀ there, r'.directories there → r.directories there) : Agree r' t u where
  left := h.left
  right := h.right
  workingDirectory := h.workingDirectory
  contents there hr := h.contents there (hcontents there hr)
  files there hr := h.files there (hfiles there hr)
  directories there hr := h.directories there (hdirectories there hr)

end FileTree

/-! ## Regions of a directory -/

namespace FileTree

variable {t : FileTree} {directory other : String} {front : Location}

/-- The way to another directory stays out of a directory. -/
def StaysOut (t : FileTree) (directory other : String) : Prop :=
  ∀ there ∈ t.passes other, ¬ t.destination directory <+: there

instance : Decidable (t.StaysOut directory other) :=
  inferInstanceAs (Decidable (∀ there ∈ t.passes other, ¬ t.destination directory <+: there))

/-- Everything but what the directory holds; but the map, wherever it is. -/
def Region.outside (t : FileTree) (directory : String) (front : Location) : Region where
  contents there := ¬ t.destination directory <+: there ∨ there = front ++ ["mapfile.csv"]
  files there := ¬ t.destination directory <+: there
  directories there := ¬ t.destination directory <+: there ∧ there ∉ t.passes directory

/-- What the directory holds but for the map, and the way to it. -/
def Region.inside (t : FileTree) (directory : String) (front : Location) : Region where
  contents there := t.destination directory <+: there ∧ there ≠ front ++ ["mapfile.csv"]
  files there := there ∈ t.passes directory
  directories there := t.destination directory <+: there

theorem StaysOut.not_prefix_destination (h : t.StaysOut directory other) :
    ¬ t.destination directory <+: t.destination other :=
  h _ (destination_mem_passes t other)

theorem StaysOut.not_prefix_concat (h : t.StaysOut directory other)
    (h' : t.StaysOut other directory) (name : String) :
    ¬ t.destination directory <+: t.destination other ++ [name] := by
  rw [List.prefix_concat_iff, not_or]
  refine ⟨fun heq => h'.not_prefix_destination ?_, h.not_prefix_destination⟩
  rw [heq]
  exact List.prefix_append _ _

theorem StaysOut.concat_notMem_passes (h : t.StaysOut directory other) (name : String) :
    t.destination directory ++ [name] ∉ t.passes other :=
  fun hmem => h _ hmem (List.prefix_append _ _)

theorem Region.outside_covers (h : t.StaysOut directory other) (h' : t.StaysOut other directory) :
    (outside t directory front).Covers t other where
  files := h
  directories name _ := ⟨h.not_prefix_concat h' name, h'.concat_notMem_passes name⟩

theorem Region.outside_avoids (t : FileTree) (directory : String) (front : Location) :
    (outside t directory front).Avoids t directory where
  directories _ hpasses hregion := hregion.2 hpasses
  files name hname := by
    have hprefix := List.prefix_append (t.destination directory) [name]
    refine ⟨fun hcontents => ?_, fun hfiles => hfiles hprefix⟩
    rcases hcontents with hout | hmap
    · exact hout hprefix
    · exact hname.ne_map (List.singleton_inj.1 (List.append_inj' hmap rfl).2)

theorem Region.inside_covers (t : FileTree) (directory : String) (front : Location) :
    (inside t directory front).Covers t directory where
  files _ hpasses := hpasses
  directories name _ := List.prefix_append _ [name]

theorem Region.inside_avoids (h : t.StaysOut directory other) (h' : t.StaysOut other directory) :
    (inside t directory front).Avoids t other where
  directories := h
  files name _ := ⟨fun hcontents => h.not_prefix_concat h' name hcontents.1,
    h'.concat_notMem_passes name⟩

end FileTree

/-! ## Steps of two runs -/

/-- Two workspaces with given sources whose trees agree on a region; paths start in both where
they start in the given tree. -/
structure Beside (r : Region) (t : FileTree) (s s' : Sources) (w w' : Workspace) : Prop where
  left : w.sources = s
  right : w'.sources = s'
  agree : Agree r w.tree w'.tree
  workingDirectory : t.workingDirectory = w.tree.workingDirectory

section

variable {m : Type → Type} [Monad m] [FileAccess m] [Runs m] {ε α : Type} {r : Region}
  {t : FileTree} {s s' : Sources} {w w' : Workspace} {reads : String → Prop}
  {directory : String} {x : ExceptT ε m α}

namespace Beside

theorem symm (h : Beside r t s s' w w') : Beside r t s' s w' w :=
  ⟨h.right, h.left, h.agree.symm, h.workingDirectory.trans h.agree.workingDirectory⟩

theorem both (h : Beside r t s s' w w') (hx : Releases s reads directory x)
    (hsame : ∀ path, reads path → s'[path]? = s[path]?) (hs : Separate s directory)
    (hs' : Separate s' directory) (hr : r.Covers t directory) :
    ∃ o o' v v', Runs.Run x.run w o v ∧ Runs.Run x.run w' o' v' ∧ Beside r t s s' v v' := by
  obtain ⟨files, _, hfiles, hrun⟩ := hx
  obtain ⟨rfl, rfl, hagree, hstart⟩ := h
  obtain ⟨o, hleft, -⟩ := hrun w ⟨hagree.left, hs, fun _ _ => rfl⟩
  obtain ⟨o', hright, -⟩ := hrun w' ⟨hagree.right, hs', hsame⟩
  exact ⟨o, o', _, _, hleft, hright, rfl, rfl, hagree.placeIn (hr.congr hstart) hfiles,
    hstart.trans (placeIn_spec hagree.left directory files).2.symm⟩

theorem onlyLeft (h : Beside r t s s' w w') (hx : Releases s reads directory x)
    (hs : Separate s directory) (hr : r.Avoids t directory) :
    ∃ o v, Runs.Run x.run w o v ∧ Beside r t s s' v w' := by
  obtain ⟨files, _, hfiles, hrun⟩ := hx
  obtain ⟨rfl, rfl, hagree, hstart⟩ := h
  obtain ⟨o, hleft, -⟩ := hrun w ⟨hagree.left, hs, fun _ _ => rfl⟩
  exact ⟨o, _, hleft, rfl, rfl, hagree.placeIn_left (hr.congr hstart) hfiles,
    hstart.trans (placeIn_spec hagree.left directory files).2.symm⟩

end Beside

/-! ## Lists of models -/

/-- A model that both runs write, from the same sources and into a directory that the region
covers. -/
structure Model.IsShared (model : Model) (r : Region) (t : FileTree) (s s' : Sources)
    (outputDirectory : String) : Prop where
  shortname : '/' ∉ model.shortname.toList
  left : Separate s (Path.join outputDirectory model.longname)
  right : Separate s' (Path.join outputDirectory model.longname)
  sources : ∀ path, model.Reads path → s'[path]? = s[path]?
  covers : r.Covers t (Path.join outputDirectory model.longname)

/-- A model that is written from the given sources, outside the region. -/
structure Model.IsAside (model : Model) (r : Region) (t : FileTree) (s : Sources)
    (outputDirectory : String) : Prop where
  shortname : '/' ∉ model.shortname.toList
  separate : Separate s (Path.join outputDirectory model.longname)
  avoids : r.Avoids t (Path.join outputDirectory model.longname)

/-- The models of two runs: those that both write, and between them others, which one run
writes alone. -/
inductive Paired (r : Region) (t : FileTree) (s s' : Sources) (outputDirectory : String) :
    List Model → List Model → Prop where
  | nil : Paired r t s s' outputDirectory [] []
  | both {model : Model} {ms ms' : List Model}
      (hmodel : model.IsShared r t s s' outputDirectory)
      (h : Paired r t s s' outputDirectory ms ms') :
      Paired r t s s' outputDirectory (model :: ms) (model :: ms')
  | left {model : Model} {ms ms' : List Model} (hmodel : model.IsAside r t s outputDirectory)
      (h : Paired r t s s' outputDirectory ms ms') :
      Paired r t s s' outputDirectory (model :: ms) ms'
  | right {model : Model} {ms ms' : List Model} (hmodel : model.IsAside r t s' outputDirectory)
      (h : Paired r t s s' outputDirectory ms ms') :
      Paired r t s s' outputDirectory ms (model :: ms')

theorem Paired.map {α : Type} {outputDirectory : String} {f f' : α → Model} {as : List α}
    (h : ∀ a ∈ as, f a = f' a ∧ (f a).IsShared r t s s' outputDirectory ∨
      (f a).IsAside r t s outputDirectory ∧ (f' a).IsAside r t s' outputDirectory) :
    Paired r t s s' outputDirectory (as.map f) (as.map f') := by
  induction as with
  | nil => exact .nil
  | cons a as ih =>
    have hrest := ih fun a ha => h a (List.mem_cons_of_mem _ ha)
    rw [List.map_cons, List.map_cons]
    rcases h a List.mem_cons_self with ⟨hsame, hshared⟩ | ⟨hleft, hright⟩
    · rw [← hsame]
      exact .both hshared hrest
    · exact .left hleft (.right hright hrest)

theorem Paired.filter {outputDirectory : String} {p : Model → Bool} {ms : List Model}
    (h : ∀ model ∈ ms, p model = true ∧ model.IsShared r t s s outputDirectory ∨
      model.IsAside r t s outputDirectory) :
    Paired r t s s outputDirectory (ms.filter p) ms := by
  induction ms with
  | nil => exact .nil
  | cons model ms ih =>
    have hrest := ih fun other hother => h other (List.mem_cons_of_mem _ hother)
    rcases h model List.mem_cons_self with ⟨hp, hshared⟩ | haside
    · rw [List.filter_cons_of_pos hp]
      exact .both hshared hrest
    · rw [List.filter_cons]
      split
      · exact .left haside (.right haside hrest)
      · exact .right haside hrest

theorem Runs.generateModels_cons {rules : Rules} {outputDirectory : String} {model : Model}
    {ms : List Model} {outcome : Except ModelFailure ModelCounts} {summary : GenerationSummary}
    {v u : Workspace}
    (hfirst : Runs.Run (Generation.generateModel rules outputDirectory model :
      ExceptT ModelFailure m ModelCounts).run w outcome v)
    (hrest : Runs.Run (Generation.generateModels rules outputDirectory ms : m _) v summary u) :
    Runs.Run (Generation.generateModels rules outputDirectory (model :: ms) : m _) w
      (summary.add model.shortname outcome) u :=
  Runs.bind hfirst (Runs.bind hrest (Runs.pure _ _))

/-- Runs over paired models leave trees that agree on the region. -/
theorem Paired.run [LawfulMonad m] {outputDirectory : String} {ms ms' : List Model}
    (h : Paired r t s s' outputDirectory ms ms') (rules : Rules)
    (hw : Beside r t s s' w w') :
    ∃ o o' v v',
      Runs.Run (Generation.generateModels rules outputDirectory ms : m GenerationSummary) w o v ∧
      Runs.Run (Generation.generateModels rules outputDirectory ms' : m GenerationSummary) w' o' v' ∧
      Beside r t s s' v v' := by
  -- The induction is on the pairing; it carries that the trees agree on the region.
  induction h generalizing w w' with
  | nil => exact ⟨{}, {}, w, w', Runs.pure _ _, Runs.pure _ _, hw⟩
  | both hmodel _ ih =>
    have hx := Generation.releases_generateModel (m := m) (s := s) rules outputDirectory
      hmodel.shortname fun _ hreads => hreads
    obtain ⟨_, _, _, _, hleft, hright, hbeside⟩ :=
      hw.both hx hmodel.sources hmodel.left hmodel.right hmodel.covers
    obtain ⟨_, _, v, v', hrest, hrest', hend⟩ := ih hbeside
    exact ⟨_, _, v, v', Runs.generateModels_cons hleft hrest,
      Runs.generateModels_cons hright hrest', hend⟩
  | left hmodel _ ih =>
    have hx := Generation.releases_generateModel (m := m) (s := s) rules outputDirectory
      hmodel.shortname fun _ hreads => hreads
    obtain ⟨_, _, hleft, hbeside⟩ := hw.onlyLeft hx hmodel.separate hmodel.avoids
    obtain ⟨_, _, v, v', hrest, hrest', hend⟩ := ih hbeside
    exact ⟨_, _, v, v', Runs.generateModels_cons hleft hrest, hrest', hend⟩
  | right hmodel _ ih =>
    have hx := Generation.releases_generateModel (m := m) (s := s') rules outputDirectory
      hmodel.shortname fun _ hreads => hreads
    obtain ⟨_, _, hright, hbeside⟩ := hw.symm.onlyLeft hx hmodel.separate hmodel.avoids
    obtain ⟨_, _, v, v', hrest, hrest', hend⟩ := ih hbeside.symm
    exact ⟨_, _, v, v', hrest, Runs.generateModels_cons hright hrest', hend⟩

end

end TopdownMetrics

import TopdownMetrics.Generation.Generate
import TopdownMetrics.Proofs.ReleaseNames
import TopdownMetrics.Proofs.SeparateSources

/-!
# The plan of a model

What is written for a model is settled by the sources it reads: there is a list of files, in
the directory of the model, which are placed one after the other up to the first that cannot
be placed.  The tree only decides how far the list gets.  A model that fails for another reason
has a shorter list.
-/

namespace TopdownMetrics

open FileTree

abbrev Sources : Type := Std.TreeMap String ByteArray

/-- The workspace offers the given sources at the paths that are read, and a directory can be
written to without touching a source. -/
structure Workspace.Offers (w : Workspace) (s : Sources) (reads : String → Prop)
    (directory : String) : Prop where
  wellFormed : w.tree.WellFormed
  separate : Separate w.sources directory
  sources : ∀ path, reads path → w.sources[path]? = s[path]?

/-- The tree after the files of a directory are placed, and whether all are. -/
def FileTree.placeIn (t : FileTree) (directory : String) (files : List (String × ByteArray)) :
    FileTree × Bool :=
  t.placeAll (t.start directory) (Path.steps directory) files

namespace FileTree

variable {t : FileTree} {directory : String} {files more : List (String × ByteArray)}

theorem placeAll_append (t : FileTree) (here : Location) (parts : List String)
    (files more : List (String × ByteArray)) : t.placeAll here parts (files ++ more) =
      if (t.placeAll here parts files).2 then
        (t.placeAll here parts files).1.placeAll here parts more
      else ((t.placeAll here parts files).1, false) := by
  induction files generalizing t with
  | nil => rfl
  | cons file files ih =>
    rw [List.cons_append, placeAll, placeAll]
    dsimp only
    split
    · exact ih _
    · rfl

theorem placeAll_spec {here : Location} (ht : t.WellFormed) (hhere : t.isDirectoryAt here = true)
    (parts : List String) (files : List (String × ByteArray)) :
    (t.placeAll here parts files).1.WellFormed ∧
      (t.placeAll here parts files).1.workingDirectory = t.workingDirectory := by
  induction files generalizing t with
  | nil => exact ⟨ht, rfl⟩
  | cons file files ih =>
    obtain ⟨hwell, hworking, hkept⟩ := place_spec ht hhere parts file.1 file.2
    unfold placeAll
    dsimp only
    split
    · obtain ⟨hwell, hlater⟩ := ih hwell hkept
      exact ⟨hwell, hlater.trans hworking⟩
    · exact ⟨hwell, hworking⟩

theorem placeIn_spec (ht : t.WellFormed) (directory : String)
    (files : List (String × ByteArray)) :
    (t.placeIn directory files).1.WellFormed ∧
      (t.placeIn directory files).1.workingDirectory = t.workingDirectory :=
  placeAll_spec ht (ht.isDirectoryAt_start directory) _ files

theorem start_placeIn (ht : t.WellFormed) (directory : String)
    (files : List (String × ByteArray)) (path : String) :
    (t.placeIn directory files).1.start path = t.start path := by
  unfold FileTree.start
  rw [(placeIn_spec ht directory files).2]

theorem placeIn_append (ht : t.WellFormed) (directory : String)
    (files more : List (String × ByteArray)) : t.placeIn directory (files ++ more) =
      if (t.placeIn directory files).2 then (t.placeIn directory files).1.placeIn directory more
      else ((t.placeIn directory files).1, false) := by
  have happend := placeAll_append t (t.start directory) (Path.steps directory) files more
  have hstart := start_placeIn ht directory files directory
  unfold placeIn at hstart ⊢
  rw [happend, hstart]

end FileTree

section

variable {m : Type → Type} [Monad m] [FileAccess m] [Runs m] {ε ε' α β : Type}
  {s : Sources} {reads : String → Prop} {directory : String}

theorem Workspace.Offers.placeIn {w : Workspace} (h : w.Offers s reads directory)
    (files : List (String × ByteArray)) :
    Workspace.Offers { w with tree := (w.tree.placeIn directory files).1 } s reads directory :=
  ⟨(placeIn_spec h.wellFormed directory files).1, h.separate, h.sources⟩

/-! ## Reading -/

/-- A computation that only reads: it has one result for all workspaces with the same sources
and leaves them as they are. -/
def Returns (s : Sources) (reads : String → Prop) (directory : String) (x : ExceptT ε m α)
    (post : α → Prop) : Prop :=
  ∃ r : Except ε α, (∀ a, r = .ok a → post a) ∧
    ∀ w : Workspace, w.Offers s reads directory → Runs.Run x.run w r w

namespace Returns

variable {x : ExceptT ε m α} {f : α → ExceptT ε m β} {post : α → Prop} {after : β → Prop}

theorem pure {a : α} (h : post a) :
    Returns s reads directory (Pure.pure a : ExceptT ε m α) post :=
  ⟨.ok a, fun _ heq => Except.ok.inj heq ▸ h, fun w _ => Runs.pure _ w⟩

theorem throw (e : ε) : Returns s reads directory (throw e : ExceptT ε m α) post :=
  ⟨.error e, by simp, fun w _ => Runs.run_throw e w⟩

theorem bind (hx : Returns s reads directory x post)
    (hf : ∀ a, post a → Returns s reads directory (f a) after) :
    Returns s reads directory (x >>= f) after := by
  obtain ⟨r, hpost, hrun⟩ := hx
  cases r with
  | error e => exact ⟨.error e, by simp, fun w hw => Runs.bind_error (hrun w hw)⟩
  | ok a =>
    obtain ⟨r, hafter, hlater⟩ := hf a (hpost a rfl)
    exact ⟨r, hafter, fun w hw => Runs.bind_ok (hrun w hw) (hlater w hw)⟩

theorem foldlM {f : β → α → ExceptT ε m β} {as : List α} {b : β} (hb : after b)
    (hf : ∀ b, after b → ∀ a ∈ as, Returns s reads directory (f b a) after) :
    Returns s reads directory (as.foldlM f b) after := by
  induction as generalizing b with
  | nil => exact pure hb
  | cons a as ih =>
    rw [List.foldlM_cons]
    refine bind (hf b hb a List.mem_cons_self) fun b hb => ih hb ?_
    exact fun b hb a ha => hf b hb a (List.mem_cons_of_mem _ ha)

theorem mapM [LawfulMonad m] {f : α → ExceptT ε m β} {as : List α}
    (hf : ∀ a ∈ as, Returns s reads directory (f a) fun _ => True) :
    Returns s reads directory (as.mapM f) fun _ => True := by
  induction as with
  | nil => exact pure trivial
  | cons a as ih =>
    rw [List.mapM_cons]
    refine bind (hf a List.mem_cons_self) fun b _ => bind (ih ?_) fun bs _ => pure trivial
    exact fun a ha => hf a (List.mem_cons_of_mem _ ha)

end Returns

theorem Source.run_read (source : String) (w : Workspace) :
    Runs.Run (Source.read source : m (Except SourceError String)) w
      (Source.decode source w.sources[Source.path source]?) w :=
  Runs.bind (Runs.read? _ w) (Runs.pure _ w)

theorem Returns.readSource {url : String} (hreads : reads (Source.path url)) :
    Returns s reads directory (Generation.readSource url : ExceptT ModelFailure m String)
      fun _ => True := by
  refine ⟨(Source.decode url s[Source.path url]?).mapError .source, fun _ _ => trivial, ?_⟩
  intro w hw
  have hread := Source.run_read (m := m) url w
  rw [hw.sources _ hreads] at hread
  exact Runs.bind hread (Runs.pure _ w)

theorem Returns.read {url : String} (hreads : reads (Source.path url)) :
    Returns s reads directory (Source.read url : ExceptT ε m (Except SourceError String))
      fun _ => True := by
  refine ⟨.ok (Source.decode url s[Source.path url]?), fun _ _ => trivial, ?_⟩
  intro w hw
  have hread := Source.run_read (m := ExceptT ε m) url w
  rw [hw.sources _ hreads] at hread
  exact hread

theorem Returns.liftM_read {url : String} (hreads : reads (Source.path url)) :
    Returns s reads directory (liftM (Source.read url : m (Except SourceError String)) :
      ExceptT ε m (Except SourceError String)) fun _ => True := by
  refine ⟨.ok (Source.decode url s[Source.path url]?), fun _ _ => trivial, ?_⟩
  intro w hw
  have hread := Source.run_read (m := m) url w
  rw [hw.sources _ hreads] at hread
  exact Runs.map Except.ok hread

/-! ## Writing -/

/-- A computation that reads and writes: for all workspaces with the same sources it places the
same files in the directory up to the first that cannot be placed.  Then it fails, and
otherwise it has one result. -/
def Releases (s : Sources) (reads : String → Prop) (directory : String) (x : ExceptT ε m α) :
    Prop :=
  ∃ (files : List (String × ByteArray)) (r : Except ε α), (∀ file ∈ files, IsModelFile file.1) ∧
    ∀ w : Workspace, w.Offers s reads directory →
      ∃ outcome, Runs.Run x.run w outcome
          { w with tree := (w.tree.placeIn directory files).1 } ∧
        ((w.tree.placeIn directory files).2 = true → outcome = r) ∧
        ((w.tree.placeIn directory files).2 = false → ∃ e, outcome = .error e)

namespace Releases

variable {x : ExceptT ε m α} {f : α → ExceptT ε m β} {post : α → Prop}

theorem of_returns (hx : Returns s reads directory x post) : Releases s reads directory x := by
  obtain ⟨r, -, hrun⟩ := hx
  refine ⟨[], r, by simp, fun w hw => ⟨r, hrun w hw, fun _ => rfl, ?_⟩⟩
  simp [placeIn, placeAll]

theorem pure (a : α) : Releases s reads directory (Pure.pure a : ExceptT ε m α) := by
  have hreturns : Returns s reads directory (Pure.pure a : ExceptT ε m α) fun _ => True :=
    Returns.pure trivial
  exact of_returns hreturns

theorem bind_returns (hx : Returns s reads directory x post)
    (hf : ∀ a, post a → Releases s reads directory (f a)) :
    Releases s reads directory (x >>= f) := by
  obtain ⟨r, hpost, hrun⟩ := hx
  cases r with
  | error e =>
    have hfails : Returns s reads directory (x >>= f) fun _ => True :=
      ⟨.error e, by simp, fun w hw => Runs.bind_error (hrun w hw)⟩
    exact of_returns hfails
  | ok a =>
    obtain ⟨files, r, hfiles, hlater⟩ := hf a (hpost a rfl)
    refine ⟨files, r, hfiles, fun w hw => ?_⟩
    obtain ⟨outcome, hrest, houtcome⟩ := hlater w hw
    exact ⟨outcome, Runs.bind_ok (hrun w hw) hrest, houtcome⟩

theorem bind (hx : Releases s reads directory x)
    (hf : ∀ a, Releases s reads directory (f a)) : Releases s reads directory (x >>= f) := by
  obtain ⟨files, r, hfiles, hrun⟩ := hx
  cases r with
  | error e =>
    refine ⟨files, .error e, hfiles, fun w hw => ?_⟩
    obtain ⟨outcome, hfirst, hplaced, hfailed⟩ := hrun w hw
    cases hok : (w.tree.placeIn directory files).2 with
    | true =>
      rw [hplaced hok] at hfirst
      exact ⟨.error e, Runs.bind_error hfirst, by simp⟩
    | false =>
      obtain ⟨e, rfl⟩ := hfailed hok
      exact ⟨.error e, Runs.bind_error hfirst, by simp⟩
  | ok a =>
    obtain ⟨more, r, hmore, hlater⟩ := hf a
    refine ⟨files ++ more, r, fun file hfile => ?_, fun w hw => ?_⟩
    · exact (List.mem_append.1 hfile).elim (hfiles file) (hmore file)
    · obtain ⟨outcome, hfirst, hplaced, hfailed⟩ := hrun w hw
      rw [placeIn_append hw.wellFormed]
      cases hok : (w.tree.placeIn directory files).2 with
      | true =>
        rw [hplaced hok] at hfirst
        obtain ⟨outcome, hrest, houtcome⟩ := hlater _ (hw.placeIn files)
        exact ⟨outcome, Runs.bind_ok hfirst hrest, houtcome⟩
      | false =>
        obtain ⟨e, rfl⟩ := hfailed hok
        exact ⟨.error e, Runs.bind_error hfirst, by simp⟩

theorem adapt (hx : Releases s reads directory x) (f : ε → ε') :
    Releases s reads directory (x.adapt f) := by
  obtain ⟨files, r, hfiles, hrun⟩ := hx
  refine ⟨files, r.mapError f, hfiles, fun w hw => ?_⟩
  obtain ⟨outcome, hfirst, hplaced, hfailed⟩ := hrun w hw
  refine ⟨outcome.mapError f, Runs.adapt f hfirst, fun hok => by rw [hplaced hok], fun hok => ?_⟩
  obtain ⟨e, rfl⟩ := hfailed hok
  exact ⟨f e, rfl⟩

theorem writeText {name : String} (hname : IsModelFile name) (text : String) :
    Releases s reads directory
      (Release.writeText (Path.join directory name) text : ExceptT OutputError m Unit) := by
  refine ⟨[(name, text.toUTF8)], .ok (), by simpa using hname, fun w hw => ?_⟩
  obtain ⟨outcome, hrun, hplaced, hfailed⟩ :=
    Release.run_writeText (m := m) hw.wellFormed hname.toIsFileName hw.separate text
  have hplace : w.tree.placeIn directory [(name, text.toUTF8)] =
      w.tree.place (w.tree.start directory) (Path.steps directory) name text.toUTF8 := by
    simp only [placeIn, placeAll]
    split
    · rename_i hok
      rw [← hok]
    · rename_i hok
      rw [Bool.not_eq_true] at hok
      rw [← hok]
  rw [hplace]
  exact ⟨outcome, hrun, hplaced, hfailed⟩

end Releases

/-! ## The files of a model -/

/-- The model has a file at the path. -/
def Model.Reads (model : Model) (path : String) : Prop :=
  ∃ kind url : String, model.files[kind]? = some url ∧ Source.path url = path

namespace Generation

variable {model : Model}

theorem returns_addEventFile {store : EventStore} {file : String × String}
    (hfile : reads (Source.path file.2)) (hstore : store.HasTopics) :
    Returns s reads directory (addEventFile model store file : ExceptT ModelFailure m EventStore)
      EventStore.HasTopics := by
  unfold addEventFile
  refine (Returns.readSource hfile).bind fun text _ => ?_
  cases hadded : store.addFile? file.1 text model.isHybrid with
  | none => exact Returns.throw _
  | some added => exact Returns.pure (hstore.addFile? hadded)

theorem returns_readEvents (hreads : ∀ path, model.Reads path → reads path) :
    Returns s reads directory (readEvents model : ExceptT ModelFailure m EventStore)
      EventStore.HasTopics := by
  have hfiles : ∀ file ∈ eventFiles model, reads (Source.path file.2) := by
    intro file hfile
    obtain ⟨kind, _, hkind⟩ := List.mem_filterMap.1 hfile
    obtain ⟨url, hurl, rfl⟩ := Option.map_eq_some_iff.1 hkind
    exact hreads _ ⟨kind, url, hurl, rfl⟩
  unfold readEvents
  refine Returns.bind (Returns.foldlM .empty fun store hstore file hfile =>
    returns_addEventFile (hfiles file hfile) hstore) fun store hstore => ?_
  cases hurl : model.files[AuxiliaryFile.uncoreRewrites.kind]? with
  | none => exact Returns.pure hstore
  | some url =>
    refine (Returns.liftM_read (hreads _ ⟨_, url, hurl, rfl⟩)).bind fun result _ => ?_
    cases result with
    | error e => exact Returns.pure hstore
    | ok text => exact Returns.pure (hstore.applyUncoreRows _)

theorem returns_readExtraMetrics (hreads : ∀ path, model.Reads path → reads path) :
    Returns s reads directory (readExtraMetrics model : ExceptT ε m (List ExtraMetric))
      fun _ => True := by
  unfold readExtraMetrics
  cases hurl : model.files[AuxiliaryFile.extraMetrics.kind]? with
  | none => exact Returns.pure trivial
  | some url =>
    refine (Returns.read (hreads _ ⟨_, url, hurl, rfl⟩)).bind fun result _ => ?_
    cases result with
    | error e => exact Returns.pure trivial
    | ok text => exact Returns.pure trivial

theorem returns_readTables [LawfulMonad m] (hreads : ∀ path, model.Reads path → reads path) :
    Returns s reads directory (readTables model : ExceptT ModelFailure m _) fun _ => True := by
  refine Returns.mapM fun table htable => ?_
  have hurl : reads (Source.path table.url) := by
    obtain ⟨⟨file, pmu⟩, _, hfile⟩ := List.mem_filterMap.1 htable
    obtain ⟨url, hurl, rfl⟩ := Option.map_eq_some_iff.1 hfile
    exact hreads _ ⟨_, url, hurl, rfl⟩
  exact (Returns.readSource hurl).bind fun text _ => Returns.pure trivial

theorem releases_writeEvents {topics : List (String × List EventRecord)}
    (htopics : ∀ topic ∈ topics, topic.1 ∈ Topic.all) :
    Releases s reads directory
      (Release.writeEvents directory topics : ExceptT OutputError m Nat) := by
  have hloop : Releases s reads directory
      (forIn topics PUnit.unit fun topic _ => do
        Release.writeJson (Path.join directory (topicFileName topic.1))
          (Release.recordsJson topic.2)
        pure (ForInStep.yield PUnit.unit) : ExceptT OutputError m PUnit) := by
    induction topics with
    | nil => exact Releases.pure _
    | cons topic topics ih =>
      rw [List.forIn_cons]
      have hname := isModelFile_topicFileName (htopics topic List.mem_cons_self)
      refine Releases.bind (Releases.bind (Releases.writeText hname _) fun _ =>
        Releases.pure _) fun step => ?_
      cases step with
      | done => exact Releases.pure _
      | yield => exact ih fun topic htopic => htopics topic (List.mem_cons_of_mem _ htopic)
  exact Releases.bind hloop fun _ => Releases.pure _

/-- The sources that a model reads settle what is written for it. -/
theorem releases_generateModel [LawfulMonad m] (rules : Rules) (outputDirectory : String)
    (hname : '/' ∉ model.shortname.toList) (hreads : ∀ path, model.Reads path → reads path) :
    Releases s reads (Path.join outputDirectory model.longname)
      (generateModel rules outputDirectory model : ExceptT ModelFailure m ModelCounts) := by
  unfold generateModel
  refine Releases.bind_returns (returns_readEvents hreads) fun events hevents => ?_
  have hwrite : Releases s reads (Path.join outputDirectory model.longname)
      (Release.writeEvents (Path.join outputDirectory model.longname)
        (events.topics.toList.map fun entry => (entry.1, entry.2.toList)) :
          ExceptT OutputError m Nat) := by
    refine releases_writeEvents fun topic htopic => ?_
    obtain ⟨⟨name, records⟩, hmem, rfl⟩ := List.mem_map.1 htopic
    apply hevents.topics name
    rw [Std.TreeMap.mem_iff_isSome_getElem?, Std.TreeMap.mem_toList_iff_getElem?_eq_some.1 hmem]
    rfl
  refine Releases.bind (hwrite.adapt _) fun count => ?_
  refine Releases.bind_returns (returns_readExtraMetrics hreads) fun extra _ => ?_
  refine Releases.bind_returns (returns_readTables hreads) fun tables _ => ?_
  dsimp only
  split
  · exact Releases.bind ((Releases.writeText (isModelFile_metricsFileName hname) _).adapt _)
      fun _ => Releases.pure _
  · exact Releases.pure _

end Generation

end

end TopdownMetrics

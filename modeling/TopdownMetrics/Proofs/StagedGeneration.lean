import TopdownMetrics.Proofs.PlannedReleases

/-!
# The stages of a release

The rules and the list of models are read first, and neither changes a file.  Then the map of
processors is written, and only if it is there are the models written one after the other.  So
the tree that is released can be followed stage by stage.
-/

namespace TopdownMetrics

open FileTree

/-! ## Stages -/

/-- The models that a request asks for. -/
def Request.wanted (r : Request) (ms : List Model) : List Model :=
  ms.filter fun model => r.wants model.shortname

namespace Generation

variable {m : Type → Type} [Monad m] [FileAccess m]

def readRulesOf (r : Request) : ExceptT GenerationError m Rules :=
  match r.rulesPath with
  | some path => ExceptT.mk (do return (← readRules path).mapError (.rules path))
  | none => pure .builtin

theorem generate_eq (r : Request) : (generate r : ExceptT GenerationError m _) = (do
    let rules ← readRulesOf r
    let ms ← readModels r.basePath
    (Release.writeMap (Path.join r.outputDirectory "mapfile.csv") (r.wanted ms)).adapt .map
    generateModels rules r.outputDirectory (r.wanted ms)) := by
  unfold generate readRulesOf
  cases r.rulesPath with
  | none => rfl
  | some path => rfl

end Generation

/-! ## Reading the models -/

def Workspace.isAvailable (w : Workspace) (url : String) : Bool :=
  w.kind? (Source.path url) == some .file

/-- The entries of the mapfile at the base path. -/
def Workspace.entries (w : Workspace) (base : String) : Except GenerationError MapfileEntries := do
  let url := base ++ "/mapfile.csv"
  let text ← (Source.decode url w.sources[Source.path url]?).mapError (.mapfileSource url)
  (MapfileEntries.ofText text base).mapError .mapfile

theorem Workspace.entries_of_error {w : Workspace} {base : String} {e : SourceError}
    (h : Source.decode (base ++ "/mapfile.csv")
      w.sources[Source.path (base ++ "/mapfile.csv")]? = .error e) :
    w.entries base = .error (.mapfileSource (base ++ "/mapfile.csv") e) := by
  simp only [Workspace.entries, h]
  rfl

theorem Workspace.entries_of_ok {w : Workspace} {base text : String}
    (h : Source.decode (base ++ "/mapfile.csv")
      w.sources[Source.path (base ++ "/mapfile.csv")]? = .ok text) :
    w.entries base = (MapfileEntries.ofText text base).mapError .mapfile := by
  simp only [Workspace.entries, h]
  rfl

def Workspace.optionalFiles (w : Workspace) (entries : MapfileEntries) (base : String) :
    List String :=
  (entries.optionalUrls base).filter w.isAvailable

section

variable {m : Type → Type} [Monad m] [FileAccess m] [Runs m] {w : Workspace}

theorem Runs.filterM {p : String → m Bool} {q : String → Bool}
    (hp : ∀ url, Runs.Run (p url) w (q url) w) (urls : List String) :
    Runs.Run (urls.filterM p) w (urls.filter q) w := by
  have haux (before : List String) :
      Runs.Run (urls.filterAuxM p before) w ((urls.filter q).reverse ++ before) w := by
    induction urls generalizing before with
    | nil => exact Runs.pure _ _
    | cons url urls ih =>
      refine Runs.bind (hp url) ?_
      cases hq : q url with
      | true => simpa [hq] using ih (url :: before)
      | false => simpa [hq] using ih before
  have hall := haux []
  rw [List.append_nil] at hall
  unfold List.filterM
  refine Runs.bind hall ?_
  rw [List.reverse_reverse]
  exact Runs.pure _ w

theorem Generation.run_readModels (w : Workspace) (base : String) :
    Runs.Run (readModels base : ExceptT GenerationError m (List Model)).run w
      ((w.entries base).map fun entries =>
        entries.toModels base (w.optionalFiles entries base).contains) w := by
  have hread := Source.run_read (m := m) (base ++ "/mapfile.csv") w
  unfold readModels
  dsimp only
  cases hdecoded : Source.decode (base ++ "/mapfile.csv")
      w.sources[Source.path (base ++ "/mapfile.csv")]? with
  | error e =>
    rw [Workspace.entries_of_error hdecoded]
    rw [hdecoded] at hread
    exact Runs.bind_error (Runs.bind hread (Runs.pure _ w))
  | ok text =>
    rw [Workspace.entries_of_ok hdecoded]
    rw [hdecoded] at hread
    refine Runs.bind_ok (Runs.bind hread (Runs.pure _ w)) ?_
    cases MapfileEntries.ofText text base with
    | error e => exact Runs.pure _ w
    | ok entries =>
      have havailable (url : String) : Runs.Run (Source.isAvailable url :
          ExceptT GenerationError m Bool) w (w.isAvailable url) w :=
        Runs.bind (Runs.kind? _ w) (Runs.pure _ w)
      exact Runs.bind_to (Runs.filterM havailable _) (Runs.pure _ w)

/-! ## The rules -/

def Request.rules (r : Request) (s : Sources) : Except GenerationError Rules :=
  match r.rulesPath with
  | none => .ok .builtin
  | some path =>
    (match s[path]?.bind String.fromUTF8? with
    | some text => Rules.ofText text
    | none => .error .unreadable).mapError (.rules path)

theorem Generation.run_readRules (path : String) (w : Workspace) :
    Runs.Run (readRules path : m (Except RulesError Rules)) w
      (match w.sources[path]?.bind String.fromUTF8? with
      | some text => Rules.ofText text
      | none => .error .unreadable) w := by
  refine Runs.bind (Runs.read? path w) ?_
  cases w.sources[path]?.bind String.fromUTF8? with
  | none => exact Runs.pure _ w
  | some text => exact Runs.pure _ w

/-! ## The map -/

/-- The tree with a map of this text in a directory, and whether the map is there. -/
def FileTree.placeMap (t : FileTree) (directory text : String) : FileTree × Bool :=
  t.place (t.start directory) (Path.steps directory) "mapfile.csv" text.toUTF8

namespace Release

variable {ms : List Model} {directory text : String}

theorem exists_mapM_eq_ok_iff {ε α β : Type} {f : α → Except ε β} {as : List α} :
    (∃ bs, as.mapM f = .ok bs) ↔ ∀ a ∈ as, ∃ b, f a = .ok b := by
  induction as with
  | nil => simp [pure, Except.pure]
  | cons a as ih =>
    rw [List.forall_mem_cons, ← ih, List.mapM_cons]
    cases f a with
    | error e => simp [bind, Except.bind]
    | ok b =>
      cases as.mapM f with
      | error e => simp [bind, Except.bind]
      | ok bs => simp [bind, Except.bind, pure, Except.pure]

/-- There is a text of the map exactly if the identifiers of all models have patterns. -/
theorem exists_mapText_iff :
    (∃ text, mapText ms = .ok text) ↔ ∀ model ∈ ms, model.mapLine?.isSome := by
  have hjoin (x : Except OutputError (List String)) :
      (∃ text, (do let lines ← x; return String.join lines) = .ok text) ↔
        ∃ lines, x = .ok lines := by
    cases x with
    | error e => simp [bind, Except.bind]
    | ok lines => simp [bind, Except.bind, pure, Except.pure]
  unfold mapText
  rw [hjoin, exists_mapM_eq_ok_iff]
  refine forall₂_congr fun model _ => ?_
  cases model.mapLine? with
  | none => simp
  | some line => simp

theorem mapText_eq (ms : List Model) : mapText ms = (do
    let lines ← (ms.map fun model => (model.shortname, model.mapLine?)).mapM fun entry =>
      match entry.2 with
      | some line => Except.ok (line ++ "\n")
      | none => .error (.noPattern entry.1)
    return String.join lines) := by
  rw [List.mapM_map]
  rfl

/-- The map only depends on the names and lines of the models. -/
theorem mapText_congr {ms' : List Model}
    (h : ms.map (fun model => (model.shortname, model.mapLine?)) =
      ms'.map fun model => (model.shortname, model.mapLine?)) : mapText ms = mapText ms' := by
  rw [mapText_eq, mapText_eq, h]

theorem run_writeMap [LawfulMonad m] (hw : w.tree.WellFormed)
    (hseparate : Separate w.sources directory) (htext : mapText ms = .ok text) :
    let placed := w.tree.placeMap directory text
    ∃ r, Runs.Run (writeMap (Path.join directory "mapfile.csv") ms :
        ExceptT OutputError m Unit).run w r { w with tree := placed.1 } ∧
      (placed.2 = true → r = .ok ()) ∧ (placed.2 = false → ∃ e, r = .error e) := by
  have hname : Path.IsFileName "mapfile.csv" := ⟨by decide, by decide, by decide⟩
  have hwrite : (writeMap (Path.join directory "mapfile.csv") ms : ExceptT OutputError m Unit) =
      writeText (Path.join directory "mapfile.csv") text := by
    have hlift : (liftM (Except.ok text : Except OutputError String) :
        ExceptT OutputError m String) = pure text := rfl
    unfold writeMap writeText
    rw [htext, hlift]
    simp only [pure_bind]
  rw [hwrite]
  exact run_writeText hw hname hseparate text

/-- Without a text of the map only its directory is made. -/
theorem run_writeMap_of_error {e : OutputError} (hw : w.tree.WellFormed)
    (hseparate : Separate w.sources directory) (htext : mapText ms = .error e) :
    ∃ e', Runs.Run (writeMap (Path.join directory "mapfile.csv") ms :
      ExceptT OutputError m Unit).run w (.error e') { w with tree := (wayTo w.tree directory).1 } := by
  have hname : Path.IsFileName "mapfile.csv" := ⟨by decide, by decide, by decide⟩
  obtain ⟨r, hrun, hr⟩ := run_prepare (m := m) hw hname hseparate
  unfold writeMap
  rcases hr with ⟨e', rfl, -⟩ | ⟨rfl, -⟩
  · exact ⟨e', Runs.bind_error hrun⟩
  · refine ⟨e, Runs.bind_ok hrun ?_⟩
    rw [htext]
    exact Runs.bind_error (Runs.pure _ _)

end Release

/-! ## All stages -/

namespace Generation

variable {r : Request} {ms : List Model} {v u : Workspace}

theorem run_readRulesOf (r : Request) (w : Workspace) :
    Runs.Run (readRulesOf r : ExceptT GenerationError m Rules).run w (r.rules w.sources) w := by
  unfold readRulesOf Request.rules
  cases r.rulesPath with
  | none => exact Runs.pure _ w
  | some path => exact Runs.bind (run_readRules path w) (Runs.pure _ w)

theorem run_generate_of_rules {rules : Rules} {mapped : Except OutputError Unit}
    (summary : GenerationSummary) (hrules : r.rules w.sources = .ok rules)
    (hmodels : Runs.Run (readModels r.basePath : ExceptT GenerationError m (List Model)).run w
      (.ok ms) w)
    (hmap : Runs.Run (Release.writeMap (Path.join r.outputDirectory "mapfile.csv") (r.wanted ms) :
      ExceptT OutputError m Unit).run w mapped v)
    (hlater : mapped = .ok () → Runs.Run (generateModels rules r.outputDirectory
      (r.wanted ms) : ExceptT GenerationError m GenerationSummary) v summary u)
    (hstop : ∀ e, mapped = .error e → v = u) :
    ∃ outcome, Runs.Run (generate r : ExceptT GenerationError m _).run w outcome u := by
  have hread := run_readRulesOf (m := m) r w
  rw [hrules] at hread
  rw [generate_eq]
  cases mapped with
  | error e =>
    obtain rfl := hstop e rfl
    exact ⟨_, Runs.bind_ok hread (Runs.bind_ok hmodels (Runs.bind_error (Runs.adapt _ hmap)))⟩
  | ok =>
    exact ⟨.ok summary, Runs.bind_ok hread (Runs.bind_ok hmodels
      (Runs.bind_ok (Runs.adapt _ hmap) (hlater rfl)))⟩

theorem run_generate_of_error {e : GenerationError} (hrules : r.rules w.sources = .error e) :
    Runs.Run (generate r : ExceptT GenerationError m _).run w (.error e) w := by
  have hread := run_readRulesOf (m := m) r w
  rw [hrules] at hread
  rw [generate_eq]
  exact Runs.bind_error hread

end Generation

end

end TopdownMetrics

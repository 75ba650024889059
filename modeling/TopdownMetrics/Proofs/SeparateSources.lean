import TopdownMetrics.Proofs.ReleasePaths
import TopdownMetrics.Proofs.TreeWalks
import TopdownMetrics.Release.Write

/-!
# Sources apart from the release

The sources of a release are kept as a map from path to content, beside the tree that the
release is written to.  Nothing that is done to the tree changes the sources.  Computations are
followed by what they run to: programs that may fail run like those beneath them, so that the
rules for the four operations on files are all there is to know about files.
-/

namespace TopdownMetrics

/-- The sources and the tree that is written to. -/
structure Workspace where
  sources : Std.TreeMap String ByteArray
  tree : FileTree

namespace Workspace

/-- What a path leads to: a source, or else what the tree has there. -/
def kind? (w : Workspace) (path : String) : Option FileKind :=
  if w.sources.contains path then some .file else w.tree.kind? path

instance : FileAccess (StateM Workspace) where
  kind? path := return (← get).kind? path
  read? path := return (← get).sources[path]?
  write path content := do
    let w ← get
    match w.tree.write? path content with
    | some t =>
      set { w with tree := t }
      return true
    | none => return false
  makeDirectories path := modifyGet fun w =>
    let (t, made) := w.tree.makeDirectories path
    (made, { w with tree := t })

end Workspace

/-! ## What computations run to -/

/-- Computations on files that run from one workspace to another with a result. -/
class Runs (m : Type → Type) [Monad m] [FileAccess m] where
  Run {α : Type} : m α → Workspace → α → Workspace → Prop
  pure {α : Type} (a : α) (w : Workspace) : Run (pure a : m α) w a w
  map {α β : Type} {x : m α} {w v : Workspace} {a : α} (f : α → β) (hx : Run x w a v) :
    Run (f <$> x) w (f a) v
  bind {α β : Type} {x : m α} {f : α → m β} {w v u : Workspace} {a : α} {b : β}
    (hx : Run x w a v) (hf : Run (f a) v b u) : Run (x >>= f) w b u
  kind? (path : String) (w : Workspace) :
    Run (FileAccess.kind? path : m (Option FileKind)) w (w.kind? path) w
  read? (path : String) (w : Workspace) :
    Run (FileAccess.read? path : m (Option ByteArray)) w w.sources[path]? w
  write_some {path : String} {content : ByteArray} {w : Workspace} {t : FileTree}
    (h : w.tree.write? path content = some t) :
    Run (FileAccess.write path content : m Bool) w true { w with tree := t }
  write_none {path : String} {content : ByteArray} {w : Workspace}
    (h : w.tree.write? path content = none) :
    Run (FileAccess.write path content : m Bool) w false w
  makeDirectories (path : String) (w : Workspace) :
    Run (FileAccess.makeDirectories path : m Bool) w (w.tree.makeDirectories path).2
      { w with tree := (w.tree.makeDirectories path).1 }

instance : Runs (StateM Workspace) where
  Run x w a v := x.run w = (a, v)
  pure _ _ := rfl
  map f hx := by rw [StateT.run_map, hx]; rfl
  bind hx hf := by rw [StateT.run_bind, hx]; exact hf
  kind? _ _ := rfl
  read? _ _ := rfl
  write_some h := by
    simp only [FileAccess.write, StateT.run_bind, StateT.run_get, pure_bind, h]
    rfl
  write_none h := by
    simp only [FileAccess.write, StateT.run_bind, StateT.run_get, pure_bind, h]
    rfl
  makeDirectories _ _ := rfl

/-- A computation that may fail runs to its result or to its failure. -/
instance {ε : Type} {m : Type → Type} [Monad m] [FileAccess m] [Runs m] :
    Runs (ExceptT ε m) where
  Run x w a v := Runs.Run x.run w (.ok a) v
  pure a w := Runs.pure (Except.ok a) w
  map _ hx := Runs.bind hx (Runs.pure _ _)
  bind hx hf := Runs.bind hx hf
  kind? path w := Runs.map Except.ok (Runs.kind? path w)
  read? path w := Runs.map Except.ok (Runs.read? path w)
  write_some h := Runs.map Except.ok (Runs.write_some h)
  write_none h := Runs.map Except.ok (Runs.write_none h)
  makeDirectories path w := Runs.map Except.ok (Runs.makeDirectories path w)

namespace Runs

variable {m : Type → Type} [Monad m] [FileAccess m] [Runs m] {ε ε' α β : Type}
  {w v u : Workspace}

theorem bind_ok {x : ExceptT ε m α} {f : α → ExceptT ε m β} {a : α} {r : Except ε β}
    (hx : Run x.run w (.ok a) v) (hf : Run (f a).run v r u) : Run (x >>= f).run w r u := by
  rw [ExceptT.run_bind]
  exact Runs.bind hx hf

/-- What cannot fail goes on. -/
theorem bind_to {x : ExceptT ε m α} {f : α → ExceptT ε m β} {a : α} {r : Except ε β}
    (hx : Run x w a v) (hf : Run (f a).run v r u) : Run (x >>= f).run w r u :=
  bind_ok (show Run x.run w (.ok a) v from hx) hf

theorem bind_error {x : ExceptT ε m α} {f : α → ExceptT ε m β} {e : ε}
    (hx : Run x.run w (.error e) v) : Run (x >>= f).run w (.error e) v := by
  rw [ExceptT.run_bind]
  exact Runs.bind hx (Runs.pure _ _)

theorem run_throw (e : ε) (w : Workspace) : Run (throw e : ExceptT ε m α).run w (.error e) w :=
  Runs.pure _ _

theorem adapt {x : ExceptT ε m α} {r : Except ε α} (f : ε → ε') (hx : Run x.run w r v) :
    Run (x.adapt f).run w (r.mapError f) v :=
  Runs.map _ hx

/-- The result of a run is all that has to be known of it. -/
theorem run_of_fst {x : ExceptT ε (StateM Workspace) α} {a : α}
    (h : (x.run.run w).1 = .ok a) : Run x w a (x.run.run w).2 := by
  have hrun : x.run.run w = (.ok a, (x.run.run w).2) := Prod.ext h rfl
  exact hrun

end Runs

/-! ## Parts that stay -/

namespace FileTree

variable {t : FileTree} {path name : String} {front : List String} {here next : Location}

theorem makeFrom_of_not_isDirectoryAt (h : t.isDirectoryAt here = false) (parts : List String) :
    t.makeFrom here parts = (t, false) := by
  cases parts with
  | nil => simp [makeFrom, h]
  | cons part parts => simp [makeFrom, follow?, h]

theorem stays_of_not_leads {part : String} (h : Path.leads part = false) :
    part = "" ∨ part = "." := by
  by_contra hleads
  rw [not_or] at hleads
  simp [Path.leads, hleads] at h

theorem makeFrom_filter (t : FileTree) (here : Location) (parts : List String) :
    t.makeFrom here (parts.filter Path.leads) = t.makeFrom here parts := by
  induction parts generalizing t here with
  | nil => rfl
  | cons part parts ih =>
    cases hleads : Path.leads part with
    | true =>
      rw [List.filter_cons_of_pos hleads]
      unfold makeFrom
      simp only [ih]
    | false =>
      rw [List.filter_cons_of_neg (by simp [hleads]), ih]
      cases hhere : t.isDirectoryAt here with
      | true => simp [makeFrom, follow?, hhere, stays_of_not_leads hleads]
      | false =>
        rw [makeFrom_of_not_isDirectoryAt hhere, makeFrom_of_not_isDirectoryAt hhere]

theorem foldl_advance_filter (here : Location) (parts : List String) :
    (parts.filter Path.leads).foldl advance here = parts.foldl advance here := by
  induction parts generalizing here with
  | nil => rfl
  | cons part parts ih =>
    cases hleads : Path.leads part with
    | true => rw [List.filter_cons_of_pos hleads, List.foldl_cons, List.foldl_cons, ih]
    | false =>
      have hadvance : advance here part = here := if_pos (stays_of_not_leads hleads)
      rw [List.filter_cons_of_neg (by simp [hleads]), List.foldl_cons, hadvance, ih]

theorem follow?_fileName (hname : Path.IsFileName name) (h : t.follow? here name = some next) :
    t.isDirectoryAt here = true ∧ next = here ++ [name] := by
  have hleads := hname.leads
  simp only [Path.leads, Bool.and_eq_true, bne_iff_ne] at hleads
  unfold follow? at h
  split at h
  · cases h
  · rename_i hhere
    rw [if_neg (by simp [hleads]), if_neg hname.ne_up] at h
    split at h
    · cases h
      exact ⟨by simpa using hhere, rfl⟩
    · cases h

/-- Where nothing is left to be made on the way to a file, it is written exactly if the way is
there and its name can be given to a file. -/
theorem write?_eq (ht : t.WellFormed) (hparts : Path.parts path = front ++ [name]) {made : Bool}
    (hmade : t.makeFrom (t.start path) front = (t, made)) (content : ByteArray) :
    t.write? path content =
      if made && isName name && !t.isDirectoryAt (front.foldl advance (t.start path) ++ [name]) then
        some (t.put (front.foldl advance (t.start path) ++ [name]) content)
      else none := by
  have hspec := (makeFrom_spec ht (ht.isDirectoryAt_start path) front).2.2.2.2
  rw [hmade] at hspec
  unfold write?
  rw [hparts, List.dropLast_concat, List.getLast?_concat]
  cases hfollow : front.foldlM t.follow? (t.start path) with
  | none =>
    have hno : made = false := by
      cases made with
      | false => rfl
      | true => simp [hfollow] at hspec
    simp [hno]
  | some next =>
    have hnext : made = t.isDirectoryAt next := by
      have hstopped := makeFrom_of_follow hfollow
      rw [hmade] at hstopped
      exact congrArg Prod.snd hstopped
    cases made with
    | false => simp [← hnext]
    | true =>
      rw [hfollow] at hspec
      obtain rfl := Option.some.inj (hspec rfl).1
      simp only [Option.bind_eq_bind, Option.bind_some, ← hnext]
      cases isName name with
      | false => simp
      | true =>
        cases t.isDirectoryAt (front.foldl advance (t.start path) ++ [name]) with
        | false => simp [put]
        | true => simp

theorem exists_follow_of_kind? {kind : FileKind} (h : t.kind? path = some kind) :
    path ≠ "" ∧ ∃ next, (Path.parts path).foldlM t.follow? (t.start path) = some next ∧
      (t.entry? next).map FileEntry.kind = some kind := by
  unfold kind? locate? at h
  by_cases hempty : path = ""
  · simp [hempty] at h
  · refine ⟨hempty, ?_⟩
    simp only [hempty, if_false, Option.bind_eq_bind, Option.bind_eq_some_iff, Option.pure_def,
      Option.some.injEq] at h
    obtain ⟨next, hnext, entry, hentry, rfl⟩ := h
    exact ⟨next, hnext, by rw [hentry]; rfl⟩

end FileTree

/-! ## Writing a file -/

/-- No source is at the path by which the directory of a file in the given directory is
made. -/
def Separate (sources : Std.TreeMap String ByteArray) (directory : String) : Prop :=
  ∀ name, Path.IsFileName name → ∀ parent, Path.parent? (Path.join directory name) = some parent →
    sources.contains parent = false

namespace Release

open FileTree

variable {m : Type → Type} [Monad m] [FileAccess m] [Runs m] {w : Workspace}
  {directory name : String}

/-- The directories on the way to a directory of the release, and whether they are there. -/
def wayTo (t : FileTree) (directory : String) : FileTree × Bool :=
  t.makeFrom (t.start directory) (Path.steps directory)

theorem start_join (hname : Path.IsFileName name) (t : FileTree) :
    t.start (Path.join directory name) = t.start directory := by
  unfold FileTree.start
  rw [(Path.join_fileName hname directory).1]

theorem start_congr {t : FileTree} {path other : String}
    (h : Path.isAbsolute path = Path.isAbsolute other) : t.start path = t.start other := by
  unfold FileTree.start
  rw [h]

/-- Making the way a second time makes nothing. -/
theorem wayTo_again {t : FileTree} (ht : t.WellFormed) (h : (wayTo t directory).2 = true) :
    wayTo (wayTo t directory).1 directory = ((wayTo t directory).1, true) := by
  obtain ⟨-, hstart, -, -, hmade⟩ :=
    makeFrom_spec ht (ht.isDirectoryAt_start directory) (Path.steps directory)
  obtain ⟨hfollow, hend⟩ := hmade h
  have hsame : (wayTo t directory).1.start directory = t.start directory := by
    unfold FileTree.start wayTo
    rw [hstart]
  unfold wayTo at hsame ⊢
  rw [hsame, makeFrom_of_follow hfollow, hend]

/-- The directory of a file is made unless there is something already; if it is a file, that
shows only later. -/
theorem run_makeParent (hw : w.tree.WellFormed) (hname : Path.IsFileName name)
    (hseparate : Separate w.sources directory) :
    ∃ r, Runs.Run (makeParent (Path.join directory name) : ExceptT OutputError m Unit).run w r
        { w with tree := (wayTo w.tree directory).1 } ∧
      ((∃ e, r = .error e ∧ (wayTo w.tree directory).2 = false) ∨
        r = .ok () ∧ wayTo (wayTo w.tree directory).1 directory = wayTo w.tree directory) := by
  obtain ⟨parent, hparent, hcases⟩ := Path.parent?_join hname directory
  unfold makeParent
  simp only [hparent]
  rcases hcases with ⟨rfl, -, hsteps⟩ | ⟨hne, habsolute, hsteps⟩
  · have hway : wayTo w.tree directory = (w.tree, true) := by
      unfold wayTo
      rw [hsteps, makeFrom, hw.isDirectoryAt_start directory]
    rw [hway]
    exact ⟨.ok (), Runs.pure _ _, .inr ⟨rfl, hway⟩⟩
  · have hway : wayTo w.tree directory = w.tree.makeDirectories parent := by
      unfold wayTo makeDirectories
      rw [← hsteps, Path.steps, makeFrom_filter, start_congr habsolute]
    have hkind : w.kind? parent = w.tree.kind? parent := by
      unfold Workspace.kind?
      rw [hseparate name hname parent hparent]
      rfl
    rw [if_neg (by simpa using hne)]
    cases hthere : w.tree.kind? parent with
    | some kind =>
      obtain ⟨-, next, hnext, -⟩ := exists_follow_of_kind? hthere
      have hstays : w.tree.makeDirectories parent = (w.tree, w.tree.isDirectoryAt next) :=
        makeFrom_of_follow hnext
      rw [hway, hstays]
      refine ⟨.ok (), Runs.bind_to (Runs.kind? parent w) ?_, .inr ⟨rfl, hway.trans hstays⟩⟩
      rw [hkind, hthere]
      exact Runs.pure _ _
    | none =>
      cases hmade : (w.tree.makeDirectories parent).2 with
      | false =>
        refine ⟨.error (.noDirectory parent), Runs.bind_to (Runs.kind? parent w) ?_,
          .inl ⟨_, rfl, by rw [hway, hmade]⟩⟩
        rw [hkind, hthere]
        refine Runs.bind_to (Runs.makeDirectories parent w) ?_
        rw [hmade, hway]
        exact Runs.run_throw _ _
      | true =>
        have hagain : wayTo (wayTo w.tree directory).1 directory =
            ((wayTo w.tree directory).1, true) := wayTo_again hw (by rw [hway, hmade])
        refine ⟨.ok (), Runs.bind_to (Runs.kind? parent w) ?_, .inr ⟨rfl, ?_⟩⟩
        · rw [hkind, hthere]
          refine Runs.bind_to (Runs.makeDirectories parent w) ?_
          rw [hmade, hway]
          exact Runs.pure _ _
        · rw [hagain, hway, ← hmade]

/-- Looking whether a file can be written changes the tree like making its directory.  It fails
only where the file cannot be placed. -/
theorem run_prepare (hw : w.tree.WellFormed) (hname : Path.IsFileName name)
    (hseparate : Separate w.sources directory) :
    ∃ r, Runs.Run (prepare (Path.join directory name) : ExceptT OutputError m Unit).run w r
        { w with tree := (wayTo w.tree directory).1 } ∧
      ((∃ e, r = .error e ∧ ∀ content, w.tree.place (w.tree.start directory)
          (Path.steps directory) name content = ((wayTo w.tree directory).1, false)) ∨
        r = .ok () ∧ wayTo (wayTo w.tree directory).1 directory = wayTo w.tree directory) := by
  obtain ⟨habsolute, hne, front, hparts, hfront⟩ := Path.join_fileName hname directory
  unfold prepare
  rw [if_neg (by simpa using hne)]
  by_cases hkind : w.kind? (Path.join directory name) = some .directory
  · -- A directory stands in the place of the file, so the way to it is there.
    have hthere : w.tree.kind? (Path.join directory name) = some .directory := by
      unfold Workspace.kind? at hkind
      split at hkind
      · cases hkind
      · exact hkind
    obtain ⟨-, next, hnext, hentry⟩ := exists_follow_of_kind? hthere
    rw [hparts, start_join hname, List.foldlM_append] at hnext
    obtain ⟨last, hlast, hfollow⟩ := Option.bind_eq_some_iff.1 hnext
    rw [List.foldlM_cons] at hfollow
    obtain ⟨_, hstep, hlocation⟩ := Option.bind_eq_some_iff.1 hfollow
    obtain rfl := Option.some.inj hlocation
    obtain ⟨hdirectory, rfl⟩ := follow?_fileName hname hstep
    have hway : w.tree.makeFrom (w.tree.start directory) (Path.steps directory) =
        (w.tree, true) := by
      rw [← hfront, makeFrom_filter, makeFrom_of_follow hlast, hdirectory]
    have hend : (Path.steps directory).foldl advance (w.tree.start directory) = last := by
      have hmade := (makeFrom_spec hw (hw.isDirectoryAt_start directory) front).2.2.2.2
      rw [makeFrom_of_follow hlast, hdirectory] at hmade
      rw [← hfront, foldl_advance_filter]
      exact Option.some.inj ((hmade rfl).1.symm.trans hlast)
    refine ⟨.error (.isDirectory (Path.join directory name)),
      Runs.bind_to (Runs.kind? _ w) ?_, .inl ⟨_, rfl, fun content => ?_⟩⟩
    · rw [if_pos (by simpa using hkind), wayTo, hway]
      exact Runs.bind_error (Runs.run_throw _ _)
    · have htaken : w.tree.isDirectoryAt (last ++ [name]) = true := by
        unfold isDirectoryAt
        cases hat : w.tree.entry? (last ++ [name]) with
        | none => simp [hat] at hentry
        | some entry =>
          simp only [hat, Option.map_some, Option.some.injEq] at hentry
          simp [hentry]
      unfold place wayTo
      simp [hway, hend, htaken]
  · obtain ⟨r, hrun, hr⟩ := run_makeParent (m := m) hw hname hseparate
    refine ⟨r, Runs.bind_to (Runs.kind? _ w) ?_, hr.imp_left ?_⟩
    · rw [if_neg (by simpa using hkind)]
      exact hrun
    · rintro ⟨e, he, hmade⟩
      refine ⟨e, he, fun content => ?_⟩
      unfold wayTo at hmade ⊢
      unfold place
      simp [hmade]

/-- Writing a file places it, and fails if it is not placed. -/
theorem run_writeText (hw : w.tree.WellFormed) (hname : Path.IsFileName name)
    (hseparate : Separate w.sources directory) (text : String) :
    let placed := w.tree.place (w.tree.start directory) (Path.steps directory) name text.toUTF8
    ∃ r, Runs.Run (writeText (Path.join directory name) text : ExceptT OutputError m Unit).run w r
        { w with tree := placed.1 } ∧
      (placed.2 = true → r = .ok ()) ∧ (placed.2 = false → ∃ e, r = .error e) := by
  intro placed
  obtain ⟨r, hrun, hr⟩ := run_prepare (m := m) hw hname hseparate
  unfold writeText
  rcases hr with ⟨e, rfl, hplace⟩ | ⟨rfl, hagain⟩
  · have hplaced : placed = ((wayTo w.tree directory).1, false) := hplace _
    refine ⟨.error e, Runs.bind_error ?_, ?_⟩
    · rw [hplaced]
      exact hrun
    · simp [hplaced]
  · obtain ⟨-, -, front, hparts, hfront⟩ := Path.join_fileName hname directory
    obtain ⟨hspec, hworking, -⟩ :=
      makeFrom_spec hw (hw.isDirectoryAt_start directory) (Path.steps directory)
    have hwell : (wayTo w.tree directory).1.WellFormed := hspec
    have hstart : (wayTo w.tree directory).1.start directory = w.tree.start directory := by
      unfold FileTree.start wayTo
      rw [hworking]
    have hmade : (wayTo w.tree directory).1.makeFrom
        ((wayTo w.tree directory).1.start (Path.join directory name)) front =
          ((wayTo w.tree directory).1, (wayTo w.tree directory).2) := by
      rw [start_join hname, ← makeFrom_filter, hfront]
      exact hagain
    have hwrite := write?_eq hwell hparts hmade text.toUTF8
    rw [start_join hname, hstart, ← foldl_advance_filter, hfront] at hwrite
    have hplaced : placed =
        if (wayTo w.tree directory).2 && isName name && !(wayTo w.tree directory).1.isDirectoryAt
            ((Path.steps directory).foldl advance (w.tree.start directory) ++ [name]) then
          ((wayTo w.tree directory).1.put ((Path.steps directory).foldl advance
            (w.tree.start directory) ++ [name]) text.toUTF8, true)
        else ((wayTo w.tree directory).1, false) := rfl
    rw [hplaced]
    split at hwrite
    · rename_i hgo
      rw [if_pos hgo]
      exact ⟨.ok (), Runs.bind_ok hrun (Runs.bind_to (Runs.write_some hwrite) (Runs.pure _ _)),
        by simp⟩
    · rename_i hgo
      rw [if_neg hgo]
      exact ⟨.error (.unwritable _),
        Runs.bind_ok hrun (Runs.bind_to (Runs.write_none hwrite) (Runs.run_throw _ _)),
        by simp⟩

end Release

end TopdownMetrics

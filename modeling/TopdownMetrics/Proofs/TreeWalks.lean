import Mathlib.Data.List.Induction
import TopdownMetrics.Files.Tree

/-!
# Walks through a tree of files

Where a path leads to can be read off its parts alone; the tree only says whether the walk
gets there.  When directories are made on the way, files and names that are no names can stop
the walk, but directories cannot: the missing ones are made.  So a walk ends the same way in
two trees with the same files along it, whatever directories they have, and afterwards the
directories along it are the same as well.
-/

namespace TopdownMetrics

namespace FileTree

variable {t u : FileTree} {here next : Location} {part name : String} {parts : List String}

/-- The content of the file at a location. -/
def file? (t : FileTree) (here : Location) : Option ByteArray :=
  match t.entry? here with
  | some (.file content) => some content
  | _ => none

/-! ## Well-formed trees -/

/-- Everything stands in a directory and has a name, and relative paths start in a
directory. -/
structure WellFormed (t : FileTree) : Prop where
  start : t.isDirectoryAt t.workingDirectory = true
  parent : ∀ here name, (t.entry? (here ++ [name])).isSome = true →
    t.isDirectoryAt here = true ∧ isName name = true

theorem wellFormed_empty : ({} : FileTree).WellFormed where
  start := rfl
  parent here name h := by
    simp [FileTree.entry?] at h

theorem WellFormed.isDirectoryAt_dropLast (ht : t.WellFormed)
    (h : t.isDirectoryAt here = true) : t.isDirectoryAt here.dropLast = true := by
  cases here using List.reverseRecOn with
  | nil => exact h
  | append_singleton here name =>
    rw [List.dropLast_concat]
    have hsome : (t.entry? (here ++ [name])).isSome = true := by
      unfold isDirectoryAt at h
      cases hentry : t.entry? (here ++ [name]) with
      | none => simp [hentry] at h
      | some entry => rfl
    exact (ht.parent here name hsome).1

theorem WellFormed.isDirectoryAt_start (ht : t.WellFormed) (path : String) :
    t.isDirectoryAt (t.start path) = true := by
  unfold FileTree.start
  split
  · rfl
  · exact ht.start

/-- At a location there is a directory, a file, or nothing. -/
theorem entry?_cases (t : FileTree) (here : Location) :
    (t.entry? here = some .directory ∧ t.isDirectoryAt here = true ∧ t.file? here = none) ∨
      (∃ content, t.entry? here = some (.file content) ∧ t.isDirectoryAt here = false ∧
        t.file? here = some content) ∨
      (t.entry? here = none ∧ t.isDirectoryAt here = false ∧ t.file? here = none) := by
  unfold isDirectoryAt file?
  cases hentry : t.entry? here with
  | none => simp
  | some entry =>
    cases entry with
    | file content => simp [FileEntry.kind]
    | directory => simp [FileEntry.kind]

/-! ## Single steps -/

/-- Where a part of a path leads to from a location. -/
def advance (here : Location) (part : String) : Location :=
  if part = "" ∨ part = "." then here
  else if part = ".." then here.dropLast
  else here ++ [part]

/-- The part stays, leaves the directory or is the name of an entry. -/
def IsStep (part : String) : Prop :=
  part = "" ∨ part = "." ∨ part = ".." ∨ isName part = true

instance : DecidablePred IsStep := fun part =>
  inferInstanceAs (Decidable (part = "" ∨ part = "." ∨ part = ".." ∨ isName part = true))

/-- The tree with a directory at a location, if there was nothing. -/
def enter (t : FileTree) (here : Location) : FileTree :=
  if (t.entry? here).isNone then { t with entries := t.entries.insert here .directory } else t

theorem enter_of_isDirectoryAt (h : t.isDirectoryAt here = true) : t.enter here = t := by
  unfold enter
  rcases entry?_cases t here with ⟨hentry, -⟩ | ⟨_, _, hno, _⟩ | ⟨-, hno, -⟩
  · simp [hentry]
  · simp [h] at hno
  · simp [h] at hno

theorem entry?_enter_self (h : t.file? here = none) :
    FileTree.entry? (t.enter here) here = some .directory := by
  unfold enter
  rcases entry?_cases t here with ⟨hentry, -⟩ | ⟨_, _, _, hfile⟩ | ⟨hentry, -⟩
  · simp [hentry]
  · simp [h] at hfile
  · rw [if_pos (by simp [hentry])]
    simp [FileTree.entry?]

theorem entry?_enter_of_ne {there : Location} (h : there ≠ here) :
    FileTree.entry? (t.enter here) there = t.entry? there := by
  have hne : here ≠ there := Ne.symm h
  unfold enter
  split
  · simp only [FileTree.entry?, Std.TreeMap.getElem?_insert]
    simp [hne]
  · rfl

theorem workingDirectory_enter : (t.enter here).workingDirectory = t.workingDirectory := by
  unfold enter
  split
  · rfl
  · rfl

theorem file?_enter (t : FileTree) (here there : Location) :
    (t.enter here).file? there = t.file? there := by
  by_cases hthere : there = here
  · subst hthere
    cases hfile : t.file? there with
    | none => simp [file?, entry?_enter_self hfile]
    | some content =>
      have hsome : (t.entry? there).isNone = false := by
        rcases entry?_cases t there with ⟨hentry, -⟩ | ⟨_, hentry, -⟩ | ⟨-, -, hnone⟩
        · simp [hentry]
        · simp [hentry]
        · simp [hfile] at hnone
      simp [enter, hsome, hfile]
  · unfold file?
    rw [entry?_enter_of_ne hthere]

theorem isDirectoryAt_enter (h : t.file? here = none) (there : Location) :
    (t.enter here).isDirectoryAt there = (decide (there = here) || t.isDirectoryAt there) := by
  unfold isDirectoryAt
  by_cases hthere : there = here
  · subst hthere
    simp [entry?_enter_self h, FileEntry.kind]
  · simp [entry?_enter_of_ne hthere, hthere]

theorem WellFormed.enter (ht : t.WellFormed) (hhere : t.isDirectoryAt here = true)
    (hname : isName name = true) (hfile : t.file? (here ++ [name]) = none) :
    (t.enter (here ++ [name])).WellFormed := by
  have hkept {there : Location} (h : t.isDirectoryAt there = true) :
      (t.enter (here ++ [name])).isDirectoryAt there = true := by
    rw [isDirectoryAt_enter hfile, h, Bool.or_true]
  constructor
  case start =>
    rw [workingDirectory_enter]
    exact hkept ht.start
  case parent =>
    intro there part hsome
    by_cases hnew : there ++ [part] = here ++ [name]
    · obtain ⟨rfl, heq⟩ := List.append_inj' hnew rfl
      obtain rfl := List.singleton_inj.1 heq
      exact ⟨hkept hhere, hname⟩
    · rw [entry?_enter_of_ne hnew] at hsome
      obtain ⟨hdirectory, hpart⟩ := ht.parent there part hsome
      exact ⟨hkept hdirectory, hpart⟩

/-! ## Walks -/

/-- The locations that a walk comes through, with its start and its end. -/
def visits (here : Location) : List String → List Location
  | [] => [here]
  | part :: parts => here :: visits (advance here part) parts

theorem start_mem_visits (here : Location) (parts : List String) : here ∈ visits here parts := by
  cases parts with
  | nil => exact List.mem_singleton_self _
  | cons part parts => exact List.mem_cons_self

theorem foldl_advance_mem_visits (here : Location) (parts : List String) :
    parts.foldl advance here ∈ visits here parts := by
  induction parts generalizing here with
  | nil => exact List.mem_singleton_self _
  | cons part parts ih => exact List.mem_cons_of_mem _ (ih _)

/-- A step of a walk through a directory that leads to no file, with the directory that is
made if there is none. -/
theorem enter_advance (ht : t.WellFormed) (hhere : t.isDirectoryAt here = true)
    (hstep : IsStep part) (hfile : t.file? (advance here part) = none) :
    (t.enter (advance here part)).WellFormed ∧
      (t.enter (advance here part)).isDirectoryAt (advance here part) = true := by
  refine ⟨?_, by simp [isDirectoryAt_enter hfile]⟩
  unfold advance at hfile ⊢
  split
  · rwa [enter_of_isDirectoryAt hhere]
  · split
    · rwa [enter_of_isDirectoryAt (ht.isDirectoryAt_dropLast hhere)]
    · rename_i hstays hleaves
      rw [if_neg hstays, if_neg hleaves] at hfile
      rw [not_or] at hstays
      have hname : isName part = true := by
        rcases hstep with h | h | h | h
        · exact absurd h hstays.1
        · exact absurd h hstays.2
        · exact absurd h hleaves
        · exact h
      exact ht.enter hhere hname hfile

theorem follow?_of_isDirectoryAt (ht : t.WellFormed) (hhere : t.isDirectoryAt here = true)
    (part : String) : t.follow? here part =
      if (t.entry? (advance here part)).isSome then some (advance here part) else none := by
  have hsome {there : Location} (h : t.isDirectoryAt there = true) :
      (t.entry? there).isSome = true := by
    unfold isDirectoryAt at h
    cases hentry : t.entry? there with
    | none => simp [hentry] at h
    | some entry => rfl
  unfold follow? advance
  rw [hhere]
  by_cases hstays : part = "" ∨ part = "."
  · simp [hstays, hsome hhere]
  · by_cases hleaves : part = ".."
    · subst hleaves
      simp [hsome (ht.isDirectoryAt_dropLast hhere)]
    · simp [hstays, hleaves]

theorem makeFrom_of_file (h : (t.file? here).isSome = true) (parts : List String) :
    t.makeFrom here parts = (t, false) := by
  have hno : t.isDirectoryAt here = false := by
    rcases entry?_cases t here with ⟨-, -, hfile⟩ | ⟨_, -, hno, -⟩ | ⟨-, -, hfile⟩
    · simp [hfile] at h
    · exact hno
    · simp [hfile] at h
  cases parts with
  | nil => simp [makeFrom, hno]
  | cons part parts => simp [makeFrom, follow?, hno]

/-- One step of making directories: a file or a name that is no name stops it, and a
directory that is missing is made. -/
theorem makeFrom_cons (ht : t.WellFormed) (hhere : t.isDirectoryAt here = true)
    (part : String) (parts : List String) : t.makeFrom here (part :: parts) =
      if (t.file? (advance here part)).isNone ∧ IsStep part then
        (t.enter (advance here part)).makeFrom (advance here part) parts
      else (t, false) := by
  have hfollow := follow?_of_isDirectoryAt ht hhere part
  rcases entry?_cases t (advance here part) with
    ⟨hentry, hdirectory, hfile⟩ | ⟨content, hentry, _, hfile⟩ | ⟨hentry, hno, hfile⟩
  · have hstep : IsStep part := by
      unfold advance at hentry
      by_cases hstays : part = "" ∨ part = "."
      · exact hstays.elim .inl fun h => .inr (.inl h)
      · by_cases hleaves : part = ".."
        · exact .inr (.inr (.inl hleaves))
        · rw [if_neg hstays, if_neg hleaves] at hentry
          exact .inr (.inr (.inr (ht.parent here part (by simp [hentry])).2))
    rw [hentry, Option.isSome_some, if_pos rfl] at hfollow
    simp only [makeFrom, hfollow]
    rw [if_pos ⟨by simp [hfile], hstep⟩, enter_of_isDirectoryAt hdirectory]
  · rw [hentry, Option.isSome_some, if_pos rfl] at hfollow
    simp only [makeFrom, hfollow]
    rw [if_neg (by simp [hfile])]
    exact makeFrom_of_file (by simp [hfile]) parts
  · -- Only a name can lead to where nothing is.
    have hstays : ¬ (part = "" ∨ part = ".") := by
      intro hstays
      rw [advance, if_pos hstays] at hno
      simp [hhere] at hno
    have hleaves : part ≠ ".." := by
      rintro rfl
      simp [advance, ht.isDirectoryAt_dropLast hhere] at hno
    have hadvance : advance here part = here ++ [part] := by
      rw [advance, if_neg hstays, if_neg hleaves]
    have hstep : IsStep part ↔ isName part = true := by
      rw [not_or] at hstays
      simp [IsStep, hstays, hleaves]
    rw [hadvance] at hentry hfile hfollow ⊢
    rw [makeFrom, hfollow, hentry]
    simp [hhere, hentry, hfile, hstep, enter]

theorem makeFrom_spec (ht : t.WellFormed) (hhere : t.isDirectoryAt here = true)
    (parts : List String) :
    (t.makeFrom here parts).1.WellFormed ∧
      (t.makeFrom here parts).1.workingDirectory = t.workingDirectory ∧
      (∀ there, (t.makeFrom here parts).1.file? there = t.file? there) ∧
      (∀ there, t.isDirectoryAt there = true →
        (t.makeFrom here parts).1.isDirectoryAt there = true) ∧
      ((t.makeFrom here parts).2 = true →
        parts.foldlM (t.makeFrom here parts).1.follow? here = some (parts.foldl advance here) ∧
          (t.makeFrom here parts).1.isDirectoryAt (parts.foldl advance here) = true) := by
  induction parts generalizing t here with
  | nil => exact ⟨ht, rfl, fun _ => rfl, fun _ h => h, fun h => ⟨rfl, h⟩⟩
  | cons part parts ih =>
    rw [makeFrom_cons ht hhere]
    by_cases hgo : (t.file? (advance here part)).isNone ∧ IsStep part
    · rw [if_pos hgo]
      have hfile : t.file? (advance here part) = none := Option.isNone_iff_eq_none.1 hgo.1
      obtain ⟨hentered, hnext⟩ := enter_advance ht hhere hgo.2 hfile
      obtain ⟨hwell, hstart, hfiles, hdirectories, hmade⟩ := ih hentered hnext
      have hkept (there : Location) (h : t.isDirectoryAt there = true) :
          ((t.enter (advance here part)).makeFrom (advance here part) parts).1.isDirectoryAt
            there = true := by
        apply hdirectories
        rw [isDirectoryAt_enter hfile, h, Bool.or_true]
      refine ⟨hwell, hstart.trans workingDirectory_enter, fun there => ?_, hkept, fun h => ?_⟩
      -- What is there stays there, so the whole walk can be followed again in the end.
      · rw [hfiles, file?_enter]
      · obtain ⟨hfollow, hend⟩ := hmade h
        refine ⟨?_, hend⟩
        have hsome : (FileTree.entry? ((t.enter (advance here part)).makeFrom (advance here part)
            parts).1 (advance here part)).isSome = true := by
          rcases entry?_cases _ (advance here part) with ⟨hentry, -⟩ | ⟨_, hentry, -⟩ | ⟨-, hno, -⟩
          · rw [hentry]
            rfl
          · rw [hentry]
            rfl
          · rw [hdirectories _ hnext] at hno
            cases hno
        rw [List.foldlM_cons, follow?_of_isDirectoryAt hwell (hkept here hhere), if_pos hsome]
        exact hfollow
    · rw [if_neg hgo]
      exact ⟨ht, rfl, fun _ => rfl, fun _ h => h, fun h => nomatch h⟩

/-- Where a walk comes through already, nothing is made. -/
theorem makeFrom_of_follow (h : parts.foldlM t.follow? here = some next) :
    t.makeFrom here parts = (t, t.isDirectoryAt next) := by
  induction parts generalizing here with
  | nil =>
    cases h
    rfl
  | cons part parts ih =>
    rw [List.foldlM_cons] at h
    obtain ⟨first, hfirst, hrest⟩ := Option.bind_eq_some_iff.1 h
    simp only [makeFrom, hfirst]
    exact ih hrest

/-! ## Files -/

def put (t : FileTree) (here : Location) (content : ByteArray) : FileTree :=
  { t with entries := t.entries.insert here (.file content) }

theorem entry?_put (t : FileTree) (here : Location) (name : String) (content : ByteArray)
    (there : Location) : FileTree.entry? (t.put (here ++ [name]) content) there =
      if there = here ++ [name] then some (.file content) else t.entry? there := by
  unfold entry? put
  by_cases hthere : there = here ++ [name]
  · subst hthere
    simp
  · have hne : here ++ [name] ≠ there := Ne.symm hthere
    simp [hthere, Std.TreeMap.getElem?_insert, hne]

theorem file?_put (t : FileTree) (here : Location) (name : String) (content : ByteArray)
    (there : Location) : (t.put (here ++ [name]) content).file? there =
      if there = here ++ [name] then some content else t.file? there := by
  unfold file?
  rw [entry?_put]
  by_cases hthere : there = here ++ [name]
  · rw [if_pos hthere, if_pos hthere]
  · rw [if_neg hthere, if_neg hthere]

theorem isDirectoryAt_put {content : ByteArray}
    (h : t.isDirectoryAt (here ++ [name]) = false) (there : Location) :
    (t.put (here ++ [name]) content).isDirectoryAt there = t.isDirectoryAt there := by
  by_cases hthere : there = here ++ [name]
  · rw [hthere, h]
    simp [isDirectoryAt, entry?_put, FileEntry.kind]
  · simp [isDirectoryAt, entry?_put, hthere]

theorem WellFormed.put (ht : t.WellFormed) (hhere : t.isDirectoryAt here = true)
    (hname : isName name = true) (h : t.isDirectoryAt (here ++ [name]) = false)
    (content : ByteArray) : (t.put (here ++ [name]) content).WellFormed := by
  constructor
  case start => exact (isDirectoryAt_put h _).trans ht.start
  case parent =>
    intro there part hsome
    rw [isDirectoryAt_put h]
    by_cases hnew : there ++ [part] = here ++ [name]
    · obtain ⟨rfl, heq⟩ := List.append_inj' hnew rfl
      obtain rfl := List.singleton_inj.1 heq
      exact ⟨hhere, hname⟩
    · rw [entry?_put, if_neg hnew] at hsome
      exact ht.parent there part hsome

/-- Makes the directories along a walk and a file in the last one, and tells whether the file
is there. -/
def place (t : FileTree) (here : Location) (parts : List String) (name : String)
    (content : ByteArray) : FileTree × Bool :=
  let (made, ok) := t.makeFrom here parts
  let file := parts.foldl advance here ++ [name]
  if ok && isName name && !made.isDirectoryAt file then (made.put file content, true)
  else (made, false)

/-- Makes files in the same directory up to the first that cannot be made. -/
def placeAll (t : FileTree) (here : Location) (parts : List String) :
    List (String × ByteArray) → FileTree × Bool
  | [] => (t, true)
  | (name, content) :: files =>
    let (placed, ok) := t.place here parts name content
    if ok then placed.placeAll here parts files else (placed, false)

theorem place_spec (ht : t.WellFormed) (hhere : t.isDirectoryAt here = true)
    (parts : List String) (name : String) (content : ByteArray) :
    (t.place here parts name content).1.WellFormed ∧
      (t.place here parts name content).1.workingDirectory = t.workingDirectory ∧
      (t.place here parts name content).1.isDirectoryAt here = true := by
  obtain ⟨hwell, hstart, -, hkept, hmade⟩ := makeFrom_spec ht hhere parts
  unfold place
  dsimp only
  split
  · rename_i hok
    simp only [Bool.and_eq_true, Bool.not_eq_true'] at hok
    refine ⟨hwell.put (hmade hok.1.1).2 hok.1.2 hok.2 content, hstart, ?_⟩
    rw [isDirectoryAt_put hok.2]
    exact hkept _ hhere
  · exact ⟨hwell, hstart, hkept _ hhere⟩

/-! ## Two trees -/

/-- Where two trees are to agree. -/
structure Region where
  /-- On the contents of files. -/
  contents : Location → Prop
  /-- On where files are. -/
  files : Location → Prop
  /-- On where directories are. -/
  directories : Location → Prop

structure Agree (r : Region) (t u : FileTree) : Prop where
  left : t.WellFormed
  right : u.WellFormed
  workingDirectory : t.workingDirectory = u.workingDirectory
  contents : ∀ here, r.contents here → t.file? here = u.file? here
  files : ∀ here, r.files here → (t.file? here).isNone = (u.file? here).isNone
  directories : ∀ here, r.directories here → t.isDirectoryAt here = u.isDirectoryAt here

namespace Agree

variable {r : Region}

theorem refl (r : Region) (ht : t.WellFormed) : Agree r t t :=
  ⟨ht, ht, rfl, fun _ _ => rfl, fun _ _ => rfl, fun _ _ => rfl⟩

theorem symm (h : Agree r t u) : Agree r u t :=
  ⟨h.right, h.left, h.workingDirectory.symm, fun here hr => (h.contents here hr).symm,
    fun here hr => (h.files here hr).symm, fun here hr => (h.directories here hr).symm⟩

theorem enter (h : Agree r t u) (ht : (t.enter here).WellFormed) (hu : (u.enter here).WellFormed)
    (htfile : t.file? here = none) (hufile : u.file? here = none) :
    Agree r (t.enter here) (u.enter here) where
  left := ht
  right := hu
  workingDirectory := by rw [workingDirectory_enter, workingDirectory_enter, h.workingDirectory]
  contents there hr := by rw [file?_enter, file?_enter, h.contents there hr]
  files there hr := by rw [file?_enter, file?_enter, h.files there hr]
  directories there hr := by
    rw [isDirectoryAt_enter htfile, isDirectoryAt_enter hufile, h.directories there hr]

/-- Trees with the same files along a walk let the same directories be made. -/
theorem makeFrom (h : Agree r t u) (ht : t.isDirectoryAt here = true)
    (hu : u.isDirectoryAt here = true) (hfiles : ∀ there ∈ visits here parts, r.files there) :
    (t.makeFrom here parts).2 = (u.makeFrom here parts).2 ∧
      Agree r (t.makeFrom here parts).1 (u.makeFrom here parts).1 := by
  induction parts generalizing t u here with
  | nil => exact ⟨ht.trans hu.symm, h⟩
  | cons part parts ih =>
    have hnext : r.files (advance here part) :=
      hfiles _ (List.mem_cons_of_mem _ (start_mem_visits _ _))
    -- The next location holds a file in both trees or in neither.
    rw [makeFrom_cons h.left ht, makeFrom_cons h.right hu, h.files _ hnext]
    by_cases hgo : (u.file? (advance here part)).isNone ∧ IsStep part
    · rw [if_pos hgo, if_pos hgo]
      have hufile : u.file? (advance here part) = none := Option.isNone_iff_eq_none.1 hgo.1
      have htfile : t.file? (advance here part) = none := by
        rw [← Option.isNone_iff_eq_none, h.files _ hnext]
        exact hgo.1
      obtain ⟨hleft, htnext⟩ := enter_advance h.left ht hgo.2 htfile
      obtain ⟨hright, hunext⟩ := enter_advance h.right hu hgo.2 hufile
      exact ih (h.enter hleft hright htfile hufile) htnext hunext fun there hmem =>
        hfiles there (List.mem_cons_of_mem _ hmem)
    · rw [if_neg hgo, if_neg hgo]
      exact ⟨rfl, h⟩

/-- Directories that are made outside the region of a tree leave it in agreement. -/
theorem makeFrom_left (h : Agree r t u) (ht : t.isDirectoryAt here = true)
    (houtside : ∀ there ∈ visits here parts, ¬ r.directories there) :
    Agree r (t.makeFrom here parts).1 u := by
  induction parts generalizing t here with
  | nil => exact h
  | cons part parts ih =>
    have hnext : ¬ r.directories (advance here part) :=
      houtside _ (List.mem_cons_of_mem _ (start_mem_visits _ _))
    rw [makeFrom_cons h.left ht]
    by_cases hgo : (t.file? (advance here part)).isNone ∧ IsStep part
    · rw [if_pos hgo]
      have hfile : t.file? (advance here part) = none := Option.isNone_iff_eq_none.1 hgo.1
      obtain ⟨hleft, htnext⟩ := enter_advance h.left ht hgo.2 hfile
      have hentered : Agree r (t.enter (advance here part)) u := {
        h with
        left := hleft
        workingDirectory := workingDirectory_enter.trans h.workingDirectory
        contents := fun there hr => by rw [file?_enter, h.contents there hr]
        files := fun there hr => by rw [file?_enter, h.files there hr]
        directories := fun there hr => by
          have hne : there ≠ advance here part := fun heq => hnext (heq ▸ hr)
          rw [isDirectoryAt_enter hfile, decide_eq_false hne, Bool.false_or,
            h.directories there hr] }
      exact ih hentered htnext fun there hmem => houtside there (List.mem_cons_of_mem _ hmem)
    · rw [if_neg hgo]
      exact h

theorem put (h : Agree r t u) {content content' : ByteArray}
    (ht : (t.put (here ++ [name]) content).WellFormed)
    (hu : (u.put (here ++ [name]) content').WellFormed)
    (htno : t.isDirectoryAt (here ++ [name]) = false)
    (huno : u.isDirectoryAt (here ++ [name]) = false)
    (hcontent : r.contents (here ++ [name]) → content = content') :
    Agree r (t.put (here ++ [name]) content) (u.put (here ++ [name]) content') where
  left := ht
  right := hu
  workingDirectory := h.workingDirectory
  contents there hr := by
    rw [file?_put, file?_put, h.contents there hr]
    split
    · rename_i heq
      rw [hcontent (heq ▸ hr)]
    · rfl
  files there hr := by
    rw [file?_put, file?_put]
    split
    · rfl
    · exact h.files there hr
  directories there hr := by
    rw [isDirectoryAt_put htno, isDirectoryAt_put huno, h.directories there hr]

theorem place (h : Agree r t u) (ht : t.isDirectoryAt here = true)
    (hu : u.isDirectoryAt here = true) (name : String) {content content' : ByteArray}
    (hfiles : ∀ there ∈ visits here parts, r.files there)
    (hdirectory : r.directories (parts.foldl advance here ++ [name]))
    (hcontent : r.contents (parts.foldl advance here ++ [name]) → content = content') :
    (t.place here parts name content).2 = (u.place here parts name content').2 ∧
      Agree r (t.place here parts name content).1 (u.place here parts name content').1 := by
  obtain ⟨hok, hagree⟩ := h.makeFrom ht hu hfiles
  obtain ⟨htwell, -, -, -, htmade⟩ := makeFrom_spec h.left ht parts
  obtain ⟨huwell, -, -, -, humade⟩ := makeFrom_spec h.right hu parts
  unfold FileTree.place
  dsimp only
  rw [hok, hagree.directories _ hdirectory]
  split
  · rename_i hgo
    simp only [Bool.and_eq_true, Bool.not_eq_true'] at hgo
    have htno := (hagree.directories _ hdirectory).trans hgo.2
    exact ⟨rfl, hagree.put (htwell.put (htmade (hok.trans hgo.1.1)).2 hgo.1.2 htno content)
      (huwell.put (humade hgo.1.1).2 hgo.1.2 hgo.2 content') htno hgo.2 hcontent⟩
  · exact ⟨rfl, hagree⟩

theorem placeAll (h : Agree r t u) (ht : t.isDirectoryAt here = true)
    (hu : u.isDirectoryAt here = true) {files : List (String × ByteArray)}
    (hfiles : ∀ there ∈ visits here parts, r.files there)
    (hdirectories : ∀ file ∈ files, r.directories (parts.foldl advance here ++ [file.1])) :
    Agree r (t.placeAll here parts files).1 (u.placeAll here parts files).1 := by
  induction files generalizing t u with
  | nil => exact h
  | cons file files ih =>
    have hcontent : r.contents (parts.foldl advance here ++ [file.1]) → file.2 = file.2 :=
      fun _ => rfl
    obtain ⟨hok, hagree⟩ := h.place ht hu file.1 hfiles (hdirectories file List.mem_cons_self)
      hcontent
    unfold FileTree.placeAll
    dsimp only
    rw [hok]
    split
    · exact ih hagree (place_spec h.left ht _ _ _).2.2 (place_spec h.right hu _ _ _).2.2
        fun file hmem => hdirectories file (List.mem_cons_of_mem _ hmem)
    · exact hagree

theorem place_left (h : Agree r t u) (ht : t.isDirectoryAt here = true) (content : ByteArray)
    (houtside : ∀ there ∈ visits here parts, ¬ r.directories there)
    (hfile : ¬ r.contents (parts.foldl advance here ++ [name]) ∧
      ¬ r.files (parts.foldl advance here ++ [name])) :
    Agree r (t.place here parts name content).1 u := by
  have hagree := h.makeFrom_left ht houtside
  obtain ⟨hwell, -, -, -, hmade⟩ := makeFrom_spec h.left ht parts
  unfold FileTree.place
  dsimp only
  split
  · rename_i hgo
    simp only [Bool.and_eq_true, Bool.not_eq_true'] at hgo
    exact {
      left := hwell.put (hmade hgo.1.1).2 hgo.1.2 hgo.2 content
      right := h.right
      workingDirectory := hagree.workingDirectory
      contents := fun there hr => by
        have hne : there ≠ parts.foldl advance here ++ [name] := by
          rintro rfl
          exact hfile.1 hr
        rw [file?_put, if_neg hne, hagree.contents there hr]
      files := fun there hr => by
        have hne : there ≠ parts.foldl advance here ++ [name] := by
          rintro rfl
          exact hfile.2 hr
        rw [file?_put, if_neg hne, hagree.files there hr]
      directories := fun there hr => by
        rw [isDirectoryAt_put hgo.2, hagree.directories there hr] }
  · exact hagree

theorem placeAll_left (h : Agree r t u) (ht : t.isDirectoryAt here = true)
    {files : List (String × ByteArray)}
    (houtside : ∀ there ∈ visits here parts, ¬ r.directories there)
    (hfiles : ∀ file ∈ files, ¬ r.contents (parts.foldl advance here ++ [file.1]) ∧
      ¬ r.files (parts.foldl advance here ++ [file.1])) :
    Agree r (t.placeAll here parts files).1 u := by
  induction files generalizing t with
  | nil => exact h
  | cons file files ih =>
    have hagree := h.place_left ht file.2 houtside (hfiles file List.mem_cons_self)
    unfold FileTree.placeAll
    dsimp only
    split
    · exact ih hagree (place_spec h.left ht _ _ _).2.2
        fun file hmem => hfiles file (List.mem_cons_of_mem _ hmem)
    · exact hagree

end Agree

end FileTree

end TopdownMetrics

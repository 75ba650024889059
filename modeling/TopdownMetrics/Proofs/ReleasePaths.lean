import Mathlib.Data.List.Induction
import TopdownMetrics.Files.Path

/-!
# Paths of files in a directory

The path of a file is put together from the path of its directory and its name, and the path
of its directory is taken from it again to make that directory.  Both paths have the same
parts up to those that stay where they are, so that they lead to the same place.
-/

namespace TopdownMetrics

namespace Text

variable {p : Char → Bool} {c : Char}

/-- A separator splits a text into the pieces in front of it and those behind it. -/
theorem splitOn_append_cons (hc : p c = true) (front behind : List Char) :
    splitOn p (front ++ c :: behind) = splitOn p front ++ splitOn p behind := by
  induction front with
  | nil => simp [splitOn, hc]
  | cons d front ih =>
    rw [List.cons_append]
    by_cases hd : p d = true
    · simp [splitOn, hd, ih]
    · cases hpieces : splitOn p front with
      | nil => exact absurd hpieces (splitOn_ne_nil p front)
      | cons piece pieces => simp [splitOn, hd, ih, hpieces]

theorem beq_eq_false_of_notMem {cs : List Char} (h : c ∉ cs) : ∀ d ∈ cs, (d == c) = false := by
  intro d hd
  exact beq_eq_false_iff_ne.2 fun heq => h (heq ▸ hd)

theorem splitOn_of_forall {cs : List Char} (h : ∀ c ∈ cs, p c = false) : splitOn p cs = [cs] := by
  induction cs with
  | nil => rfl
  | cons c cs ih =>
    simp [splitOn, h c List.mem_cons_self, ih fun d hd => h d (List.mem_cons_of_mem _ hd)]

theorem forall_mem_splitOn {cs piece : List Char} (h : piece ∈ splitOn p cs) :
    ∀ c ∈ piece, p c = false := by
  induction cs generalizing piece with
  | nil =>
    obtain rfl := List.mem_singleton.1 h
    simp
  | cons d cs ih =>
    unfold splitOn at h
    split at h
    · rcases List.mem_cons.1 h with rfl | h
      · simp
      · exact ih h
    · rename_i hd
      cases hpieces : splitOn p cs with
      | nil => exact absurd hpieces (splitOn_ne_nil p cs)
      | cons first pieces =>
        rw [hpieces] at h ih
        rcases List.mem_cons.1 h with rfl | h
        · intro c hc
          rcases List.mem_cons.1 hc with rfl | hc
          · simpa using hd
          · exact ih List.mem_cons_self c hc
        · exact ih (List.mem_cons_of_mem _ h)

theorem exists_splitOn_eq_cons (p : Char → Bool) (cs : List Char) :
    ∃ piece pieces, splitOn p cs = piece :: pieces ∧ piece <+: cs := by
  induction cs with
  | nil => exact ⟨[], [], rfl, List.nil_prefix⟩
  | cons c cs ih =>
    obtain ⟨piece, pieces, hpieces, hprefix⟩ := ih
    by_cases hc : p c = true
    · exact ⟨[], piece :: pieces, by simp [splitOn, hc, hpieces], List.nil_prefix⟩
    · exact ⟨c :: piece, pieces, by simp [splitOn, hc, hpieces],
        List.cons_prefix_cons.2 ⟨rfl, hprefix⟩⟩

/-- Characters that do not separate join the first piece. -/
theorem splitOn_append {front cs piece : List Char} {pieces : List (List Char)}
    (h : ∀ c ∈ front, p c = false) (hcs : splitOn p cs = piece :: pieces) :
    splitOn p (front ++ cs) = (front ++ piece) :: pieces := by
  induction front with
  | nil => exact hcs
  | cons c front ih =>
    have hrest := ih fun d hd => h d (List.mem_cons_of_mem _ hd)
    simp [splitOn, h c List.mem_cons_self, hrest]

theorem intercalate_splitOn (c : Char) (cs : List Char) :
    [c].intercalate (splitOn (· == c) cs) = cs := by
  induction cs with
  | nil => simp [splitOn]
  | cons d cs ih =>
    cases hpieces : splitOn (· == c) cs with
    | nil => exact absurd hpieces (splitOn_ne_nil _ cs)
    | cons piece pieces =>
      rw [hpieces] at ih
      by_cases hd : d = c
      · simp [splitOn, hpieces, hd, ih, List.intercalate_cons_cons]
      · cases pieces with
        | nil => simpa [splitOn, hpieces, hd] using ih
        | cons second pieces =>
          rw [List.intercalate_cons_cons] at ih
          simpa [splitOn, hpieces, hd, List.intercalate_cons_cons] using ih

/-! ## Texts of pieces -/

variable {separator : Char} {mark text : String} {pieces : List String}

theorem notMem_of_mem_split {piece : String} (h : piece ∈ split text separator) :
    separator ∉ piece.toList := by
  obtain ⟨cs, hcs, rfl⟩ := List.mem_map.1 h
  rw [String.toList_ofList]
  intro hmem
  have hno := forall_mem_splitOn hcs separator hmem
  simp at hno

theorem split_of_notMem (h : separator ∉ text.toList) : split text separator = [text] := by
  have hpieces : splitOn (· == separator) text.toList = [text.toList] :=
    splitOn_of_forall (beq_eq_false_of_notMem h)
  rw [split, hpieces, List.map_singleton, String.ofList_toList]

theorem split_append_mark (hmark : mark.toList = [separator]) (front behind : String) :
    split (front ++ mark ++ behind) separator =
      split front separator ++ split behind separator := by
  simp only [split, String.toList_append, hmark, List.append_assoc, List.singleton_append]
  rw [splitOn_append_cons (p := (· == separator)) (beq_self_eq_true separator), List.map_append]

theorem split_intercalate (hmark : mark.toList = [separator]) (hne : pieces ≠ [])
    (h : ∀ piece ∈ pieces, separator ∉ piece.toList) :
    split (String.intercalate mark pieces) separator = pieces := by
  induction pieces with
  | nil => exact absurd rfl hne
  | cons piece pieces ih =>
    have hpiece := h piece List.mem_cons_self
    cases pieces with
    | nil => rw [String.intercalate_singleton, split_of_notMem hpiece]
    | cons second pieces =>
      rw [String.intercalate_cons_cons, split_append_mark hmark, split_of_notMem hpiece,
        ih (by simp) fun piece hmem => h piece (List.mem_cons_of_mem _ hmem)]
      rfl

theorem intercalate_split (hmark : mark.toList = [separator]) (text : String) :
    String.intercalate mark (split text separator) = text := by
  have hpieces : (split text separator).map String.toList =
      splitOn (· == separator) text.toList := by
    simp [split, Function.comp_def]
  rw [← String.toList_inj, String.toList_intercalate, hpieces, hmark, intercalate_splitOn]

end Text

namespace Path

variable {directory name path : String} {pieces : List String}

theorem parts_append_slash (front behind : String) :
    parts (front ++ "/" ++ behind) = parts front ++ parts behind :=
  Text.split_append_mark (by rfl) front behind

theorem parts_of_not_mem (h : '/' ∉ name.toList) : parts name = [name] :=
  Text.split_of_notMem h

theorem not_mem_of_mem_parts (h : name ∈ parts path) : '/' ∉ name.toList :=
  Text.notMem_of_mem_split h

theorem parts_intercalate (hne : pieces ≠ []) (h : ∀ piece ∈ pieces, '/' ∉ piece.toList) :
    parts (String.intercalate "/" pieces) = pieces :=
  Text.split_intercalate (by rfl) hne h

/-- The part does not stay where the path is. -/
def leads (part : String) : Bool :=
  part != "" && part != "."

/-- The parts of a path that lead on. -/
def steps (path : String) : List String :=
  (parts path).filter leads

/-- A name that a file can be given in any directory. -/
structure IsFileName (name : String) : Prop where
  not_mem : '/' ∉ name.toList
  leads : leads name = true
  ne_up : name ≠ ".."

theorem names_eq (path : String) : names path =
    match parts path with
    | "." :: rest => "." :: rest.filter leads
    | ps => ps.filter leads :=
  rfl

/-- What is left of a path in front of the name of a file. -/
theorem exists_names_of_parts {front : List String} (hparts : parts path = front ++ [name])
    (hname : leads name = true) :
    ∃ kept, names path = kept ++ [name] ∧ kept.filter leads = front.filter leads ∧
      ∀ part ∈ kept, part ∈ front ∧ part ≠ "" := by
  have hlast (rest : List String) :
      (rest ++ [name]).filter leads = rest.filter leads ++ [name] := by
    simp [hname]
  have hkept (rest : List String) : ∀ part ∈ rest.filter leads, part ∈ rest ∧ part ≠ "" := by
    intro part hmem
    obtain ⟨hmem, hleads⟩ := List.mem_filter.1 hmem
    simp only [leads, Bool.and_eq_true, bne_iff_ne] at hleads
    exact ⟨hmem, hleads.1⟩
  rw [names_eq, hparts]
  cases front with
  | nil =>
    have hne : name ≠ "." := by
      rintro rfl
      simp [leads] at hname
    refine ⟨[], ?_, rfl, by simp⟩
    split
    · rename_i rest heq
      simp only [List.nil_append, List.cons.injEq] at heq
      exact absurd heq.1 hne
    · simp [hname]
  | cons first rest =>
    by_cases hfirst : first = "."
    · subst hfirst
      refine ⟨"." :: rest.filter leads, by simp [hname], by simp [List.filter_cons], ?_⟩
      intro part hmem
      rcases List.mem_cons.1 hmem with rfl | hmem
      · exact ⟨List.mem_cons_self, by decide⟩
      · obtain ⟨hmem, hne⟩ := hkept rest part hmem
        exact ⟨List.mem_cons_of_mem _ hmem, hne⟩
    · refine ⟨(first :: rest).filter leads, ?_, by simp, hkept _⟩
      split
      · rename_i heq
        simp only [List.cons_append, List.cons.injEq] at heq
        exact absurd heq.1 hfirst
      · exact hlast _

theorem isAbsolute_of_not_mem (h : '/' ∉ path.toList) : isAbsolute path = false := by
  unfold isAbsolute Text.startsWith
  cases hchars : path.toList with
  | nil => rfl
  | cons c cs =>
    have hne : '/' ≠ c := by
      rintro rfl
      simp [hchars] at h
    simp [List.isPrefixOf, hne]

theorem isAbsolute_append (hne : path ≠ "") (behind : String) :
    isAbsolute (path ++ behind) = isAbsolute path := by
  have hchars : path.toList ≠ [] := by simpa using hne
  unfold isAbsolute Text.startsWith
  rw [String.toList_append]
  cases hpath : path.toList with
  | nil => exact absurd hpath hchars
  | cons c cs => simp [List.isPrefixOf]

/-- The path of a file in a directory starts like that of the directory and has its parts and
the name. -/
theorem join_fileName (hname : IsFileName name) (directory : String) :
    isAbsolute (join directory name) = isAbsolute directory ∧ join directory name ≠ "" ∧
      ∃ front, parts (join directory name) = front ++ [name] ∧
        front.filter leads = steps directory := by
  have hrelative : isAbsolute name = false := isAbsolute_of_not_mem hname.not_mem
  have hnonempty : name ≠ "" := by
    have hleads := hname.leads
    rintro rfl
    simp [leads] at hleads
  have hparts := parts_of_not_mem hname.not_mem
  unfold join
  by_cases hempty : directory = ""
  · subst hempty
    refine ⟨?_, by simp [hnonempty], [], by simp [hparts], by decide⟩
    simp [hrelative]
    rfl
  · have hgo : (isAbsolute name || directory == "") = false := by simp [hrelative, hempty]
    rw [hgo]
    by_cases hslash : directory.toList.getLast? = some '/'
    · -- The slash at the end separates the name from an empty part.
      obtain ⟨front, hfront⟩ := List.getLast?_eq_some_iff.1 hslash
      have hdirectory : directory = String.ofList front ++ "/" ++ "" := by
        apply String.toList_inj.1
        simp [hfront]
      have hjoined : directory ++ name = String.ofList front ++ "/" ++ name := by
        apply String.toList_inj.1
        simp [hfront]
      simp only [hslash, beq_self_eq_true, if_true, Bool.false_eq_true, if_false]
      refine ⟨isAbsolute_append hempty name, by simp [hnonempty], parts (String.ofList front),
        ?_, ?_⟩
      · rw [hjoined, parts_append_slash, hparts]
      · have hstay : parts "" = [""] := by decide
        unfold steps
        rw [hdirectory, parts_append_slash, hstay, List.filter_append]
        simp [leads]
    · have hslash' : (directory.toList.getLast? == some '/') = false := by simpa using hslash
      simp only [hslash', Bool.false_eq_true, if_false]
      refine ⟨?_, by simp [hnonempty], parts directory, ?_, rfl⟩
      · rw [String.append_assoc]
        exact isAbsolute_append hempty _
      · rw [parts_append_slash, hparts]

/-- The directory of a file is reached like the directory that its path was put together
from. -/
theorem parent?_join (hname : IsFileName name) (directory : String) :
    ∃ parent, parent? (join directory name) = some parent ∧
      (parent = "" ∧ isAbsolute directory = false ∧ steps directory = [] ∨
        parent ≠ "" ∧ isAbsolute parent = isAbsolute directory ∧
          steps parent = steps directory) := by
  obtain ⟨habsolute, -, front, hparts, hsteps⟩ := join_fileName hname directory
  obtain ⟨kept, hnames, hkept, hmem⟩ := exists_names_of_parts hparts hname.leads
  have hslash : ∀ part ∈ kept, '/' ∉ part.toList := by
    intro part hpart
    have hin : part ∈ parts (join directory name) := by
      rw [hparts]
      exact List.mem_append_left _ (hmem part hpart).1
    exact not_mem_of_mem_parts hin
  have hparent : parent? (join directory name) = some
      ((if isAbsolute directory then "/" else "") ++ String.intercalate "/" kept) := by
    unfold parent?
    rw [hnames, if_neg (by simp), List.dropLast_concat, habsolute]
  refine ⟨_, hparent, ?_⟩
  by_cases hroot : isAbsolute directory = true
  · right
    rw [if_pos hroot]
    refine ⟨by simp, ?_, ?_⟩
    · rw [isAbsolute_append (by simp), hroot]
      decide
    · have hrest : (parts (String.intercalate "/" kept)).filter leads = kept.filter leads := by
        cases hpieces : kept with
        | nil => decide
        | cons piece pieces => rw [parts_intercalate (by simp) (hpieces ▸ hslash)]
      have hparts' : parts ("/" ++ String.intercalate "/" kept) =
          "" :: parts (String.intercalate "/" kept) :=
        parts_append_slash "" _
      unfold steps at hsteps ⊢
      rw [hparts', List.filter_cons, hrest, hkept, hsteps]
      simp [leads]
  · rw [if_neg hroot, String.empty_append]
    rw [Bool.not_eq_true] at hroot
    cases hpieces : kept with
    | nil =>
      left
      rw [hpieces] at hkept
      exact ⟨rfl, hroot, (hkept.trans hsteps).symm⟩
    | cons piece pieces =>
      right
      have hparts' : parts (String.intercalate "/" (piece :: pieces)) = piece :: pieces :=
        parts_intercalate (by simp) (hpieces ▸ hslash)
      have hpiece : piece ≠ "" := (hmem piece (hpieces ▸ List.mem_cons_self)).2
      have hpieceSlash := hslash piece (hpieces ▸ List.mem_cons_self)
      have hstart : String.intercalate "/" (piece :: pieces) =
          piece ++ (String.intercalate "/" ("" :: pieces)) := by
        cases pieces with
        | nil => simp
        | cons second pieces => simp [String.intercalate_cons_cons, String.append_assoc]
      refine ⟨?_, ?_, ?_⟩
      · rw [hstart]
        simp [hpiece]
      · rw [hstart, isAbsolute_append hpiece, isAbsolute_of_not_mem hpieceSlash, hroot]
      · unfold steps at hsteps ⊢
        rw [hparts', ← hpieces, hkept, hsteps]

end Path

end TopdownMetrics

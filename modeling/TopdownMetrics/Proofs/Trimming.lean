import Mathlib.Data.List.DropRight
import TopdownMetrics.Text.Blank

/-!
# Trimmed texts

Trimming leaves a text without blanks at its ends, and takes away nothing else.  So a trimmed text
stays as it is, and nothing is left of a text exactly if all of it is blank.
-/

namespace TopdownMetrics.Text

structure IsTrimmed (cs : List Char) : Prop where
  head : ∀ c, cs.head? = some c → isBlank c = false
  last : ∀ c, cs.getLast? = some c → isBlank c = false

theorem trimChars_of_isTrimmed {cs : List Char} (h : IsTrimmed cs) : trimChars cs = cs := by
  have hleft : trimLeft cs = cs := by
    cases cs with
    | nil => rfl
    | cons c cs => exact List.dropWhile_cons_of_neg (by simp [h.head c rfl])
  rw [trimChars, hleft]
  refine List.rdropWhile_eq_self_iff.2 fun hne => ?_
  simp [h.last _ (List.getLast?_eq_getLast_of_ne_nil hne)]

/-- Trimming on the right does not bring a blank to the left end. -/
theorem trimLeft_trimRight {cs : List Char} (h : trimLeft cs = cs) :
    trimLeft (trimRight cs) = trimRight cs := by
  have hprefix : trimRight cs <+: cs := List.rdropWhile_prefix isBlank cs
  cases hright : trimRight cs with
  | nil => rfl
  | cons c rest =>
    rw [hright] at hprefix
    obtain ⟨behind, rfl⟩ := hprefix
    by_cases hblank : isBlank c = true
    · have hlength := congrArg List.length h
      have hle : (trimLeft (rest ++ behind)).length ≤ (rest ++ behind).length :=
        List.length_dropWhile_le isBlank _
      have hdrop : trimLeft (c :: rest ++ behind) = trimLeft (rest ++ behind) :=
        List.dropWhile_cons_of_pos hblank
      rw [hdrop, List.cons_append, List.length_cons] at hlength
      omega
    · exact List.dropWhile_cons_of_neg hblank

theorem isTrimmed_trimChars (cs : List Char) : IsTrimmed (trimChars cs) := by
  have hidempotent : trimLeft (trimLeft cs) = trimLeft cs := List.dropWhile_idempotent isBlank cs
  have hleft : trimLeft (trimChars cs) = trimChars cs := trimLeft_trimRight hidempotent
  constructor
  · intro c hc
    have hnot := List.head?_dropWhile_not isBlank (trimChars cs)
    rw [show (trimChars cs).dropWhile isBlank = trimChars cs from hleft, hc] at hnot
    simpa using hnot
  · intro c hc
    have hne : trimChars cs ≠ [] := by
      rintro hnil
      rw [hnil] at hc
      cases hc
    have hlast := List.rdropWhile_last_not isBlank (trimLeft cs) hne
    rw [List.getLast?_eq_getLast_of_ne_nil hne] at hc
    rw [Bool.not_eq_true] at hlast
    rw [← Option.some.inj hc]
    exact hlast

theorem trimChars_eq_self_iff {cs : List Char} : trimChars cs = cs ↔ IsTrimmed cs :=
  ⟨fun h => h ▸ isTrimmed_trimChars cs, trimChars_of_isTrimmed⟩

theorem trim_trim (text : String) : trim (trim text) = trim text := by
  unfold trim
  rw [String.toList_ofList, trimChars_of_isTrimmed (isTrimmed_trimChars text.toList)]

theorem trimChars_append_blanks {front behind : List Char} (hfront : ∀ c ∈ front, isBlank c = true)
    (hbehind : ∀ c ∈ behind, isBlank c = true) (cs : List Char) :
    trimChars (front ++ (cs ++ behind)) = trimChars cs := by
  have hright (ds : List Char) : trimRight (ds ++ behind) = trimRight ds := by
    unfold trimRight
    rw [List.reverse_append, List.dropWhile_append_of_pos]
    intro c hc
    exact hbehind c (List.mem_reverse.1 hc)
  have hleft : trimLeft (front ++ (cs ++ behind)) = trimLeft (cs ++ behind) :=
    List.dropWhile_append_of_pos hfront
  rw [trimChars, hleft, trimLeft, List.dropWhile_append]
  cases hcs : cs.dropWhile isBlank with
  | nil =>
    have hnil : behind.dropWhile isBlank = [] := List.dropWhile_eq_nil_iff.2 hbehind
    simp [trimChars, trimLeft, hcs, hnil]
  | cons c ds =>
    rw [List.isEmpty_cons, if_neg (by decide), hright, trimChars, trimLeft, hcs]

theorem exists_blanks_around (cs : List Char) :
    ∃ front behind, (∀ c ∈ front, isBlank c = true) ∧ (∀ c ∈ behind, isBlank c = true) ∧
      cs = front ++ (trimChars cs ++ behind) := by
  refine ⟨cs.takeWhile isBlank, (trimLeft cs).rtakeWhile isBlank, ?_, ?_, ?_⟩
  · exact fun c hc => List.mem_takeWhile_imp hc
  · exact fun c hc => List.mem_rtakeWhile_imp hc
  · have hright : trimChars cs ++ (trimLeft cs).rtakeWhile isBlank = trimLeft cs :=
      List.rdropWhile_append_rtakeWhile
    rw [hright]
    exact List.takeWhile_append_dropWhile.symm

theorem mem_of_mem_trimChars {cs : List Char} {c : Char} (h : c ∈ trimChars cs) : c ∈ cs := by
  obtain ⟨front, behind, -, -, hcs⟩ := exists_blanks_around cs
  rw [hcs]
  simp [h]

theorem trimChars_eq_nil_iff {cs : List Char} :
    trimChars cs = [] ↔ ∀ c ∈ cs, isBlank c = true := by
  constructor
  · intro hnil
    obtain ⟨front, behind, hfront, hbehind, hcs⟩ := exists_blanks_around cs
    rw [hcs, hnil]
    intro c hc
    rcases List.mem_append.1 hc with hc | hc
    · exact hfront c hc
    · exact hbehind c hc
  · intro hblank
    by_contra hne
    obtain ⟨c, rest, htrim⟩ := List.exists_cons_of_ne_nil hne
    have hc : isBlank c = false := (isTrimmed_trimChars cs).head c (by rw [htrim, List.head?_cons])
    have hmem : c ∈ cs := mem_of_mem_trimChars (by rw [htrim]; exact List.mem_cons_self)
    rw [hblank c hmem] at hc
    cases hc

/-- Characters that are spelled out one by one do not become blank at the ends. -/
theorem IsTrimmed.flatMap {cs : List Char} {spell : Char → List Char} (h : IsTrimmed cs)
    (hspell : ∀ c ∈ cs, spell c ≠ []) (htrimmed : ∀ c, isBlank c = false → IsTrimmed (spell c)) :
    IsTrimmed (cs.flatMap spell) := by
  constructor
  · intro c hc
    cases cs with
    | nil => cases hc
    | cons d ds =>
      obtain ⟨e, es, hes⟩ := List.exists_cons_of_ne_nil (hspell d List.mem_cons_self)
      rw [List.flatMap_cons, hes] at hc
      refine (htrimmed d (h.head d rfl)).head c ?_
      rw [hes]
      exact hc
  · intro c hc
    rcases List.eq_nil_or_concat cs with rfl | ⟨ds, d, rfl⟩
    · cases hc
    · rw [List.concat_eq_append] at h hspell hc
      have hne : spell d ≠ [] := hspell d (by simp)
      rw [List.flatMap_append, List.flatMap_singleton, List.getLast?_append_of_ne_nil _ hne] at hc
      exact (htrimmed d (h.last d (by simp))).last c hc

end TopdownMetrics.Text

import TopdownMetrics.Events.Event
import TopdownMetrics.Proofs.Replacing
import TopdownMetrics.Proofs.Trimming

/-!
# The cleaned values of an event

A value is held against the placeholders as it stands in the file; then the blanks around it are
dropped, and trade marks and byte order marks at the end.  The marks never survive.  But a step can
bring about what the one before it had looked for: without its blanks a text may be a placeholder,
and behind a byte order mark at its end there may be a blank.  A cleaned value is clean exactly if
the same steps in the opposite order have the same result.
-/

namespace TopdownMetrics

namespace Event

/-! ## Marks -/

def byteOrderMark : Char := '\ufeff'

/-- The marks that a clean value has none of. -/
def marks : List Char := ['\u00ae', '\u2122', byteOrderMark]

def spellMark (c : Char) : List Char :=
  if c = '\u00ae' then ['(', 'R', ')']
  else if c = '\u2122' then ['(', 'T', 'M', ')']
  else if c = byteOrderMark then []
  else [c]

theorem toList_cleanMarks (text : String) :
    (cleanMarks text).toList = text.toList.flatMap spellMark := by
  have hmarks : "\u00ae".toList = ['\u00ae'] ∧ "\u2122".toList = ['\u2122'] ∧
      "\ufeff".toList = [byteOrderMark] := by decide
  simp only [cleanMarks, Text.replace, String.toList_ofList, hmarks, Text.replaceAll_singleton,
    List.flatMap_assoc]
  congr 1
  funext c
  unfold spellMark
  split
  · decide
  · split
    · rename_i htrade
      subst htrade
      decide
    · rename_i htrade
      simp [htrade]

theorem spellMark_of_notMem {c : Char} (h : c ∉ marks) : spellMark c = [c] := by
  simp only [marks, List.mem_cons, List.not_mem_nil, or_false, not_or] at h
  rw [spellMark, if_neg h.1, if_neg h.2.1, if_neg h.2.2]

theorem forall_mem_marks_iff {p : Char → Prop} :
    (∀ c ∈ marks, p c) ↔ p '\u00ae' ∧ p '\u2122' ∧ p byteOrderMark := by
  simp [marks]

theorem notMem_marks_of_mem_spellMark {c d : Char} (h : d ∈ spellMark c) : d ∉ marks := by
  by_cases hc : c ∈ marks
  · have hletters : ∀ c ∈ marks, (spellMark c).all (· ∉ marks) :=
      forall_mem_marks_iff.2 (by decide)
    exact of_decide_eq_true (List.all_eq_true.1 (hletters c hc) d h)
  · rw [spellMark_of_notMem hc, List.mem_singleton] at h
    rwa [h]

theorem isTrimmed_spellMark {c : Char} (h : Text.isBlank c = false) :
    Text.IsTrimmed (spellMark c) := by
  by_cases hc : c ∈ marks
  · have hletters : ∀ c ∈ marks, Text.trimChars (spellMark c) = spellMark c :=
      forall_mem_marks_iff.2 (by decide)
    exact Text.trimChars_eq_self_iff.1 (hletters c hc)
  · rw [spellMark_of_notMem hc]
    constructor
    · rintro _ ⟨⟩
      exact h
    · rintro _ ⟨⟩
      exact h

theorem flatMap_spellMark_of_notMem {cs : List Char} (h : ∀ c ∈ cs, c ∉ marks) :
    cs.flatMap spellMark = cs := by
  have hsingle : cs.flatMap spellMark = cs.flatMap fun c => [c] :=
    List.flatMap_congr fun c hc => spellMark_of_notMem (h c hc)
  rw [hsingle, List.flatMap_singleton']

/-- Only a byte order mark is dropped without a trace; the other marks leave a bracket. -/
theorem notMem_marks_of_bracket_notMem {cs : List Char} (hmark : byteOrderMark ∉ cs)
    (hbracket : '(' ∉ cs.flatMap spellMark) : ∀ c ∈ cs, c ∉ marks := by
  intro c hc hmem
  have hspelled : ∀ c ∈ marks, c = byteOrderMark ∨ '(' ∈ spellMark c :=
    forall_mem_marks_iff.2 (by decide)
  rcases hspelled c hmem with rfl | hmem
  · exact hmark hc
  · exact hbracket (List.mem_flatMap.2 ⟨c, hc, hmem⟩)

/-! ## The steps of cleaning -/

/-- The text under a key, before it is cleaned. -/
def text? (raw : Json.Members) (key : String) : Option String :=
  (raw.get? key).bind valueText

theorem clean?_eq (raw : Json.Members) (key : String) :
    clean? raw key = (text? raw key).bind fun text =>
      if text = "" ∨ text ∈ unsetValues then none else some (cleanMarks (Text.trim text)) := by
  unfold clean? text?
  cases raw.get? key with
  | none => rfl
  | some v =>
    simp only [Option.bind_eq_bind, Option.bind_some, List.contains_iff_mem]

theorem clean?_eq_some_iff {raw : Json.Members} {key value : String} :
    clean? raw key = some value ↔
      ∃ text, text? raw key = some text ∧ text ≠ "" ∧ text ∉ unsetValues ∧
        cleanMarks (Text.trim text) = value := by
  simp [clean?_eq, Option.bind_eq_some_iff, and_assoc]

structure IsClean (value : String) : Prop where
  ne_empty : value ≠ ""
  trimmed : Text.IsTrimmed value.toList
  unmarked : ∀ c ∈ value.toList, c ∉ marks
  meant : value ∉ unsetValues

/-- The steps of cleaning in the opposite order: first the marks, then the blanks, and the
placeholders at the end. -/
def cleanFromMarks? (text : String) : Option String :=
  let value := Text.trim (cleanMarks text)
  if value = "" ∨ value ∈ unsetValues then none else some value

theorem trim_eq_self_iff {text : String} : Text.trim text = text ↔ Text.IsTrimmed text.toList := by
  rw [← Text.trimChars_eq_self_iff, Text.trim, ← String.toList_inj, String.toList_ofList]

theorem unmarked_cleanMarks (text : String) : ∀ c ∈ (cleanMarks text).toList, c ∉ marks := by
  intro c hc
  rw [toList_cleanMarks] at hc
  obtain ⟨d, -, hd⟩ := List.mem_flatMap.1 hc
  exact notMem_marks_of_mem_spellMark hd

/-- Blanks are no marks, so that those around a text may be dropped early. -/
theorem trim_cleanMarks_trim (text : String) :
    Text.trim (cleanMarks (Text.trim text)) = Text.trim (cleanMarks text) := by
  obtain ⟨front, behind, hfront, hbehind, htext⟩ := Text.exists_blanks_around text.toList
  have hkept {ws : List Char} (hws : ∀ c ∈ ws, Text.isBlank c = true) :
      ws.flatMap spellMark = ws := by
    apply flatMap_spellMark_of_notMem
    intro c hc hmem
    have hsolid : ∀ c ∈ marks, Text.isBlank c = false :=
      forall_mem_marks_iff.2 (by decide)
    have hblank := hws c hc
    rw [hsolid c hmem] at hblank
    cases hblank
  have hchars : (cleanMarks text).toList =
      front ++ ((cleanMarks (Text.trim text)).toList ++ behind) := by
    rw [toList_cleanMarks, toList_cleanMarks, Text.trim, String.toList_ofList, htext,
      List.flatMap_append, List.flatMap_append, hkept hfront, hkept hbehind]
    rw [← htext]
  have htrimmed : Text.trimChars (cleanMarks text).toList =
      Text.trimChars (cleanMarks (Text.trim text)).toList := by
    rw [hchars, Text.trimChars_append_blanks hfront hbehind]
  exact congrArg String.ofList htrimmed.symm

theorem isClean_cleanMarks_iff (text : String) :
    IsClean (cleanMarks (Text.trim text)) ↔
      cleanFromMarks? text = some (cleanMarks (Text.trim text)) := by
  have hmarks := unmarked_cleanMarks (Text.trim text)
  unfold cleanFromMarks?
  rw [← trim_cleanMarks_trim]
  generalize cleanMarks (Text.trim text) = value at hmarks ⊢
  dsimp only
  constructor
  · rintro ⟨hne, htrimmed, -, hmeant⟩
    rw [trim_eq_self_iff.2 htrimmed, if_neg (not_or.2 ⟨hne, hmeant⟩)]
  · intro hclean
    split_ifs at hclean with hunset
    have htrim : Text.trim value = value := Option.some.inj hclean
    rw [htrim, not_or] at hunset
    exact ⟨hunset.1, trim_eq_self_iff.1 htrim, hmarks, hunset.2⟩

/-! ## Texts without byte order marks -/

theorem isTrimmed_cleanMarks_trim {text : String} (hmark : byteOrderMark ∉ text.toList) :
    Text.IsTrimmed (cleanMarks (Text.trim text)).toList := by
  rw [toList_cleanMarks, Text.trim, String.toList_ofList]
  refine (Text.isTrimmed_trimChars text.toList).flatMap (fun c hc => ?_)
    fun c => isTrimmed_spellMark
  by_cases hmarks : c ∈ marks
  · have hspelled : ∀ c ∈ marks, c = byteOrderMark ∨ spellMark c ≠ [] :=
      forall_mem_marks_iff.2 (by decide)
    refine (hspelled c hmarks).resolve_left ?_
    rintro rfl
    exact hmark (Text.mem_of_mem_trimChars hc)
  · simp [spellMark_of_notMem hmarks]

/-- A text that is empty or a placeholder has no marks, before they are spelled out or after. -/
theorem cleanMarks_mem_unset_iff {text : String} (hmark : byteOrderMark ∉ text.toList) :
    cleanMarks text ∈ "" :: unsetValues ↔ text ∈ "" :: unsetValues := by
  have hkept (h : ∀ c ∈ text.toList, c ∉ marks) : cleanMarks text = text := by
    rw [← String.toList_inj, toList_cleanMarks, flatMap_spellMark_of_notMem h]
  constructor
  · intro hunset
    have hbrackets : ∀ value ∈ "" :: unsetValues, '(' ∉ value.toList := by decide
    have hbracket := hbrackets _ hunset
    rw [toList_cleanMarks] at hbracket
    rwa [hkept (notMem_marks_of_bracket_notMem hmark hbracket)] at hunset
  · intro hunset
    have hunmarked : ∀ value ∈ "" :: unsetValues, value.toList.all (· ∉ marks) := by decide
    rwa [hkept fun c hc =>
      of_decide_eq_true (List.all_eq_true.1 (hunmarked text hunset) c hc)]

theorem isClean_cleanMarks_iff_of_notMem {text : String} (hmark : byteOrderMark ∉ text.toList) :
    IsClean (cleanMarks (Text.trim text)) ↔ Text.trim text ≠ "" ∧ Text.trim text ∉ unsetValues := by
  have hcore : byteOrderMark ∉ (Text.trim text).toList := by
    rw [Text.trim, String.toList_ofList]
    exact fun hmem => hmark (Text.mem_of_mem_trimChars hmem)
  have hunset : cleanMarks (Text.trim text) ≠ "" ∧ cleanMarks (Text.trim text) ∉ unsetValues ↔
      Text.trim text ≠ "" ∧ Text.trim text ∉ unsetValues := by
    simpa [not_or] using not_congr (cleanMarks_mem_unset_iff hcore)
  rw [← hunset]
  constructor
  · rintro ⟨hne, -, -, hmeant⟩
    exact ⟨hne, hmeant⟩
  · rintro ⟨hne, hmeant⟩
    exact ⟨hne, isTrimmed_cleanMarks_trim hmark, unmarked_cleanMarks _, hmeant⟩

/-- A cleaned value never has marks.  It is clean if and only if the steps of cleaning give the same
result in the opposite order.  A text without byte order marks fails only if it is blank or a
placeholder with blanks around it; so each value is clean whose text has neither those marks nor
blanks at its ends. -/
theorem cleaned_value_isClean_iff {raw : Json.Members} {key value : String}
    (h : clean? raw key = some value) :
    ∃ text, text? raw key = some text ∧ (∀ c ∈ value.toList, c ∉ marks) ∧
      (IsClean value ↔ cleanFromMarks? text = some value) ∧
      (byteOrderMark ∉ text.toList →
        (IsClean value ↔ Text.trim text ≠ "" ∧ Text.trim text ∉ unsetValues) ∧
        (Text.trim text = text → IsClean value)) := by
  obtain ⟨text, htext, hne, hmeant, rfl⟩ := clean?_eq_some_iff.1 h
  refine ⟨text, htext, unmarked_cleanMarks _, isClean_cleanMarks_iff text, fun hmark => ?_⟩
  have hclean := isClean_cleanMarks_iff_of_notMem hmark
  refine ⟨hclean, fun htrim => hclean.2 ?_⟩
  rw [htrim]
  exact ⟨hne, hmeant⟩

/-- A blank in front, a byte order mark behind. -/
def trademarkMembers : Json.Members :=
  [("BriefDescription", .string " Intel\u00ae Xeon\u2122 events\ufeff")]

theorem isClean_trademarkDescription :
    clean? trademarkMembers "BriefDescription" = some "Intel(R) Xeon(TM) events" ∧
      IsClean "Intel(R) Xeon(TM) events" := by
  have hvalue : clean? trademarkMembers "BriefDescription" = some "Intel(R) Xeon(TM) events" := by
    decide +kernel
  obtain ⟨text, htext, -, hclean, -⟩ := cleaned_value_isClean_iff hvalue
  cases htext
  exact ⟨hvalue, hclean.2 (by decide +kernel)⟩

/-- A placeholder, a blank at an end and an empty text come through. -/
theorem not_isClean_paddedValues :
    clean? [("CounterMask", .string " 0 ")] "CounterMask" = some "0" ∧ ¬ IsClean "0" ∧
      clean? [("CounterMask", .string "\ufeff 1")] "CounterMask" = some " 1" ∧ ¬ IsClean " 1" ∧
      clean? [("CounterMask", .string "  ")] "CounterMask" = some "" ∧ ¬ IsClean "" := by
  refine ⟨by decide +kernel, fun h => ?_, by decide +kernel, fun h => ?_, by decide +kernel,
    fun h => h.ne_empty rfl⟩
  · exact h.meant (by decide)
  · exact absurd (h.trimmed.head ' ' (by decide)) (by decide)

end Event

end TopdownMetrics

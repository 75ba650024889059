import TopdownMetrics.Proofs.RenderedWords
import TopdownMetrics.Proofs.SelfConsistency

/-!
# Words that pass as numbers

The lexer and the reference check decide in different ways whether a word is a number.  The
lexer wants a numeral from the first to the last character.  The check wants that only of plain
digits; of a number with a fraction, an exponent or the mark of a hexadecimal number it looks at
the start of the word.  So it lets all numbers pass, and with them every word that starts with
such a number.
-/

namespace TopdownMetrics.Formula

/-! ## Numerals behind their first digits -/

section

variable {digits rest : List Char}

theorem takeWhile_isDigit_append (hdigits : digits.all Char.isDigit = true)
    (hrest : ∀ c ∈ rest.head?, c.isDigit = false) :
    (digits ++ rest).takeWhile Char.isDigit = digits ∧
      (digits ++ rest).dropWhile Char.isDigit = rest := by
  rw [List.takeWhile_append_of_pos (List.all_eq_true.1 hdigits),
    List.dropWhile_append_of_pos (List.all_eq_true.1 hdigits)]
  cases rest with
  | nil => simp
  | cons c cs => simp [hrest c rfl]

/-- What the check wants behind the digits with which a word starts. -/
theorem looksNumeric_append (hdigits : digits.all Char.isDigit = true)
    (hrest : ∀ c ∈ rest.head?, c.isDigit = false) :
    looksNumeric (digits ++ rest) = true ↔
      (digits ≠ [] ∧ rest = []) ∨
        (∃ c cs, rest = '.' :: c :: cs ∧ c.isDigit = true) ∨
        (∃ c cs, digits = ['0'] ∧ rest = 'x' :: c :: cs ∧ isHexDigit c = true) ∨
        (∃ c cs, digits ≠ [] ∧ rest = 'e' :: c :: cs ∧ c.isDigit = true) := by
  obtain ⟨htake, hdrop⟩ := takeWhile_isDigit_append hdigits hrest
  unfold looksNumeric
  rw [htake, hdrop]
  dsimp only
  split <;> simp_all

theorem isDecimalNumeral_append (hdigits : digits.all Char.isDigit = true)
    (hrest : ∀ c ∈ rest.head?, c.isDigit = false) :
    isDecimalNumeral (digits ++ rest) = true ↔
      (∃ cs, rest = '.' :: cs ∧ cs.takeWhile Char.isDigit ≠ [] ∧
          isExponentPart (cs.dropWhile Char.isDigit) = true) ∨
        (digits ≠ [] ∧ isExponentPart rest = true) := by
  obtain ⟨htake, hdrop⟩ := takeWhile_isDigit_append hdigits hrest
  unfold isDecimalNumeral
  rw [htake, hdrop]
  dsimp only
  split
  · simp [isExponentPart]
  · rename_i hpoint
    have hno : ¬ ∃ cs, rest = '.' :: cs ∧ cs.takeWhile Char.isDigit ≠ [] ∧
        isExponentPart (cs.dropWhile Char.isDigit) = true := by
      rintro ⟨cs, hrest, -⟩
      exact hpoint cs hrest
    rw [or_iff_right hno]
    simp

end

theorem isHexNumeral_iff {cs : List Char} :
    isHexNumeral cs = true ↔
      ∃ d ds, cs = '0' :: 'x' :: d :: ds ∧ isHexDigit d = true ∧ ds.all isHexDigit = true := by
  unfold isHexNumeral
  split
  · rename_i ds
    cases ds <;> simp
  · rename_i hother
    simp only [Bool.false_eq_true, false_iff, not_exists, not_and]
    intro d ds hcs
    exact absurd hcs (hother _)

/-- A possible exponent is missing or starts with a digit behind its mark. -/
theorem isExponentPart_cases {cs : List Char} (h : isExponentPart cs = true) :
    cs = [] ∨ ∃ d ds, cs = 'e' :: d :: ds ∧ d.isDigit = true := by
  unfold isExponentPart at h
  split at h
  · exact .inl rfl
  · rename_i ds
    cases ds with
    | nil => simp at h
    | cons d ds => exact .inr ⟨d, ds, rfl, by simp_all⟩
  · cases h

theorem span_isDigit (cs : List Char) :
    ∃ digits rest, cs = digits ++ rest ∧ digits.all Char.isDigit = true ∧
      ∀ c ∈ rest.head?, c.isDigit = false := by
  refine ⟨cs.takeWhile Char.isDigit, cs.dropWhile Char.isDigit,
    List.takeWhile_append_dropWhile.symm, List.all_takeWhile, fun c hc => ?_⟩
  have hnot := List.head?_dropWhile_not Char.isDigit cs
  rw [Option.mem_def.1 hc] at hnot
  simpa using hnot

/-! ## Starts of words -/

/-- A number passes, and so does what starts with a number other than plain digits. -/
theorem looksNumeric_of_isNumeral {front behind : List Char} (h : isNumeral front = true)
    (hbehind : behind = [] ∨ front.all Char.isDigit = false) :
    looksNumeric (front ++ behind) = true := by
  rcases Bool.or_eq_true_iff.1 h with hhex | hdecimal
  · obtain ⟨d, ds, rfl, hd, -⟩ := isHexNumeral_iff.1 hhex
    have hsplit := @looksNumeric_append ['0'] ('x' :: d :: (ds ++ behind)) (by decide) (by simp)
    exact hsplit.2 (.inr (.inr (.inl ⟨d, ds ++ behind, rfl, rfl, hd⟩)))
  · obtain ⟨digits, rest, rfl, hdigits, hrest⟩ := span_isDigit front
    rcases (isDecimalNumeral_append hdigits hrest).1 hdecimal with
      ⟨cs, rfl, hfraction, -⟩ | ⟨hne, hexponent⟩
    · cases cs with
      | nil => simp at hfraction
      | cons c cs =>
        have hc : c.isDigit = true := by
          by_contra hnot
          simp [hnot] at hfraction
        rw [List.append_assoc]
        refine (looksNumeric_append hdigits (by simp)).2 ?_
        exact .inr (.inl ⟨c, cs ++ behind, rfl, hc⟩)
    · rcases isExponentPart_cases hexponent with rfl | ⟨d, ds, rfl, hd⟩
      · have hnil : behind = [] := by
          rcases hbehind with hnil | hother
          · exact hnil
          · simp [hdigits] at hother
        subst hnil
        simp only [List.append_nil]
        have hsplit := @looksNumeric_append digits [] hdigits (by simp)
        rw [List.append_nil] at hsplit
        exact hsplit.2 (.inl ⟨hne, rfl⟩)
      · rw [List.append_assoc]
        refine (looksNumeric_append hdigits (by simp)).2 ?_
        exact .inr (.inr (.inr ⟨d, ds ++ behind, hne, rfl, hd⟩))

/-- The check lets a word pass if and only if it starts with a number, and is nothing but this
number where the number consists of plain digits. -/
theorem looksNumeric_iff {word : List Char} :
    looksNumeric word = true ↔
      ∃ front behind, front ++ behind = word ∧ isNumeral front = true ∧
        (behind = [] ∨ front.all Char.isDigit = false) := by
  constructor
  · intro h
    obtain ⟨digits, rest, rfl, hdigits, hrest⟩ := span_isDigit word
    have hdecimal {cs : List Char} (hcs : ∀ c ∈ cs.head?, c.isDigit = false)
        (hnumeral : (∃ ds, cs = '.' :: ds ∧ ds.takeWhile Char.isDigit ≠ [] ∧
            isExponentPart (ds.dropWhile Char.isDigit) = true) ∨
          (digits ≠ [] ∧ isExponentPart cs = true)) : isNumeral (digits ++ cs) = true :=
      Bool.or_eq_true_iff.2 (.inr ((isDecimalNumeral_append hdigits hcs).2 hnumeral))
    rcases (looksNumeric_append hdigits hrest).1 h with
      ⟨hne, rfl⟩ | ⟨c, cs, rfl, hc⟩ | ⟨c, cs, rfl, rfl, hc⟩ | ⟨c, cs, hne, rfl, hc⟩
    · exact ⟨digits ++ [], [], List.append_nil _, hdecimal (by simp) (.inr ⟨hne, rfl⟩), .inl rfl⟩
    · refine ⟨digits ++ ['.', c], cs, by simp, ?_, .inr (by simp)⟩
      exact hdecimal (by simp) (.inl ⟨[c], rfl, by simp [hc], by simp [hc, isExponentPart]⟩)
    · refine ⟨['0', 'x', c], cs, rfl, ?_, .inr (by simp)⟩
      exact Bool.or_eq_true_iff.2 (.inl (isHexNumeral_iff.2 ⟨c, [], rfl, hc, rfl⟩))
    · refine ⟨digits ++ ['e', c], cs, by simp, ?_, .inr (by simp)⟩
      exact hdecimal (by simp) (.inr ⟨hne, by simp [isExponentPart, hc]⟩)
  · rintro ⟨front, behind, rfl, hnumeral, hbehind⟩
    exact looksNumeric_of_isNumeral hnumeral hbehind

/-! ## What the lexer makes of a word -/

def wordToken (word : String) : Token :=
  (reserved? .bare word.toList).getD (.symbol (.bare word))

theorem lexes_word {word : String} (hword : IsWord word.toList) :
    Lexes word.toList [wordToken word] := by
  have hread (offset : Nat) :
      wordReading offset .bare word.toList [] = .ok (wordToken word, []) := by
    unfold wordReading wordToken
    cases reserved? .bare word.toList with
    | some token => rfl
    | none => simp [takeModifiers, takeTerms, Symbol.bare]
  have hafter : takeWord [] = ([], []) := rfl
  have hlexes := Lexes.word hword hafter hread .nil
  simpa [Sigil.text] using hlexes

theorem wordToken_eq_num_iff {word : String} :
    wordToken word = .num word ↔ isNumeral word.toList = true := by
  unfold wordToken reserved?
  cases hnumeral : isNumeral word.toList with
  | true => simp
  | false =>
    unfold keyword?
    simp only [ne_eq, not_true_eq_false, if_false, Bool.false_eq_true, iff_false]
    split_ifs <;> simp

theorem isWordChar_of_isDigit {c : Char} (h : c.isDigit = true) : isWordChar c = true := by
  simp [isWordChar, Char.isAlphanum, h]

theorem isWordChar_of_isAlpha {c : Char} (h : c.isAlpha = true) : isWordChar c = true := by
  have halphanum : c.isAlphanum = true := Bool.or_eq_true_iff.2 (.inl h)
  simp [isWordChar, halphanum]

theorem isWordChar_of_isHexDigit {c : Char} (h : isHexDigit c = true) : isWordChar c = true := by
  simp only [isHexDigit, Bool.or_eq_true, Bool.and_eq_true, decide_eq_true_eq] at h
  rcases h with (hdigit | ⟨hlow, hhigh⟩) | ⟨hlow, hhigh⟩
  · exact isWordChar_of_isDigit hdigit
  · have hlast : c ≤ 'z' := Char.le_trans hhigh (show 'f' ≤ 'z' by decide)
    have hlower : c.isLower = true :=
      Bool.and_eq_true_iff.2 ⟨decide_eq_true hlow, decide_eq_true hlast⟩
    exact isWordChar_of_isAlpha (Bool.or_eq_true_iff.2 (.inr hlower))
  · have hlast : c ≤ 'Z' := Char.le_trans hhigh (show 'F' ≤ 'Z' by decide)
    have hupper : c.isUpper = true := decide_eq_true ⟨hlow, hlast⟩
    exact isWordChar_of_isAlpha (Bool.or_eq_true_iff.2 (.inl hupper))

theorem wordChars_of_forall {cs : List Char} (h : ∀ c ∈ cs, isWordChar c = true) :
    WordChars cs := by
  induction cs with
  | nil => exact .nil
  | cons c cs ih =>
    obtain ⟨hc, hcs⟩ := List.forall_mem_cons.1 h
    exact .char hc (ih hcs)

theorem isWordChar_of_isExponentPart {cs : List Char} (h : isExponentPart cs = true) :
    ∀ c ∈ cs, isWordChar c = true := by
  unfold isExponentPart at h
  split at h
  · exact List.forall_mem_nil _
  · obtain ⟨-, hdigits⟩ := Bool.and_eq_true_iff.1 h
    exact List.forall_mem_cons.2
      ⟨by decide, fun c hc => isWordChar_of_isDigit (List.all_eq_true.1 hdigits c hc)⟩
  · cases h

theorem isWord_of_isNumeral {cs : List Char} (h : isNumeral cs = true) : IsWord cs := by
  have hne : cs ≠ [] := by
    rintro rfl
    cases h
  refine ⟨hne, takeWord_eq_self_iff.2 (wordChars_of_forall ?_)⟩
  rcases Bool.or_eq_true_iff.1 h with hhex | hdecimal
  · obtain ⟨d, ds, rfl, hd, hds⟩ := isHexNumeral_iff.1 hhex
    have hdigits : ∀ c ∈ d :: ds, isHexDigit c = true :=
      List.forall_mem_cons.2 ⟨hd, List.all_eq_true.1 hds⟩
    exact List.forall_mem_cons.2 ⟨by decide, List.forall_mem_cons.2
      ⟨by decide, fun c hc => isWordChar_of_isHexDigit (hdigits c hc)⟩⟩
  · obtain ⟨digits, rest, rfl, hdigits, hrest⟩ := span_isDigit cs
    have hfront : ∀ c ∈ digits, isWordChar c = true := fun c hc =>
      isWordChar_of_isDigit (List.all_eq_true.1 hdigits c hc)
    refine List.forall_mem_append.2 ⟨hfront, ?_⟩
    rcases (isDecimalNumeral_append hdigits hrest).1 hdecimal with
      ⟨fraction, rfl, -, hexponent⟩ | ⟨-, hexponent⟩
    · refine List.forall_mem_cons.2 ⟨by decide, ?_⟩
      rw [← List.takeWhile_append_dropWhile (p := Char.isDigit) (l := fraction)]
      exact List.forall_mem_append.2
        ⟨fun c hc => isWordChar_of_isDigit (List.mem_takeWhile_imp hc),
          isWordChar_of_isExponentPart hexponent⟩
    · exact isWordChar_of_isExponentPart hexponent

/-- The lexer reads the text as a single number. -/
def ReadsAsNumber (text : String) : Prop :=
  ∃ placed, tokenize text = .ok placed ∧ placed.map (·.token) = [.num text]

theorem readsAsNumber_iff {text : String} :
    ReadsAsNumber text ↔ isNumeral text.toList = true := by
  constructor
  · rintro ⟨placed, hscan, htokens⟩
    have hmem : Token.num text ∈ placed.map (·.token) := htokens ▸ List.mem_singleton_self _
    obtain ⟨t, ht, htoken⟩ := List.mem_map.1 hmem
    have hspelled := spelled_of_scan hscan t ht
    rw [htoken] at hspelled
    exact hspelled.2
  · intro hnumeral
    obtain ⟨placed, hscan, htokens⟩ := lexes_word (isWord_of_isNumeral hnumeral) 0
    exact ⟨placed, hscan, wordToken_eq_num_iff.2 hnumeral ▸ htokens⟩

/-! ## The check on a word -/

theorem unresolvedWords_word_eq_nil_iff {rules : Rules} {known : String → Bool} {word : String}
    (hword : IsWord word.toList) :
    unresolvedWords rules known word = [] ↔
      looksNumeric word.toList = true ∨ rules.isKeyword word = true ∨ known word = true := by
  rw [unresolvedWords_eq_nil_iff, hword.wordsOf_eq, List.forall_mem_singleton,
    String.ofList_toList]

/-- A word that is neither a keyword nor known passes the check if and only if the lexer reads it
as a number, or it starts with a number that has a fraction, an exponent or the mark of a
hexadecimal number. -/
theorem unknown_word_passes_iff {rules : Rules} {known : String → Bool} {word : String}
    (hword : IsWord word.toList) (hkeyword : rules.isKeyword word = false)
    (hknown : known word = false) :
    unresolvedWords rules known word = [] ↔
      ReadsAsNumber word ∨
        ∃ front behind, word = front ++ behind ∧ ReadsAsNumber front ∧
          front.toList.all Char.isDigit = false := by
  rw [unresolvedWords_word_eq_nil_iff hword, hkeyword, hknown, looksNumeric_iff]
  simp only [Bool.false_eq_true, or_false, readsAsNumber_iff]
  constructor
  · rintro ⟨front, behind, htext, hnumeral, rfl | hother⟩
    · rw [List.append_nil] at htext
      exact .inl (htext ▸ hnumeral)
    · refine .inr ⟨String.ofList front, String.ofList behind, ?_, by simpa using hnumeral,
        by simpa using hother⟩
      rw [← String.ofList_append, htext, String.ofList_toList]
  · rintro (hnumeral | ⟨front, behind, rfl, hnumeral, hother⟩)
    · exact ⟨word.toList, [], List.append_nil _, hnumeral, .inl rfl⟩
    · exact ⟨front.toList, behind.toList, String.toList_append.symm, hnumeral, .inr hother⟩

theorem unit_word_passes :
    unresolvedWords default (fun _ => false) "2e9Hz" = [] ∧ ReadsAsNumber "2e9" ∧
      "2e9".toList.all Char.isDigit = false := by
  have hnumber : ReadsAsNumber "2e9" := readsAsNumber_iff.2 (by decide)
  have hpasses := @unknown_word_passes_iff default (fun _ => false) "2e9Hz" (by decide) rfl rfl
  exact ⟨hpasses.2 (.inr ⟨"2e9", "Hz", rfl, hnumber, by decide⟩), hnumber, by decide⟩

/-- A name that nothing knows passes as a number, although the lexer reads it as a name. -/
theorem hexadecimal_name_passes :
    unresolvedWords default (fun _ => false) "0x1f_STALLS" = [] ∧
      tokenize "0x1f_STALLS" = .ok [⟨.symbol (.bare "0x1f_STALLS"), 0⟩] ∧
      ¬ (unresolvedWords default (fun _ => false) "0x1f_STALLS" = [] ↔
        ReadsAsNumber "0x1f_STALLS") := by
  have hpasses : unresolvedWords default (fun _ => false) "0x1f_STALLS" = [] :=
    (unresolvedWords_word_eq_nil_iff (by decide)).2 (.inl (by decide))
  have hname : ¬ ReadsAsNumber "0x1f_STALLS" := fun h => absurd (readsAsNumber_iff.1 h) (by decide)
  exact ⟨hpasses, by decide +kernel, fun h => hname (h.1 hpasses)⟩

end TopdownMetrics.Formula

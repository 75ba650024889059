import TopdownMetrics.Formula.Lexer
import Mathlib.Data.List.TakeWhile
import Mathlib.Tactic

/-!
# Spelled tokens are read back

A token is `Spelled` if its text is one that the lexer reads as this token.  All
tokens of a text are spelled, and conversely a spelled token is read from its own
text whatever follows, as long as it does not run into it.
-/

namespace TopdownMetrics.Formula

/-! ## Words -/

/-- The characters of words, the pair `\-` among them. -/
inductive WordChars : List Char → Prop where
  | nil : WordChars []
  | char {c : Char} {cs : List Char} (hc : isWordChar c = true) (hcs : WordChars cs) :
      WordChars (c :: cs)
  | hyphen {cs : List Char} (hcs : WordChars cs) : WordChars ('\\' :: '-' :: cs)

theorem takeWord_char {c : Char} (hc : isWordChar c = true) (cs : List Char) :
    takeWord (c :: cs) = (c :: (takeWord cs).1, (takeWord cs).2) := by
  cases cs with
  | nil => simp [takeWord, hc]
  | cons d cs => rw [takeWord, if_pos hc]

theorem takeWord_hyphen (cs : List Char) :
    takeWord ('\\' :: '-' :: cs) = ('\\' :: '-' :: (takeWord cs).1, (takeWord cs).2) := by
  rw [takeWord, if_neg (by decide), if_pos ⟨rfl, rfl⟩]

theorem takeWord_of_not {c : Char} (hc : isWordChar c = false) (hne : c ≠ '\\')
    (cs : List Char) : takeWord (c :: cs) = ([], c :: cs) := by
  cases cs with
  | nil => simp [takeWord, hc]
  | cons d cs => rw [takeWord, if_neg (by simp [hc]), if_neg (by simp [hne])]

/-- A word is taken off a text in which no further word follows directly. -/
theorem WordChars.takeWord_append {word rest : List Char} (hword : WordChars word)
    (hrest : takeWord rest = ([], rest)) : takeWord (word ++ rest) = (word, rest) := by
  induction hword with
  | nil => exact hrest
  | char hc _ ih => rw [List.cons_append, takeWord_char hc, ih]
  | hyphen _ ih => rw [List.cons_append, List.cons_append, takeWord_hyphen, ih]

theorem wordChars_takeWord (cs : List Char) : WordChars (takeWord cs).1 := by
  fun_induction takeWord cs with
  | case1 => exact .nil
  | case2 c hc => exact .char hc .nil
  | case3 => exact .nil
  | case4 c d rest hc word rest' heq ih =>
    rw [heq] at ih
    exact .char hc ih
  | case5 c d rest hc hpair word rest' heq ih =>
    obtain ⟨rfl, rfl⟩ := hpair
    rw [heq] at ih
    exact .hyphen ih
  | case6 => exact .nil

theorem takeWord_eq_self_iff {cs : List Char} : takeWord cs = (cs, []) ↔ WordChars cs := by
  constructor
  · intro h
    have hword := wordChars_takeWord cs
    rwa [h] at hword
  · intro h
    have hnil : takeWord [] = ([], []) := rfl
    simpa using h.takeWord_append hnil

/-- The lexer reads the characters as one word. -/
def IsWord (cs : List Char) : Prop :=
  cs ≠ [] ∧ takeWord cs = (cs, [])
  deriving Decidable

/-- The word can stand for a name: it is neither a number nor reserved. -/
def IsName (cs : List Char) : Prop :=
  IsWord cs ∧ isNumeral cs = false ∧ keyword? cs = none
  deriving Decidable

theorem IsWord.wordChars {cs : List Char} (h : IsWord cs) : WordChars cs :=
  takeWord_eq_self_iff.1 h.2

/-! ## What ends a token -/

/-- The text starts with nothing that a word or the qualifiers behind it could take. -/
def EndsToken : List Char → Prop
  | [] => True
  | c :: _ => c = ' ' ∨ c = '(' ∨ c = ')' ∨ c = ','

theorem EndsToken.takeWord_eq {rest : List Char} (h : EndsToken rest) :
    takeWord rest = ([], rest) := by
  match rest with
  | [] => rfl
  | c :: cs =>
    rcases h with rfl | rfl | rfl | rfl <;> exact takeWord_of_not (by decide) (by decide) cs

theorem EndsToken.takeModifiers_eq {rest : List Char} (h : EndsToken rest) :
    takeModifiers rest = ([], rest) := by
  match rest with
  | [] => simp [takeModifiers]
  | c :: cs =>
    rcases h with rfl | rfl | rfl | rfl <;> simp [takeModifiers]

theorem EndsToken.takeTerms_eq {rest : List Char} (h : EndsToken rest) :
    takeTerms rest = .ok (none, rest) := by
  match rest with
  | [] => rfl
  | c :: cs =>
    rcases h with rfl | rfl | rfl | rfl <;> rfl

/-! ## Spelled tokens -/

/-- The characters are a modifier. -/
def IsModifier (cs : List Char) : Prop :=
  cs ≠ [] ∧ ∀ c ∈ cs, isModifierChar c = true
  deriving Decidable

/-- The text of the reference is read as this reference. -/
structure Symbol.Spelled (s : Symbol) : Prop where
  word : IsWord s.name.toList
  /-- Only a mark makes a name of a number or a reserved word. -/
  name : s.sigil = .bare → IsName s.name.toList
  modifiers : ∀ m ∈ s.modifiers, IsModifier m.toList
  terms : ∀ terms ∈ s.terms, '@' ∉ terms.toList

/-- The text of the token is read as this token. -/
def Token.Spelled : Token → Prop
  | .num text => IsWord text.toList ∧ isNumeral text.toList = true
  | .symbol s => s.Spelled
  | _ => True

instance : DecidablePred Symbol.Spelled := fun s =>
  decidable_of_iff (IsWord s.name.toList ∧ (s.sigil = .bare → IsName s.name.toList) ∧
      (∀ m ∈ s.modifiers, IsModifier m.toList) ∧ ∀ terms ∈ s.terms, '@' ∉ terms.toList)
    ⟨fun ⟨word, name, modifiers, terms⟩ => ⟨word, name, modifiers, terms⟩,
      fun h => ⟨h.word, h.name, h.modifiers, h.terms⟩⟩

instance : DecidablePred Token.Spelled
  | .num text => inferInstanceAs (Decidable (IsWord text.toList ∧ isNumeral text.toList = true))
  | .symbol s => inferInstanceAs (Decidable s.Spelled)
  | .operator _ | .leftParen | .rightParen | .comma | .ifWord | .elseWord => isTrue trivial

theorem Symbol.spelled_bare {name : String} (h : IsName name.toList) :
    (Symbol.bare name).Spelled :=
  ⟨h.1, fun _ => h, by simp [Symbol.bare], by simp [Symbol.bare]⟩

/-! ## The qualifiers of a symbol -/

/-- A modifier is taken in front of anything that cannot lengthen it. -/
theorem takeModifiers_cons {m rest : List Char} (hm : IsModifier m)
    (hrest : ∀ c ∈ rest.head?, isModifierChar c = false) :
    takeModifiers (':' :: (m ++ rest)) =
      (m :: (takeModifiers rest).1, (takeModifiers rest).2) := by
  obtain ⟨hne, hall⟩ := hm
  obtain ⟨c, cs, rfl⟩ := List.exists_cons_of_ne_nil hne
  have htake : rest.takeWhile isModifierChar = [] := by
    cases rest <;> simp_all
  have hdrop : rest.dropWhile isModifierChar = rest := by
    cases rest <;> simp_all
  have hcs : ∀ d ∈ cs, isModifierChar d = true := fun d hd =>
    hall d (List.mem_cons_of_mem _ hd)
  rw [List.cons_append, takeModifiers, if_pos (hall c List.mem_cons_self),
    List.takeWhile_append_of_pos hcs, List.dropWhile_append_of_pos hcs, htake, hdrop,
    List.append_nil]

theorem takeModifiers_flatMap_append {modifiers : List (List Char)}
    (hmodifiers : ∀ m ∈ modifiers, IsModifier m) {rest : List Char}
    (hrest : takeModifiers rest = ([], rest))
    (hhead : ∀ c ∈ rest.head?, isModifierChar c = false) :
    takeModifiers (modifiers.flatMap (':' :: ·) ++ rest) = (modifiers, rest) := by
  induction modifiers with
  | nil => exact hrest
  | cons m modifiers ih =>
    have htail := ih fun m' hm' => hmodifiers m' (List.mem_cons_of_mem _ hm')
    have hcolon : ∀ c ∈ (modifiers.flatMap (':' :: ·) ++ rest).head?,
        isModifierChar c = false := by
      cases modifiers with
      | nil => exact hhead
      | cons => simp; decide
    rw [List.flatMap_cons, List.append_assoc, List.cons_append,
      takeModifiers_cons (hmodifiers m List.mem_cons_self) hcolon, htail]

theorem isModifier_of_mem_takeModifiers {cs m : List Char}
    (h : m ∈ (takeModifiers cs).1) : IsModifier m := by
  fun_induction takeModifiers cs with
  | case1 c rest hc modifiers rest' heq ih =>
    rw [heq] at ih
    rcases List.mem_cons.1 h with rfl | h
    · refine ⟨by simp, fun d hd => ?_⟩
      rcases List.mem_cons.1 hd with rfl | hd
      · exact hc
      · exact List.mem_takeWhile_imp hd
    · exact ih h
  | case2 => cases h
  | case3 => cases h

theorem takeTerms_termsSource_append {group : Option (List Char)} {rest : List Char}
    (hgroup : ∀ terms ∈ group, '@' ∉ terms) (hrest : takeTerms rest = .ok (none, rest)) :
    takeTerms (termsSource group ++ rest) = .ok (group, rest) := by
  cases group with
  | none => exact hrest
  | some terms =>
    have hterms : ∀ c ∈ terms, decide (c ≠ '@') = true := by
      intro c hc
      have hne : c ≠ '@' := by
        rintro rfl
        exact hgroup terms rfl hc
      simpa using hne
    have htext : termsSource (some terms) ++ rest = '@' :: (terms ++ '@' :: rest) := by
      simp [termsSource]
    rw [htext, takeTerms, List.dropWhile_append_of_pos hterms,
      List.takeWhile_append_of_pos hterms]
    simp

theorem not_mem_of_takeTerms {cs rest terms : List Char}
    (h : takeTerms cs = .ok (some terms, rest)) : '@' ∉ terms := by
  unfold takeTerms at h
  split at h
  · split at h
    · cases h
    · cases h
      intro hmem
      simpa using List.mem_takeWhile_imp hmem
  · cases h

/-! ## Words as tokens -/

/-- The token of an unmarked word that is no name. -/
def reserved? (sigil : Sigil) (word : List Char) : Option Token :=
  if sigil ≠ .bare then none
  else if isNumeral word then some (.num (String.ofList word))
  else keyword? word

theorem reserved?_eq_none_iff {sigil : Sigil} {word : List Char} (hword : IsWord word) :
    reserved? sigil word = none ↔ (sigil = .bare → IsName word) := by
  unfold reserved?
  split_ifs with hsigil hnumeral
  · simp [hsigil]
  · simp_all [IsName]
  · simp_all [IsName]

/-- What a lexeme reads and what it leaves. -/
def Lexeme.reading {text : List Char} (l : Lexeme text) : Token × List Char :=
  (l.token, l.rest)

/-- The reading of the word `word` with the mark `sigil`, in front of `afterWord`. -/
def wordReading (offset : Nat) (sigil : Sigil) (word afterWord : List Char) :
    Except SyntaxError (Token × List Char) :=
  match reserved? sigil word with
  | some token => .ok (token, afterWord)
  | none =>
    let (modifiers, afterModifiers) := takeModifiers afterWord
    match takeTerms afterModifiers with
    | .error () =>
      .error (.unterminatedTerms (offset +
        byteLength (sigil.text.toList ++ (word ++ modifiers.flatMap (':' :: ·)))))
    | .ok (group, rest) =>
      .ok (.symbol ⟨sigil, String.ofList word, modifiers.map String.ofList,
        group.map String.ofList⟩, rest)

theorem wordLexeme_map_reading {text afterSigil afterWord word : List Char} {sigil : Sigil}
    (hsigil : takeSigil text = (sigil, afterSigil))
    (hword : takeWord afterSigil = (word, afterWord)) (hne : word ≠ [])
    (offset : Nat) (first : Char) :
    (wordLexeme offset first text).map Lexeme.reading =
      wordReading offset sigil word afterWord := by
  unfold wordLexeme wordReading
  split
  rename_i sigil' afterSigil' hs
  cases hsigil.symm.trans hs
  split
  · rename_i hw
    cases hword.symm.trans hw
    exact absurd rfl hne
  · rename_i c cs afterWord' hw
    cases hword.symm.trans hw
    simp only [reserved?]
    generalize (if sigil ≠ .bare then none
      else if isNumeral (c :: cs) then some (.num (String.ofList (c :: cs)))
      else keyword? (c :: cs) : Option Token) = reserved
    cases reserved with
    | some token => rfl
    | none =>
      dsimp only
      split <;> rename_i hterms <;> simp only [hterms] <;> rfl

theorem exists_wordLexeme_eq_error {text afterSigil afterWord : List Char} {sigil : Sigil}
    (hsigil : takeSigil text = (sigil, afterSigil))
    (hword : takeWord afterSigil = ([], afterWord)) (offset : Nat) (first : Char) :
    ∃ cause, wordLexeme offset first text = .error cause := by
  unfold wordLexeme
  split
  rename_i sigil' afterSigil' hs
  cases hsigil.symm.trans hs
  split
  · exact ⟨_, rfl⟩
  · rename_i hw
    cases hword.symm.trans hw

theorem spelled_of_wordReading {offset : Nat} {sigil : Sigil} {word afterWord rest : List Char}
    {token : Token} (hword : IsWord word)
    (h : wordReading offset sigil word afterWord = .ok (token, rest)) : token.Spelled := by
  unfold wordReading at h
  split at h
  · rename_i hreserved
    cases h
    unfold reserved? at hreserved
    split at hreserved
    · cases hreserved
    · split at hreserved
      · rename_i hnumeral
        cases hreserved
        exact ⟨by simpa using hword, by simpa using hnumeral⟩
      · unfold keyword? at hreserved
        split_ifs at hreserved <;> cases hreserved <;> trivial
  · rename_i hreserved
    simp only at h
    split at h
    · cases h
    · rename_i group rest' hterms
      cases h
      refine ⟨by simpa using hword, ?_, ?_, ?_⟩
      · simpa using (reserved?_eq_none_iff hword).1 hreserved
      · intro m hm
        obtain ⟨m', hm', rfl⟩ := List.mem_map.1 hm
        simpa using isModifier_of_mem_takeModifiers hm'
      · intro terms hmem
        obtain ⟨terms, rfl, rfl⟩ := Option.map_eq_some_iff.1 hmem
        simpa using not_mem_of_takeTerms hterms

/-- The qualifiers of a spelled symbol are read from their text. -/
theorem Symbol.Spelled.wordReading_eq {s : Symbol} (hs : s.Spelled) {rest : List Char}
    (hrest : EndsToken rest) (offset : Nat) :
    wordReading offset s.sigil s.name.toList
      ((s.modifiers.map String.toList).flatMap (':' :: ·) ++
        (termsSource (s.terms.map String.toList) ++ rest)) = .ok (.symbol s, rest) := by
  have hreserved : reserved? s.sigil s.name.toList = none :=
    (reserved?_eq_none_iff hs.word).2 hs.name
  have hgroup : ∀ terms ∈ s.terms.map String.toList, '@' ∉ terms := by
    intro terms hterms
    obtain ⟨terms', hmem, rfl⟩ := Option.map_eq_some_iff.1 hterms
    exact hs.terms terms' hmem
  have hmodifiers : ∀ m ∈ s.modifiers.map String.toList, IsModifier m := by
    intro m hm
    obtain ⟨m', hm', rfl⟩ := List.mem_map.1 hm
    exact hs.modifiers m' hm'
  have hnone : takeModifiers (termsSource (s.terms.map String.toList) ++ rest) =
      ([], termsSource (s.terms.map String.toList) ++ rest) := by
    cases s.terms with
    | none => exact hrest.takeModifiers_eq
    | some terms => simp [termsSource, takeModifiers]
  have hhead : ∀ c ∈ (termsSource (s.terms.map String.toList) ++ rest).head?,
      isModifierChar c = false := by
    cases s.terms with
    | none =>
      cases rest with
      | nil => simp [termsSource]
      | cons c cs =>
        rcases hrest with rfl | rfl | rfl | rfl <;> simp [termsSource] <;> decide
    | some terms =>
      simp only [Option.map_some, termsSource, List.cons_append, List.head?_cons,
        Option.mem_some_iff]
      rintro c rfl
      decide
  rw [wordReading, hreserved, takeModifiers_flatMap_append hmodifiers hnone hhead]
  simp only [takeTerms_termsSource_append hgroup hrest.takeTerms_eq]
  simp [Function.comp_def]

/-! ## Tokens at the start of a text -/

/-- A character with which numbers, reserved words and symbols start. -/
def startsWord (c : Char) : Bool :=
  isWordChar c || c == '\\' || c == '#'

theorem isBlank_eq_false_of_startsWord {c : Char} (h : startsWord c = true) :
    isBlank c = false := by
  cases hblank : isBlank c with
  | false => rfl
  | true =>
    simp only [isBlank, Bool.or_eq_true, beq_iff_eq] at hblank
    rcases hblank with ((rfl | rfl) | rfl) | rfl <;> exact absurd h (by decide)

theorem punctuation?_eq_none_of_startsWord {text : List Char}
    (h : ∀ c ∈ text.head?, startsWord c = true) : punctuation? text = none := by
  fun_cases punctuation? text
  case case17 => rw [punctuation?] <;> assumption
  all_goals exact absurd (h _ rfl) (by decide)

theorem IsWord.exists_startsWord {word : List Char} (h : IsWord word) :
    ∃ c cs, word = c :: cs ∧ startsWord c = true ∧ c ≠ '#' := by
  cases h.wordChars with
  | nil => exact absurd rfl h.1
  | char hc _ =>
    refine ⟨_, _, rfl, by simp [startsWord, hc], ?_⟩
    rintro rfl
    exact absurd hc (by decide)
  | hyphen _ => exact ⟨_, _, rfl, by decide, by decide⟩

theorem takeSigil_append_of_isWord {word : List Char} (h : IsWord word) (sigil : Sigil)
    (rest : List Char) :
    takeSigil (sigil.text.toList ++ (word ++ rest)) = (sigil, word ++ rest) := by
  obtain ⟨c, cs, rfl, hc, hne⟩ := h.exists_startsWord
  have hquestion : c ≠ '?' := by
    rintro rfl
    exact absurd hc (by decide)
  cases sigil <;> simp [Sigil.text, takeSigil, hne, hquestion]

theorem IsWord.exists_startsWord_of_sigil {word : List Char} (h : IsWord word) (sigil : Sigil)
    (rest : List Char) :
    ∃ c cs, sigil.text.toList ++ (word ++ rest) = c :: cs ∧ startsWord c = true := by
  obtain ⟨c, cs, rfl, hc, -⟩ := h.exists_startsWord
  cases sigil with
  | bare => exact ⟨c, cs ++ rest, rfl, hc⟩
  | _ => exact ⟨'#', _, rfl, by decide⟩

theorem lexeme_map_reading_of_word {word afterWord : List Char} {sigil : Sigil}
    (hword : IsWord word) (hafter : takeWord afterWord = ([], afterWord)) (offset : Nat)
    (first : Char) :
    (lexeme offset first (sigil.text.toList ++ (word ++ afterWord))).map Lexeme.reading =
      wordReading offset sigil word afterWord := by
  have hnone : punctuation? (sigil.text.toList ++ (word ++ afterWord)) = none := by
    obtain ⟨c, cs, htext, hc⟩ := hword.exists_startsWord_of_sigil sigil afterWord
    rw [htext]
    exact punctuation?_eq_none_of_startsWord (by simpa using hc)
  rw [lexeme, hnone]
  exact wordLexeme_map_reading (takeSigil_append_of_isWord hword sigil afterWord)
    (hword.wordChars.takeWord_append hafter) hword.1 offset first

/-! ## Scanning -/

/-- Wherever it begins, the text is scanned as these tokens. -/
def Lexes (text : List Char) (tokens : List Token) : Prop :=
  ∀ offset, ∃ placed, scan offset text = .ok placed ∧ placed.map (·.token) = tokens

theorem Lexes.nil : Lexes [] [] := by
  intro offset
  exact ⟨[], by rw [scan], rfl⟩

theorem Lexes.blank {c : Char} {text : List Char} {tokens : List Token}
    (hc : isBlank c = true) (h : Lexes text tokens) : Lexes (c :: text) tokens := by
  intro offset
  rw [scan, if_pos hc]
  exact h _

theorem Lexes.token {c : Char} {cs rest : List Char} {token : Token} {tokens : List Token}
    (hc : isBlank c = false)
    (hread : ∀ offset, (lexeme offset c (c :: cs)).map Lexeme.reading = .ok (token, rest))
    (h : Lexes rest tokens) : Lexes (c :: cs) (token :: tokens) := by
  intro offset
  cases hl : lexeme offset c (c :: cs) with
  | error cause =>
    have hmap := hread offset
    rw [hl] at hmap
    cases hmap
  | ok l =>
    have hmap := hread offset
    rw [hl] at hmap
    cases hmap
    obtain ⟨placed, hscan, htokens⟩ := h (offset + byteLength l.source)
    refine ⟨⟨l.token, offset⟩ :: placed, ?_, by simp [htokens]⟩
    rw [scan, if_neg (by simp [hc]), hl]
    simp only [hscan]

theorem spelled_of_punctuation? {text : List Char} {l : Lexeme text}
    (h : punctuation? text = some l) : l.token.Spelled := by
  -- `rw` picks the matching row, whose side conditions are the rows before it.
  fun_cases punctuation? text
  all_goals
    rw [punctuation?] at h
    · cases h <;> trivial
    all_goals assumption

theorem spelled_of_wordLexeme {offset : Nat} {first : Char} {text : List Char}
    {l : Lexeme text} (h : wordLexeme offset first text = .ok l) : l.token.Spelled := by
  rcases hsigil : takeSigil text with ⟨sigil, afterSigil⟩
  rcases hword : takeWord afterSigil with ⟨word, afterWord⟩
  by_cases hne : word = []
  · subst hne
    obtain ⟨cause, hcause⟩ := exists_wordLexeme_eq_error hsigil hword offset first
    rw [hcause] at h
    cases h
  · have hchars := wordChars_takeWord afterSigil
    rw [hword] at hchars
    have hreading := wordLexeme_map_reading hsigil hword hne offset first
    rw [h] at hreading
    exact spelled_of_wordReading ⟨hne, takeWord_eq_self_iff.2 hchars⟩ hreading.symm

theorem spelled_of_scan {offset : Nat} {text : List Char} {placed : List PlacedToken}
    (h : scan offset text = .ok placed) : ∀ t ∈ placed, t.token.Spelled := by
  fun_induction scan offset text generalizing placed with
  | case1 =>
    cases h
    simp
  | case2 offset c cs hc ih => exact ih h
  | case3 => cases h
  | case4 => cases h
  | case5 offset c cs hc l hl tokens hscan ih =>
    cases h
    intro t ht
    rcases List.mem_cons.1 ht with rfl | ht
    · simp only
      unfold lexeme at hl
      split at hl
      · rename_i l' hpunctuation
        cases hl
        exact spelled_of_punctuation? hpunctuation
      · exact spelled_of_wordLexeme hl
    · exact ih hscan t ht

end TopdownMetrics.Formula

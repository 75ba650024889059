import TopdownMetrics.Proofs.Rendering
import TopdownMetrics.Proofs.TrailingElse

/-!
# The spans of tokens

Nothing of a text is lost between its tokens.  Each of them is read from a span of characters that
is its own text, but for the two operators that can be written as words, and between the spans there
is nothing but blanks.  The offset of a token counts the bytes in front of its span, so that offsets
grow from token to token and never point inside a character.
-/

namespace TopdownMetrics.Formula

/-! ## What stands at the start of a text -/

/-- Everything that can be read at the start of a text: punctuation, a word with what belongs to it,
or neither. -/
inductive Begins (offset : Nat) (first : Char) (text : List Char) :
    Except SyntaxError (Token × List Char) → Prop
  | punctuation {l : Lexeme text} (h : punctuation? text = some l) :
      Begins offset first text (.ok (l.token, l.rest))
  /-- Behind the mark, if there is one, no word follows. -/
  | wordless {sigil : Sigil} {rest : List Char} (hnone : punctuation? text = none)
      (hsigil : takeSigil text = (sigil, rest)) (hrest : takeWord rest = ([], rest)) :
      Begins offset first text
        (.error (.unexpectedChar (rest.head?.getD first) (offset + sigil.text.utf8ByteSize)))
  | reserved {word rest : List Char} {t : Token} (hword : IsWord word)
      (hrest : takeWord rest = ([], rest)) (htext : word ++ rest = text)
      (ht : reserved? .bare word = some t) : Begins offset first text (.ok (t, rest))
  | symbol {sigil : Sigil} {word behind behind' rest : List Char} {modifiers : List (List Char)}
      {group : Option (List Char)} (hword : IsWord word) (hbehind : takeWord behind = ([], behind))
      (htext : sigil.text.toList ++ (word ++ behind) = text) (hname : reserved? sigil word = none)
      (hmodifiers : takeModifiers behind = (modifiers, behind'))
      (hterms : takeTerms behind' = .ok (group, rest)) :
      Begins offset first text (.ok (.symbol ⟨sigil, String.ofList word,
        modifiers.map String.ofList, group.map String.ofList⟩, rest))
  /-- Nothing closes the term group of the symbol. -/
  | unterminated {sigil : Sigil} {word behind behind' : List Char} {modifiers : List (List Char)}
      (hword : IsWord word) (hbehind : takeWord behind = ([], behind))
      (htext : sigil.text.toList ++ (word ++ behind) = text) (hname : reserved? sigil word = none)
      (hmodifiers : takeModifiers behind = (modifiers, behind'))
      (hterms : takeTerms behind' = .error ()) :
      Begins offset first text (.error (.unterminatedTerms
        (offset + byteLength (sigil.text.toList ++ (word ++ modifiers.flatMap (':' :: ·))))))

variable {offset : Nat} {first : Char} {text rest : List Char} {t : Token}

theorem wordLexeme_eq_error {sigil : Sigil} {afterSigil afterWord : List Char}
    (hsigil : takeSigil text = (sigil, afterSigil)) (hword : takeWord afterSigil = ([], afterWord))
    (offset : Nat) (first : Char) :
    wordLexeme offset first text =
      .error (.unexpectedChar (afterSigil.head?.getD first)
        (offset + sigil.text.utf8ByteSize)) := by
  unfold wordLexeme
  split
  rename_i hs
  cases hsigil.symm.trans hs
  split
  · rfl
  · rename_i hw
    cases hword.symm.trans hw

theorem reserved?_eq_some_of_sigil {sigil : Sigil} {word : List Char}
    (h : reserved? sigil word = some t) : sigil = .bare := by
  unfold reserved? at h
  split_ifs at h with hsigil
  all_goals exact not_not.1 hsigil

/-- A word at the start of a text, with what is read behind it. -/
theorem begins_of_wordReading {sigil : Sigil} {word behind : List Char} (hword : IsWord word)
    (hbehind : takeWord behind = ([], behind))
    (htext : sigil.text.toList ++ (word ++ behind) = text) (offset : Nat) (first : Char) :
    Begins offset first text (wordReading offset sigil word behind) := by
  unfold wordReading
  cases hreserved : reserved? sigil word with
  | some t =>
    obtain rfl := reserved?_eq_some_of_sigil hreserved
    exact .reserved hword hbehind (by simpa [Sigil.text] using htext) hreserved
  | none =>
    dsimp only
    cases hterms : takeTerms (takeModifiers behind).2 with
    | error => exact .unterminated hword hbehind htext hreserved rfl hterms
    | ok reading => exact .symbol hword hbehind htext hreserved rfl hterms

theorem begins_lexeme (offset : Nat) (first : Char) (text : List Char) :
    Begins offset first text ((lexeme offset first text).map Lexeme.reading) := by
  unfold lexeme
  cases hpunctuation : punctuation? text with
  | some l => exact .punctuation hpunctuation
  | none =>
    dsimp only
    rcases hsigil : takeSigil text with ⟨sigil, afterSigil⟩
    rcases hword : takeWord afterSigil with ⟨word, afterWord⟩
    have hchars := wordChars_takeWord afterSigil
    have hbehind := takeWord_takeWord afterSigil
    have hsplit := takeSigil_append text
    have hsplit' := takeWord_append afterSigil
    rw [hword] at hchars hbehind hsplit'
    rw [hsigil] at hsplit
    dsimp only at hchars hbehind hsplit hsplit'
    by_cases hne : word = []
    · subst hne
      rw [List.nil_append] at hsplit'
      rw [wordLexeme_eq_error hsigil hword, ← hsplit']
      exact .wordless hpunctuation (hsplit' ▸ hsigil) hbehind
    · rw [wordLexeme_map_reading hsigil hword hne]
      exact begins_of_wordReading ⟨hne, takeWord_eq_self_iff.2 hchars⟩ hbehind
        (by rw [hsplit', hsplit]) offset first

theorem begins_iff {reading : Except SyntaxError (Token × List Char)} :
    Begins offset first text reading ↔ (lexeme offset first text).map Lexeme.reading = reading := by
  constructor
  · intro h
    cases h with
    | punctuation h => rw [lexeme, h]; rfl
    | wordless hnone hsigil hrest =>
      rw [lexeme, hnone, wordLexeme_eq_error hsigil hrest]
      rfl
    | @reserved word rest _ hword hrest htext ht =>
      have hsigil : word ++ rest = Sigil.bare.text.toList ++ (word ++ rest) := rfl
      rw [← htext, hsigil, lexeme_map_reading_of_word hword hrest, wordReading, ht]
    | symbol hword hbehind htext hname hmodifiers hterms =>
      rw [← htext, lexeme_map_reading_of_word hword hbehind, wordReading, hname, hmodifiers]
      simp only [hterms]
    | unterminated hword hbehind htext hname hmodifiers hterms =>
      rw [← htext, lexeme_map_reading_of_word hword hbehind, wordReading, hname, hmodifiers]
      simp only [hterms]
  · rintro rfl
    exact begins_lexeme offset first text

/-! ## The source of a token -/

/-- The token is read from these characters: its own text, or the word for an operator that has
one. -/
def Token.IsReadFrom (t : Token) (source : List Char) : Prop :=
  source = t.describe.toList ∨ (t = .operator .and ∧ source = "and".toList) ∨
    (t = .operator .or ∧ source = "or".toList)

theorem isReadFrom_of_punctuation? {l : Lexeme text} (h : punctuation? text = some l) :
    l.token.IsReadFrom l.source := by
  fun_cases punctuation? text
  all_goals
    rw [punctuation?] at h
    · cases h <;> exact .inl (by simp [Token.describe, BinaryOp.text])
    all_goals assumption

theorem isReadFrom_of_keyword? {word : List Char} (h : keyword? word = some t) :
    t.IsReadFrom word := by
  unfold keyword? at h
  split_ifs at h with hif helse hand hor
  · obtain rfl := Option.some.inj h
    exact .inl hif
  · obtain rfl := Option.some.inj h
    exact .inl helse
  · obtain rfl := Option.some.inj h
    exact .inr (.inl ⟨rfl, hand⟩)
  · obtain rfl := Option.some.inj h
    exact .inr (.inr ⟨rfl, hor⟩)

theorem isReadFrom_of_reserved? {word : List Char} (h : reserved? .bare word = some t) :
    t.IsReadFrom word := by
  rw [reserved?, if_neg (not_not.2 rfl)] at h
  split_ifs at h with hnumeral
  · obtain rfl := Option.some.inj h
    exact .inl (by simp [Token.describe])
  · exact isReadFrom_of_keyword? h

/-- What a token takes off a text. -/
theorem Begins.exists_source (h : Begins offset first text (.ok (t, rest))) :
    ∃ source, source ++ rest = text ∧ t.IsReadFrom source := by
  generalize hreading : (.ok (t, rest) : Except SyntaxError (Token × List Char)) = reading at h
  cases h with
  | @punctuation l h =>
    obtain ⟨rfl, rfl⟩ := Prod.mk.inj (Except.ok.inj hreading)
    exact ⟨l.source, l.split, isReadFrom_of_punctuation? h⟩
  | wordless => cases hreading
  | reserved hword hrest htext ht =>
    obtain ⟨rfl, rfl⟩ := Prod.mk.inj (Except.ok.inj hreading)
    exact ⟨_, htext, isReadFrom_of_reserved? ht⟩
  | @symbol sigil word behind behind' _ modifiers group _ _ htext _ hmodifiers hterms =>
    obtain ⟨rfl, rfl⟩ := Prod.mk.inj (Except.ok.inj hreading)
    have hbehind := takeModifiers_append behind
    rw [hmodifiers] at hbehind
    refine ⟨sigil.text.toList ++ (word ++ (modifiers.flatMap (':' :: ·) ++ termsSource group)),
      ?_, .inl ?_⟩
    · rw [← htext, ← hbehind, ← takeTerms_append hterms]
      simp
    · cases group <;> simp [Token.describe, Symbol.toList_render, termsSource, Function.comp_def]
  | unterminated => cases hreading

theorem isReadFrom_of_lexeme {l : Lexeme text} (h : lexeme offset first text = .ok l) :
    l.token.IsReadFrom l.source := by
  have hbegins : Begins offset first text (.ok (l.token, l.rest)) := begins_iff.2 (by rw [h]; rfl)
  obtain ⟨source, hsplit, ht⟩ := hbegins.exists_source
  rwa [List.append_cancel_right (hsplit.trans l.split.symm)] at ht

/-! ## Spans -/

/-- What a token takes off a text: the blanks in front of it and the characters from which it is
read. -/
structure Span where
  blanks : List Char
  source : List Char

def Span.chars (s : Span) : List Char :=
  s.blanks ++ s.source

/-- The bytes at which the sources begin, if the first span begins at byte `start`. -/
def offsetsFrom (start : Nat) : List Span → List Nat
  | [] => []
  | s :: spans => (start + byteLength s.blanks) :: offsetsFrom (start + byteLength s.chars) spans

/-- The text, which begins at byte `start`, is divided into the spans of the tokens and the blanks
behind the last of them. -/
structure Divides (start : Nat) (text : List Char) (tokens : List PlacedToken) (spans : List Span)
    (last : List Char) : Prop where
  chars : spans.flatMap Span.chars ++ last = text
  between : ∀ s ∈ spans, ∀ c ∈ s.blanks, isBlank c = true
  behind : ∀ c ∈ last, isBlank c = true
  sources : List.Forall₂ (fun t s => t.token.IsReadFrom s.source) tokens spans
  source_ne_nil : ∀ s ∈ spans, s.source ≠ []
  offsets : tokens.map (·.offset) = offsetsFrom start spans

theorem byteLength_append (front behind : List Char) :
    byteLength (front ++ behind) = byteLength front + byteLength behind := by
  induction front with
  | nil => simp [byteLength]
  | cons c front ih => rw [List.cons_append, byteLength, byteLength, ih, Nat.add_assoc]

theorem byteLength_eq (cs : List Char) : byteLength cs = (String.ofList cs).utf8ByteSize := by
  induction cs with
  | nil => rfl
  | cons c cs ih => simp [byteLength, ih, String.ofList_cons]

theorem byteLength_pos {cs : List Char} (h : cs ≠ []) : 0 < byteLength cs := by
  cases cs with
  | nil => exact absurd rfl h
  | cons c cs =>
    have hpos := c.utf8Size_pos
    rw [byteLength]
    omega

variable {start : Nat} {tokens : List PlacedToken} {spans : List Span} {last : List Char}

namespace Divides

/-- A blank in front of the text belongs to the first span, or to the blanks at the end. -/
theorem blank {c : Char} (hc : isBlank c = true)
    (h : Divides (start + c.utf8Size) text tokens spans last) :
    ∃ spans last, Divides start (c :: text) tokens spans last := by
  have hcons {blanks : List Char} (hblanks : ∀ d ∈ blanks, isBlank d = true) :
      ∀ d ∈ c :: blanks, isBlank d = true :=
    List.forall_mem_cons.2 ⟨hc, hblanks⟩
  cases spans with
  | nil =>
    refine ⟨[], c :: last, ?_, by simp, hcons h.behind, h.sources, by simp, h.offsets⟩
    rw [← h.chars]
    rfl
  | cons s spans =>
    obtain ⟨hs, hbetween⟩ := List.forall_mem_cons.1 h.between
    obtain ⟨hsource, hsources⟩ := List.forall_mem_cons.1 h.source_ne_nil
    refine ⟨⟨c :: s.blanks, s.source⟩ :: spans, last, ?_,
      List.forall_mem_cons.2 ⟨hcons hs, hbetween⟩, h.behind, ?_,
      List.forall_mem_cons.2 ⟨hsource, hsources⟩, ?_⟩
    · rw [← h.chars]
      rfl
    · cases h.sources with
      | cons hs hspans => exact .cons hs hspans
    · rw [h.offsets]
      simp only [offsetsFrom, Span.chars, List.cons_append, byteLength, Nat.add_assoc]

theorem token {source : List Char} (hne : source ≠ []) (ht : t.IsReadFrom source)
    (h : Divides (start + byteLength source) rest tokens spans last) :
    Divides start (source ++ rest) (⟨t, start⟩ :: tokens) (⟨[], source⟩ :: spans) last where
  chars := by
    rw [← h.chars]
    simp [Span.chars]
  between := List.forall_mem_cons.2 ⟨by simp, h.between⟩
  behind := h.behind
  sources := .cons ht h.sources
  source_ne_nil := List.forall_mem_cons.2 ⟨hne, h.source_ne_nil⟩
  offsets := by
    rw [List.map_cons, h.offsets]
    rfl

end Divides

theorem exists_divides_of_scan (h : scan start text = .ok tokens) :
    ∃ spans last, Divides start text tokens spans last := by
  fun_induction scan start text generalizing tokens with
  | case1 =>
    cases h
    exact ⟨[], [], rfl, by simp, by simp, .nil, by simp, rfl⟩
  | case2 start c cs hc ih =>
    obtain ⟨spans, last, hdivides⟩ := ih h
    exact hdivides.blank hc
  | case3 => cases h
  | case4 => cases h
  | case5 start c cs hc l hl tokens hscan ih =>
    cases h
    obtain ⟨spans, last, hdivides⟩ := ih hscan
    have htoken := hdivides.token l.source_ne_nil (isReadFrom_of_lexeme hl)
    rw [l.split] at htoken
    exact ⟨_, _, htoken⟩

/-! ## Offsets -/

theorem exists_front_of_mem_offsetsFrom {offset : Nat} (h : offset ∈ offsetsFrom start spans) :
    ∃ front behind, front ++ behind = spans.flatMap Span.chars ∧
      offset = start + byteLength front := by
  induction spans generalizing start with
  | nil => cases h
  | cons s spans ih =>
    rcases List.mem_cons.1 h with rfl | h
    · exact ⟨s.blanks, s.source ++ spans.flatMap Span.chars, by simp [Span.chars], rfl⟩
    · obtain ⟨front, behind, hspans, rfl⟩ := ih h
      refine ⟨s.chars ++ front, behind, by simp [hspans], ?_⟩
      rw [byteLength_append, Nat.add_assoc]

theorem le_of_mem_offsetsFrom {offset : Nat} (h : offset ∈ offsetsFrom start spans) :
    start ≤ offset := by
  obtain ⟨front, -, -, rfl⟩ := exists_front_of_mem_offsetsFrom h
  exact Nat.le_add_right _ _

theorem pairwise_offsetsFrom (h : ∀ s ∈ spans, s.source ≠ []) :
    (offsetsFrom start spans).Pairwise (· < ·) := by
  induction spans generalizing start with
  | nil => exact .nil
  | cons s spans ih =>
    obtain ⟨hs, hspans⟩ := List.forall_mem_cons.1 h
    refine List.pairwise_cons.2 ⟨fun offset hoffset => ?_, ih hspans⟩
    have hle := le_of_mem_offsetsFrom hoffset
    have hpos := byteLength_pos hs
    rw [Span.chars, byteLength_append] at hle
    omega

/-- Lexing loses nothing: the text is divided into the spans of its tokens, in their order, and the
blanks in front of, between and behind them.  The offsets grow from token to token, and each of them
is the boundary of a character. -/
theorem tokenize_loses_nothing {text : String} {tokens : List PlacedToken}
    (h : tokenize text = .ok tokens) :
    (∃ spans last, Divides 0 text.toList tokens spans last) ∧
      (tokens.map (·.offset)).Pairwise (· < ·) ∧
      ∀ t ∈ tokens, String.Pos.Raw.IsValid text ⟨t.offset⟩ := by
  obtain ⟨spans, last, hdivides⟩ := exists_divides_of_scan h
  refine ⟨⟨spans, last, hdivides⟩, ?_, fun t ht => ?_⟩
  · rw [hdivides.offsets]
    exact pairwise_offsetsFrom hdivides.source_ne_nil
  · have hmem : t.offset ∈ offsetsFrom 0 spans := by
      rw [← hdivides.offsets]
      exact List.mem_map_of_mem ht
    obtain ⟨front, behind, hspans, hoffset⟩ := exists_front_of_mem_offsetsFrom hmem
    refine String.Pos.Raw.isValid_iff_exists_append.2
      ⟨String.ofList front, String.ofList (behind ++ last), ?_, ?_⟩
    · rw [← String.ofList_append, ← List.append_assoc, hspans, hdivides.chars, String.ofList_toList]
    · rw [hoffset, Nat.zero_add, byteLength_eq]
      rfl

/-- The tokens of `" A@é@ and\n##?B"`. -/
def accentedTokens : List PlacedToken :=
  [⟨.symbol ⟨.bare, "A", [], some "é"⟩, 1⟩, ⟨.operator .and, 7⟩,
    ⟨.symbol ⟨.aggregate, "B", [], none⟩, 11⟩]

theorem tokenize_loses_nothing_accented :
    tokenize " A@é@ and\n##?B" = .ok accentedTokens ∧
      (∃ spans last, Divides 0 (" A@é@ and\n##?B").toList accentedTokens spans last) ∧
        (accentedTokens.map (·.offset)).Pairwise (· < ·) ∧
          ∀ t ∈ accentedTokens, String.Pos.Raw.IsValid " A@é@ and\n##?B" ⟨t.offset⟩ := by
  have h : tokenize " A@é@ and\n##?B" = .ok accentedTokens := by decide +kernel
  exact ⟨h, tokenize_loses_nothing h⟩

end TopdownMetrics.Formula

import TopdownMetrics.Proofs.TokenSpans

/-!
# The place of a lexical error

The tokens in front of an error do not depend on what stands behind them: where a token ends, it
also ends if the text is cut off there or further on, and if a mark follows.  So an unexpected
character is the one behind a text that has tokens and, if there is one, a mark.  The only error
that does not point at a character of the text is the one of a mark at its end: it names the mark
and gives the length of the text as its place.
-/

namespace TopdownMetrics.Formula

/-! ## Changes behind a token -/

/-- A text that is cut off, or that goes on with a mark. -/
inductive Alters : List Char → List Char → Prop
  | cut (rest tail : List Char) : Alters (rest ++ tail) rest
  | mark (rest tail : List Char) : Alters rest (rest ++ '#' :: tail)

namespace Alters

variable {rest rest' : List Char}

theorem append (h : Alters rest rest') (front : List Char) :
    Alters (front ++ rest) (front ++ rest') := by
  cases h with
  | cut _ tail =>
    rw [← List.append_assoc]
    exact .cut _ tail
  | mark _ tail =>
    rw [← List.append_assoc]
    exact .mark _ tail

/-- A class of characters without the mark still does not start the text. -/
theorem head {p : Char → Bool} (hp : p '#' = false) (h : Alters rest rest')
    (hrest : ∀ c ∈ rest.head?, p c = false) : ∀ c ∈ rest'.head?, p c = false := by
  cases h with
  | cut _ tail =>
    intro c hc
    apply hrest
    rw [List.head?_append, hc]
    rfl
  | mark _ tail =>
    cases rest with
    | nil =>
      intro c hc
      rw [← Option.some.inj hc]
      exact hp
    | cons d rest => exact hrest

/-- A class of pairs without the mark still does not start the text. -/
theorem pair {p : Char → Char → Bool} (hfirst : ∀ d, p '#' d = false)
    (hsecond : ∀ c, p c '#' = false) (h : Alters rest rest')
    (hrest : ∀ c d cs, rest = c :: d :: cs → p c d = false) :
    ∀ c d cs, rest' = c :: d :: cs → p c d = false := by
  intro c d cs heq
  cases h with
  | cut _ tail => exact hrest c d (cs ++ tail) (by rw [heq]; rfl)
  | mark _ tail =>
    match rest, heq with
    | [], heq =>
      rw [← (List.cons.inj heq).1]
      exact hfirst d
    | [_], heq =>
      rw [← (List.cons.inj (List.cons.inj heq).2).1]
      exact hsecond c
    | c' :: d' :: rest, heq =>
      rw [← (List.cons.inj heq).1, ← (List.cons.inj (List.cons.inj heq).2).1]
      exact hrest c' d' rest rfl

end Alters

/-! ## Where a token ends -/

theorem takeWord_eq_nil_iff {rest : List Char} : takeWord rest = ([], rest) ↔
    (∀ c ∈ rest.head?, isWordChar c = false) ∧
      ∀ c d cs, rest = c :: d :: cs → (c == '\\' && d == '-') = false := by
  constructor
  · intro h
    constructor
    · intro c hc
      obtain ⟨cs, rfl⟩ := List.head?_eq_some_iff.1 hc
      have hrest : (takeWord (c :: cs)).2 = c :: cs := by rw [h]
      cases hword : isWordChar c with
      | false => rfl
      | true =>
        rw [takeWord_char hword] at h
        cases congrArg Prod.fst h
    · rintro c d cs rfl
      by_contra hpair
      rw [Bool.not_eq_false, Bool.and_eq_true, beq_iff_eq, beq_iff_eq] at hpair
      obtain ⟨rfl, rfl⟩ := hpair
      rw [takeWord_hyphen] at h
      cases congrArg Prod.fst h
  · rintro ⟨hhead, hpair⟩
    cases rest with
    | nil => rfl
    | cons c rest =>
      cases rest with
      | nil => simp [takeWord, hhead c rfl]
      | cons d cs =>
        have hpair := hpair c d cs rfl
        rw [takeWord, if_neg (by simp [hhead c rfl]), if_neg (by simpa using hpair)]

theorem takeModifiers_eq_nil_iff {rest : List Char} : takeModifiers rest = ([], rest) ↔
    ∀ c d cs, rest = c :: d :: cs → (c == ':' && isModifierChar d) = false := by
  constructor
  · rintro h c d cs rfl
    by_contra hpair
    rw [Bool.not_eq_false, Bool.and_eq_true, beq_iff_eq] at hpair
    obtain ⟨rfl, hd⟩ := hpair
    rw [takeModifiers, if_pos hd] at h
    cases congrArg Prod.fst h
  · intro h
    cases rest with
    | nil => simp [takeModifiers]
    | cons c rest =>
      cases rest with
      | nil => simp [takeModifiers]
      | cons d cs =>
        have hpair := h c d cs rfl
        by_cases hc : c = ':'
        · subst hc
          have hd : isModifierChar d = false := by simpa using hpair
          rw [takeModifiers, if_neg (by simp [hd])]
        · exact takeModifiers_of_head hc _

theorem takeTerms_eq_none_iff {rest : List Char} :
    takeTerms rest = .ok (none, rest) ↔ ∀ c ∈ rest.head?, (c == '@') = false := by
  constructor
  · intro h c hc
    obtain ⟨cs, rfl⟩ := List.head?_eq_some_iff.1 hc
    by_contra hat
    rw [Bool.not_eq_false, beq_iff_eq] at hat
    subst hat
    rw [takeTerms] at h
    split at h <;> cases h
  · intro h
    cases rest with
    | nil => rfl
    | cons c cs =>
      have hc : c ≠ '@' := by simpa using h c rfl
      rw [takeTerms]
      simpa using hc

namespace Alters

variable {rest rest' : List Char}

theorem takeWord (h : Alters rest rest') (hrest : Formula.takeWord rest = ([], rest)) :
    Formula.takeWord rest' = ([], rest') := by
  obtain ⟨hhead, hpair⟩ := takeWord_eq_nil_iff.1 hrest
  exact takeWord_eq_nil_iff.2 ⟨h.head (by decide) hhead, h.pair (by simp) (by simp) hpair⟩

theorem takeModifiers (h : Alters rest rest') (hrest : Formula.takeModifiers rest = ([], rest)) :
    Formula.takeModifiers rest' = ([], rest') :=
  takeModifiers_eq_nil_iff.2
    (h.pair (by simp) (by simp [isModifierChar]) (takeModifiers_eq_nil_iff.1 hrest))

theorem takeTerms (h : Alters rest rest') (hrest : Formula.takeTerms rest = .ok (none, rest)) :
    Formula.takeTerms rest' = .ok (none, rest') :=
  takeTerms_eq_none_iff.2 (h.head (by decide) (takeTerms_eq_none_iff.1 hrest))

end Alters

theorem takeModifiers_takeModifiers (text : List Char) :
    takeModifiers (takeModifiers text).2 = ([], (takeModifiers text).2) := by
  fun_induction takeModifiers text with
  | case1 c rest hc modifiers rest' heq ih =>
    rw [heq] at ih
    exact ih
  | case2 c rest hc => simp [takeModifiers, hc]
  | case3 cs hne =>
    rw [takeModifiers]
    exact hne

/-- Modifiers are read as before from their own text. -/
theorem takeModifiers_of_alters {behind behind' altered : List Char} {modifiers : List (List Char)}
    (h : takeModifiers behind = (modifiers, behind')) (halters : Alters behind' altered) :
    takeModifiers (modifiers.flatMap (':' :: ·) ++ altered) = (modifiers, altered) := by
  have hbehind := takeModifiers_takeModifiers behind
  have hmodifiers : ∀ m ∈ (takeModifiers behind).1, IsModifier m := fun _ hm =>
    isModifier_of_mem_takeModifiers hm
  rw [h] at hbehind hmodifiers
  by_cases hnil : modifiers = []
  · rw [hnil]
    exact halters.takeModifiers hbehind
  · refine takeModifiers_flatMap_append hmodifiers (halters.takeModifiers hbehind) ?_
    apply halters.head (by decide)
    intro c hc
    obtain ⟨cs, hcs⟩ := List.head?_eq_some_iff.1 hc
    have hrest : (takeModifiers behind).2 = c :: cs := by rw [h, hcs]
    -- Some modifier was read, so that what is left is not the whole text.
    refine (not_isModifierChar_behind_modifiers hrest).resolve_right fun hsame => ?_
    have hlength := congrArg List.length (takeModifiers_append behind)
    rw [hsame, h, List.length_append] at hlength
    obtain ⟨m, modifiers, rfl⟩ := List.exists_cons_of_ne_nil hnil
    simp at hlength

theorem takeTerms_of_alters {behind rest altered : List Char} {group : Option (List Char)}
    (h : takeTerms behind = .ok (group, rest)) (halters : Alters rest altered) :
    takeTerms (termsSource group ++ altered) = .ok (group, altered) := by
  cases group with
  | none =>
    have hbehind : behind = rest := (takeTerms_append h).symm
    rw [hbehind] at h
    exact halters.takeTerms h
  | some terms =>
    have hterms : ∀ c ∈ terms, decide (c ≠ '@') = true := by
      intro c hc
      have hne : c ≠ '@' := by
        rintro rfl
        exact not_mem_of_takeTerms h hc
      simpa using hne
    have htext : termsSource (some terms) ++ altered = '@' :: (terms ++ '@' :: altered) := by
      simp [termsSource]
    rw [htext, takeTerms, List.dropWhile_append_of_pos hterms,
      List.takeWhile_append_of_pos hterms]
    simp

theorem punctuation?_reading_of_equal {c : Char} (hmark : markToken? c = none) (rest : List Char) :
    (punctuation? (c :: '=' :: rest)).map Lexeme.reading = (withEqual? c).map (·, rest) := by
  rw [punctuation?_map_reading, hmark]
  rfl

theorem punctuation?_reading_of_not_equal {c : Char} (hmark : markToken? c = none)
    {rest : List Char} (hrest : ∀ d ∈ rest.head?, (d == '=') = false) :
    (punctuation? (c :: rest)).map Lexeme.reading = (withoutEqual? c).map (·, rest) := by
  rw [punctuation?_map_reading, hmark]
  dsimp only
  split
  · exact absurd (hrest '=' rfl) (by decide)
  · rfl

/-- Punctuation is told from at most one character behind it. -/
theorem punctuation?_of_alters {source rest altered : List Char} {t : Token} (hne : source ≠ [])
    (h : (punctuation? (source ++ rest)).map Lexeme.reading = some (t, rest))
    (halters : Alters rest altered) :
    (punctuation? (source ++ altered)).map Lexeme.reading = some (t, altered) := by
  obtain ⟨c, source, rfl⟩ := List.exists_cons_of_ne_nil hne
  have hnil {more : List Char} (heq : more ++ rest = rest) : more = [] :=
    List.append_left_eq_self.1 heq
  cases hmark : markToken? c with
  | some t' =>
    rw [List.cons_append, punctuation?_map_reading, hmark] at h ⊢
    obtain ⟨ht, hrest⟩ := Prod.mk.inj (Option.some.inj h)
    rw [hnil hrest, ht]
    rfl
  | none =>
    cases source with
    | nil =>
      by_cases hequal : ∃ more, rest = '=' :: more
      · obtain ⟨more, rfl⟩ := hequal
        rw [List.singleton_append, punctuation?_reading_of_equal hmark] at h
        obtain ⟨_, _, hreading⟩ := Option.map_eq_some_iff.1 h
        have hlength := congrArg List.length (Prod.mk.inj hreading).2
        simp at hlength
      · have hhead : ∀ d ∈ rest.head?, (d == '=') = false := by
          intro d hd
          obtain ⟨more, hmore⟩ := List.head?_eq_some_iff.1 hd
          rw [beq_eq_false_iff_ne]
          rintro rfl
          exact hequal ⟨more, hmore⟩
        rw [List.singleton_append, punctuation?_reading_of_not_equal hmark hhead] at h
        rw [List.singleton_append,
          punctuation?_reading_of_not_equal hmark (halters.head (by decide) hhead)]
        obtain ⟨t', ht', hreading⟩ := Option.map_eq_some_iff.1 h
        rw [ht', ← (Prod.mk.inj hreading).1]
        rfl
    | cons d source =>
      by_cases hd : d = '='
      · subst hd
        rw [List.cons_append, List.cons_append, punctuation?_reading_of_equal hmark] at h ⊢
        obtain ⟨t', ht', hreading⟩ := Option.map_eq_some_iff.1 h
        obtain ⟨rfl, hrest⟩ := Prod.mk.inj hreading
        rw [hnil hrest, ht']
        rfl
      · have hhead : ∀ e ∈ (d :: source ++ rest).head?, (e == '=') = false := by simpa using hd
        rw [List.cons_append, punctuation?_reading_of_not_equal hmark hhead] at h
        obtain ⟨_, _, hreading⟩ := Option.map_eq_some_iff.1 h
        have hlength := congrArg List.length (Prod.mk.inj hreading).2
        simp at hlength
        omega

/-- What is read at the start of a text does not depend on what stands behind it. -/
theorem Begins.alter {offset : Nat} {first : Char} {source rest altered : List Char} {t : Token}
    (hne : source ≠ []) (h : Begins offset first (source ++ rest) (.ok (t, rest)))
    (halters : Alters rest altered) :
    Begins offset first (source ++ altered) (.ok (t, altered)) := by
  generalize hreading : (.ok (t, rest) : Except SyntaxError (Token × List Char)) = reading at h
  cases h with
  | @punctuation l h =>
    have hrest : (punctuation? (source ++ rest)).map Lexeme.reading = some (t, rest) := by
      rw [h, Except.ok.inj hreading]
      rfl
    obtain ⟨l', hl', hreading'⟩ :=
      Option.map_eq_some_iff.1 (punctuation?_of_alters hne hrest halters)
    rw [← hreading']
    exact .punctuation hl'
  | wordless => cases hreading
  | reserved hword hrest htext ht =>
    obtain ⟨rfl, rfl⟩ := Prod.mk.inj (Except.ok.inj hreading)
    rw [← List.append_cancel_right htext]
    exact .reserved hword (halters.takeWord hrest) rfl ht
  | @symbol sigil word behind behind' _ modifiers group hword hbehind htext hname hmodifiers
      hterms =>
    obtain ⟨rfl, rfl⟩ := Prod.mk.inj (Except.ok.inj hreading)
    have hgroup := takeTerms_append hterms
    have hwhole := takeModifiers_append behind
    rw [hmodifiers] at hwhole
    dsimp only at hwhole
    have hbehindAlters : Alters behind' (termsSource group ++ altered) := by
      rw [← hgroup]
      exact halters.append _
    have hwholeAlters : Alters behind
        (modifiers.flatMap (':' :: ·) ++ (termsSource group ++ altered)) := by
      rw [← hwhole]
      exact hbehindAlters.append _
    have hboth : source ++ rest = sigil.text.toList ++
        (word ++ (modifiers.flatMap (':' :: ·) ++ termsSource group)) ++ rest := by
      rw [← htext, ← hwhole, ← hgroup]
      simp
    have hsource := List.append_cancel_right hboth
    refine .symbol hword (hwholeAlters.takeWord hbehind) ?_ hname
      (takeModifiers_of_alters hmodifiers hbehindAlters) (takeTerms_of_alters hterms halters)
    rw [hsource]
    simp
  | unterminated => cases hreading

/-! ## Scans -/

variable {start : Nat} {text rest source : List Char} {tokens : List PlacedToken}
  {t : Token} {cause : SyntaxError}

theorem scan_of_begins {c : Char} {cs : List Char} (hc : isBlank c = false)
    (htext : source ++ rest = c :: cs) (h : Begins start c (c :: cs) (.ok (t, rest))) :
    scan start (c :: cs) =
      (scan (start + byteLength source) rest).map (⟨t, start⟩ :: ·) := by
  rw [scan, if_neg (by simp [hc])]
  have hreading := begins_iff.1 h
  cases hl : lexeme start c (c :: cs) with
  | error cause =>
    rw [hl] at hreading
    cases hreading
  | ok l =>
    rw [hl] at hreading
    obtain ⟨rfl, rfl⟩ := Prod.mk.inj (Except.ok.inj hreading)
    rw [List.append_cancel_right (htext.trans l.split.symm)]
    dsimp only
    cases scan (start + byteLength l.source) l.rest <;> rfl

/-- A scan that fails stops in front of some character, and the text up to there has tokens. -/
theorem exists_stop_of_scan_eq_error (h : scan start text = .error cause) :
    ∃ front c cs tokens, front ++ c :: cs = text ∧ isBlank c = false ∧
      lexeme (start + byteLength front) c (c :: cs) = .error cause ∧
      scan start front = .ok tokens := by
  fun_induction scan start text with
  | case1 => cases h
  | case2 start c cs hc ih =>
    obtain ⟨front, d, ds, tokens, rfl, hd, hlexeme, hfront⟩ := ih h
    refine ⟨c :: front, d, ds, tokens, rfl, hd, ?_, by rwa [scan, if_pos hc]⟩
    rwa [byteLength, ← Nat.add_assoc]
  | case3 start c cs hc cause' hl =>
    cases h
    exact ⟨[], c, cs, [], rfl, by simpa using hc, hl, by rw [scan]⟩
  | case4 start c cs hc l hl cause' hscan ih =>
    cases h
    obtain ⟨front, d, ds, tokens, hrest, hd, hlexeme, hfront⟩ := ih hscan
    have hsplit := l.split
    obtain ⟨source, hsource⟩ : ∃ source, l.source = c :: source := by
      obtain ⟨c', source, hsource⟩ := List.exists_cons_of_ne_nil l.source_ne_nil
      rw [hsource] at hsplit
      exact ⟨source, by rw [hsource, (List.cons.inj hsplit).1]⟩
    have hbegins : Begins start c (l.source ++ l.rest) (.ok (l.token, l.rest)) := by
      rw [hsplit, begins_iff, hl]
      rfl
    have hcut : Alters l.rest front := by
      rw [← hrest]
      exact .cut front (d :: ds)
    refine ⟨l.source ++ front, d, ds, ⟨l.token, start⟩ :: tokens, ?_, hd, ?_, ?_⟩
    · rw [List.append_assoc, hrest, hsplit]
    · rwa [byteLength_append, ← Nat.add_assoc]
    · have hfrontBegins := hbegins.alter l.source_ne_nil hcut
      rw [hsource, List.cons_append] at hfrontBegins ⊢
      rw [scan_of_begins (by simpa using hc) (by rw [← List.cons_append, ← hsource]) hfrontBegins,
        hfront]
      rfl
  | case5 => cases h

/-- Behind a text that has tokens, a mark is scanned for itself. -/
theorem scan_append_mark (h : scan start text = .ok tokens) (tail : List Char) :
    scan start (text ++ '#' :: tail) =
      (scan (start + byteLength text) ('#' :: tail)).map (tokens ++ ·) := by
  fun_induction scan start text generalizing tokens with
  | case1 =>
    cases h
    rw [byteLength, Nat.add_zero, List.nil_append]
    cases scan _ ('#' :: tail) <;> rfl
  | case2 start c cs hc ih =>
    rw [List.cons_append, scan, if_pos hc, ih h, byteLength, Nat.add_assoc]
  | case3 => cases h
  | case4 => cases h
  | case5 start c cs hc l hl more hscan ih =>
    cases h
    have hbegins : Begins start c (l.source ++ l.rest) (.ok (l.token, l.rest)) := by
      rw [l.split, begins_iff, hl]
      rfl
    have hmarkBegins := hbegins.alter l.source_ne_nil (.mark l.rest tail)
    have htext : l.source ++ (l.rest ++ '#' :: tail) = c :: (cs ++ '#' :: tail) := by
      rw [← List.append_assoc, l.split, List.cons_append]
    rw [htext] at hmarkBegins
    have hlength : byteLength (c :: cs) = byteLength l.source + byteLength l.rest := by
      rw [← byteLength_append, l.split]
    rw [List.cons_append, scan_of_begins (by simpa using hc) htext hmarkBegins, ih hscan,
      hlength, Nat.add_assoc]
    cases scan _ ('#' :: tail) <;> rfl

/-! ## Errors -/

/-- The error names a character of the text and its place.  In front of an unexpected character, and
of the mark that belongs to it, the text has tokens. -/
inductive Pinpoints (text : String) : SyntaxError → Prop
  | unexpected {front rest : String} {sigil : Sigil} {c : Char} {tokens : List PlacedToken}
      (htext : text = front ++ sigil.text ++ (String.singleton c ++ rest))
      (hfront : tokenize front = .ok tokens) :
      Pinpoints text (.unexpectedChar c (front ++ sigil.text).utf8ByteSize)
  | unterminated {front rest : String} (htext : text = front ++ ("@" ++ rest))
      (hrest : '@' ∉ rest.toList) : Pinpoints text (.unterminatedTerms front.utf8ByteSize)

/-- The text ends with a mark, and what is in front of it has tokens. -/
def EndsInMark (text : String) : Prop :=
  ∃ front sigil tokens, sigil ≠ Sigil.bare ∧ text = front ++ sigil.text ∧
    tokenize front = .ok tokens

theorem takeSigil_text (sigil : Sigil) : takeSigil sigil.text.toList = (sigil, []) := by
  cases sigil <;> rfl

theorem exists_text_eq_mark {sigil : Sigil} (h : sigil ≠ .bare) :
    ∃ tail, sigil.text.toList = '#' :: tail := by
  cases sigil
  case bare => contradiction
  all_goals exact ⟨_, rfl⟩

theorem EndsInMark.getLast?_eq {text : String} (h : EndsInMark text) :
    text.toList.getLast? = some '#' ∨ text.toList.getLast? = some '?' := by
  obtain ⟨front, sigil, _, hsigil, rfl, _⟩ := h
  rw [String.toList_append, List.getLast?_append]
  cases sigil
  case bare => contradiction
  case aggregate => exact .inr rfl
  all_goals exact .inl rfl

/-- A mark with nothing behind it is named by its first character and placed by its end. -/
theorem scan_mark {sigil : Sigil} (hsigil : sigil ≠ .bare) (start : Nat) :
    scan start sigil.text.toList =
      .error (.unexpectedChar '#' (start + sigil.text.utf8ByteSize)) := by
  obtain ⟨tail, htail⟩ := exists_text_eq_mark hsigil
  have hnone : punctuation? sigil.text.toList = none := by
    rw [htail]
    rfl
  have hlexeme : lexeme start '#' sigil.text.toList =
      .error (.unexpectedChar '#' (start + sigil.text.utf8ByteSize)) := by
    rw [lexeme, hnone]
    exact wordLexeme_eq_error (takeSigil_text sigil) (by rw [takeWord]) start '#'
  rw [htail] at hlexeme ⊢
  rw [scan, if_neg (by decide), hlexeme]

theorem tokenize_of_endsInMark {text : String} (h : EndsInMark text) :
    tokenize text = .error (.unexpectedChar '#' text.utf8ByteSize) := by
  obtain ⟨front, sigil, tokens, hsigil, rfl, hfront⟩ := h
  obtain ⟨tail, htail⟩ := exists_text_eq_mark hsigil
  have hscan := scan_mark hsigil (0 + byteLength front.toList)
  rw [htail] at hscan
  rw [tokenize, String.toList_append, htail, scan_append_mark hfront, hscan, Nat.zero_add,
    byteLength_eq, String.ofList_toList, String.utf8ByteSize_append]
  rfl

/-- There is no character at the end of a text. -/
theorem not_pinpoints_end (text : String) (c : Char) :
    ¬ Pinpoints text (.unexpectedChar c text.utf8ByteSize) := by
  intro h
  generalize he : SyntaxError.unexpectedChar c text.utf8ByteSize = e at h
  cases h with
  | @unexpected front rest sigil d tokens htext hfront =>
    have hsize := (SyntaxError.unexpectedChar.inj he).2
    have hd := d.utf8Size_pos
    rw [htext] at hsize
    simp only [String.utf8ByteSize_append, String.utf8ByteSize_singleton] at hsize
    omega
  | unterminated => cases he

theorem exists_of_takeTerms_eq_error {behind : List Char} (h : takeTerms behind = .error ()) :
    ∃ rest, behind = '@' :: rest ∧ '@' ∉ rest := by
  unfold takeTerms at h
  split at h
  · rename_i rest
    split at h
    · rename_i hdrop
      refine ⟨rest, rfl, fun hmem => ?_⟩
      simpa using List.dropWhile_eq_nil_iff.1 hdrop '@' hmem
    · cases h
  · cases h

theorem pinpoints_or_endsInMark {text : String} {e : SyntaxError} (h : tokenize text = .error e) :
    Pinpoints text e ∨ EndsInMark text := by
  obtain ⟨front, c, cs, tokens, htext, -, hlexeme, hfront⟩ := exists_stop_of_scan_eq_error h
  have hbegins : Begins (0 + byteLength front) c (c :: cs) (.error e) := by
    rw [begins_iff, hlexeme]
    rfl
  rw [Nat.zero_add, byteLength_eq] at hbegins
  have htokens : tokenize (String.ofList front) = .ok tokens := by
    rwa [tokenize, String.toList_ofList]
  have hwhole {more : List Char} (hmore : more = c :: cs) :
      text = String.ofList front ++ String.ofList more := by
    rw [hmore, ← String.ofList_append, htext, String.ofList_toList]
  generalize hreading : (.error e : Except SyntaxError (Token × List Char)) = reading at hbegins
  cases hbegins with
  | punctuation => cases hreading
  | @wordless sigil rest hnone hsigil hrest =>
    obtain rfl := Except.error.inj hreading
    have hsplit := takeSigil_append (c :: cs)
    rw [hsigil] at hsplit
    have htext := hwhole hsplit
    rw [String.ofList_append, String.ofList_toList] at htext
    cases rest with
    | nil =>
      refine .inr ⟨_, sigil, tokens, ?_, by simpa using htext, htokens⟩
      rintro rfl
      cases hsplit
    | cons d rest =>
      left
      rw [String.ofList_cons, ← String.append_assoc] at htext
      rw [← String.utf8ByteSize_append, List.head?_cons, Option.getD_some]
      exact .unexpected htext htokens
  | reserved => cases hreading
  | symbol => cases hreading
  | @unterminated sigil word behind behind' modifiers _ _ hsource _ hmodifiers hterms =>
    obtain rfl := Except.error.inj hreading
    obtain ⟨rest, rfl, hrest⟩ := exists_of_takeTerms_eq_error hterms
    have hbehind := takeModifiers_append behind
    rw [hmodifiers] at hbehind
    dsimp only at hbehind
    have hmore : sigil.text.toList ++ (word ++ modifiers.flatMap (':' :: ·)) ++ '@' :: rest =
        c :: cs := by
      rw [← hsource, ← hbehind]
      simp
    have htext := hwhole hmore
    rw [String.ofList_append, ← String.append_assoc, String.ofList_cons] at htext
    left
    rw [byteLength_eq, ← String.utf8ByteSize_append]
    exact .unterminated htext (by rwa [String.toList_ofList])

/-- A lexical error points at a character of the text, unless the text ends with a mark.  Then it
names the mark, and its place is the end of the text. -/
theorem lexical_error_pinpoints_iff {text : String} {e : SyntaxError}
    (h : tokenize text = .error e) :
    (Pinpoints text e ↔ ¬ EndsInMark text) ∧
      (EndsInMark text → e = .unexpectedChar '#' text.utf8ByteSize) := by
  have hmark (hends : EndsInMark text) : e = .unexpectedChar '#' text.utf8ByteSize :=
    Except.error.inj (h.symm.trans (tokenize_of_endsInMark hends))
  refine ⟨⟨?_, fun hends => (pinpoints_or_endsInMark h).resolve_right hends⟩, hmark⟩
  intro hpinpoints hends
  rw [hmark hends] at hpinpoints
  exact not_pinpoints_end text '#' hpinpoints

/-- Counted from zero, the letter behind the mark is character 12 of the text, at byte 13. -/
theorem lexical_error_pinpoints_accented :
    tokenize "CLKS@é@ / ##é" = .error (.unexpectedChar 'é' 13) ∧
      ¬ EndsInMark "CLKS@é@ / ##é" ∧
      Pinpoints "CLKS@é@ / ##é" (.unexpectedChar 'é' 13) := by
  have h : tokenize "CLKS@é@ / ##é" = .error (.unexpectedChar 'é' 13) := by decide +kernel
  have hends : ¬ EndsInMark "CLKS@é@ / ##é" := fun hends =>
    absurd hends.getLast?_eq (by decide +kernel)
  exact ⟨h, hends, (lexical_error_pinpoints_iff h).1.2 hends⟩

/-- The error of a lone mark names the mark, which stands in front of the place given. -/
theorem not_pinpoints_lone_mark :
    tokenize "#" = .error (.unexpectedChar '#' 1) ∧ ¬ Pinpoints "#" (.unexpectedChar '#' 1) :=
  ⟨by decide +kernel, not_pinpoints_end "#" '#'⟩

end TopdownMetrics.Formula

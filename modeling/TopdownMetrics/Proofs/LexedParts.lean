import TopdownMetrics.Proofs.Lexing

/-!
# Texts lexed in parts

A text without term groups can be lexed in parts.  In front of a blank, a parenthesis, a comma or a
plus sign every token ends, whatever it is, so that the parts on both sides are lexed for
themselves.  Elsewhere the tokens of the parts need not be those of the whole, because the last of
them can run on.
-/

namespace TopdownMetrics.Formula

/-! ## Characters at which every token ends -/

def isBreak (c : Char) : Bool :=
  isBlank c || c == '(' || c == ')' || c == ',' || c == '+'

/-- What holds of all these characters can be checked for each of them. -/
theorem of_isBreak {P : Char → Prop} {c : Char} (hc : isBreak c = true)
    (h : [' ', '\t', '\r', '\n', '(', ')', ',', '+'].Forall P) : P c := by
  apply List.forall_iff_forall_mem.1 h
  simpa [isBreak, isBlank, or_assoc] using hc

/-- The text is empty or starts with a character at which every token ends. -/
def BreaksOff (b : List Char) : Prop :=
  ∀ c ∈ b.head?, isBreak c = true

def EndsInWord (a : List Char) : Prop :=
  ∀ c ∈ a.getLast?, isWordChar c = true

/-- The text starts with a character that no word goes on with. -/
def StartsWithMark (b : List Char) : Prop :=
  ∃ c cs, b = c :: cs ∧ (c = '-' ∨ c = '#')

/-- A token at the start of `a` in front of `rest` is the same if `b` stands behind `a`: either
every token ends in front of `b`, or the token ends before `a` does, or `b` has a mark. -/
def Apart (a rest b : List Char) : Prop :=
  BreaksOff b ∨ EndsInWord a ∧ (rest ≠ [] ∨ StartsWithMark b)

theorem EndsInWord.of_suffix {a a' : List Char} (h : EndsInWord a) (hsuffix : a' <:+ a) :
    EndsInWord a' := by
  rcases hsuffix with ⟨front, rfl⟩
  intro c hc
  apply h
  rw [List.getLast?_append, hc]
  rfl

theorem Apart.of_suffix {a a' rest rest' b : List Char} (h : Apart a rest b) (ha : a' <:+ a)
    (hrest : rest <:+ rest') : Apart a' rest' b := by
  rcases h with hbreak | ⟨hword, hend⟩
  · exact .inl hbreak
  · refine .inr ⟨hword.of_suffix ha, hend.imp_left fun hne hnil => hne ?_⟩
    rw [hnil] at hrest
    exact List.suffix_nil.1 hrest

namespace Apart

variable {a b : List Char} {c : Char}

/-- The characters with which the text behind can go on, if the token does not end before. -/
theorem of_head {P : Char → Prop} (h : Apart a [] b)
    (h' : [' ', '\t', '\r', '\n', '(', ')', ',', '+', '-', '#'].Forall P) :
    ∀ c ∈ b.head?, P c := by
  intro c hc
  have hP := List.forall_iff_forall_mem.1 h'
  rcases h with hbreak | ⟨-, hne | ⟨d, b, rfl, hd⟩⟩
  · apply of_isBreak (hbreak c hc)
    apply List.forall_iff_forall_mem.2
    intro d hd
    apply hP
    simp only [List.mem_cons] at hd ⊢
    tauto
  · exact absurd rfl hne
  · rcases Option.some.inj hc with rfl
    apply hP
    rcases hd with rfl | rfl
    · simp
    · simp

theorem breaksOff (h : Apart [c] [c] b) (hc : isWordChar c = false) : BreaksOff b := by
  rcases h with hbreak | ⟨hword, -⟩
  · exact hbreak
  · rw [hword c rfl] at hc
    cases hc

theorem takeWord_eq (h : Apart a [] b) : takeWord b = ([], b) := by
  have hhead := h.of_head (P := fun c => isWordChar c = false ∧ c ≠ '\\') (by decide)
  cases b with
  | nil => rfl
  | cons c b => exact takeWord_of_not (hhead c rfl).1 (hhead c rfl).2 b

theorem takeModifiers_eq (h : Apart a [] b) : takeModifiers b = ([], b) := by
  have hhead := h.of_head (P := (· ≠ ':')) (by decide)
  rw [takeModifiers]
  intro c rest heq
  rw [heq] at hhead
  exact hhead ':' rfl rfl

end Apart

theorem takeWord_append_of_apart {a b : List Char} (h : Apart a (takeWord a).2 b) :
    takeWord (a ++ b) = ((takeWord a).1, (takeWord a).2 ++ b) := by
  fun_induction takeWord a with
  | case1 => exact h.takeWord_eq
  | case2 c hc => rw [List.singleton_append, takeWord_char hc, h.takeWord_eq, List.nil_append]
  | case3 c hc =>
    have hbreak := h.breaksOff (by simpa using hc)
    cases b with
    | nil => simp [takeWord, hc]
    | cons d b =>
      have hd : d ≠ '-' := of_isBreak (P := (· ≠ '-')) (hbreak d rfl) (by decide)
      simp [takeWord, hc, hd]
  | case4 c d rest hc word rest' heq ih =>
    rw [heq] at ih
    have htail := ih (h.of_suffix (List.suffix_cons c _) (List.suffix_refl _))
    rw [List.cons_append, takeWord_char hc, htail]
  | case5 c d rest hc hpair word rest' heq ih =>
    rcases hpair with ⟨rfl, rfl⟩
    rw [heq] at ih
    have hsuffix : rest <:+ '\\' :: '-' :: rest := ⟨['\\', '-'], rfl⟩
    have htail := ih (h.of_suffix hsuffix (List.suffix_refl _))
    rw [List.cons_append, List.cons_append, takeWord_hyphen, htail]
  | case6 c d rest hc hpair => simp [takeWord, hc, hpair]

/-- What a class of characters takes off the front, if it leaves something or the text behind does
not go on with the class. -/
theorem span_append {p : Char → Bool} {a b : List Char}
    (h : a.dropWhile p ≠ [] ∨ ∀ c ∈ b.head?, p c = false) :
    (a ++ b).takeWhile p = a.takeWhile p ∧ (a ++ b).dropWhile p = a.dropWhile p ++ b := by
  by_cases hall : a.dropWhile p = []
  · have hb := h.resolve_left (absurd hall)
    have hnone : b.takeWhile p = [] ∧ b.dropWhile p = b := by
      cases b with
      | nil => simp
      | cons c b => simp [hb c rfl]
    have hall := List.dropWhile_eq_nil_iff.1 hall
    rw [List.takeWhile_append_of_pos hall, List.dropWhile_append_of_pos hall, hnone.1, hnone.2,
      List.dropWhile_eq_nil_iff.2 hall, List.takeWhile_eq_self_iff.2 hall, List.append_nil]
    exact ⟨rfl, rfl⟩
  · have hlength : (a.takeWhile p).length ≠ a.length := by
      intro heq
      apply hall
      have hself := (List.takeWhile_prefix p (l := a)).eq_of_length heq
      rw [List.dropWhile_eq_nil_iff]
      exact List.takeWhile_eq_self_iff.1 hself
    rw [List.takeWhile_append, if_neg hlength, List.dropWhile_append,
      if_neg (by simpa using hall)]
    exact ⟨rfl, rfl⟩

theorem takeModifiers_of_head {c : Char} (hc : c ≠ ':') (cs : List Char) :
    takeModifiers (c :: cs) = ([], c :: cs) := by
  rw [takeModifiers]
  intro d rest heq
  injection heq with heq
  exact hc heq

theorem takeModifiers_append_of_apart {a b : List Char} (h : Apart a (takeModifiers a).2 b) :
    takeModifiers (a ++ b) = ((takeModifiers a).1, (takeModifiers a).2 ++ b) := by
  fun_induction takeModifiers a with
  | case1 c rest hc modifiers rest' heq ih =>
    rw [heq] at ih
    have hsuffix : rest.dropWhile isModifierChar <:+ ':' :: c :: rest :=
      (List.dropWhile_suffix _).trans ⟨[':', c], rfl⟩
    have hspan : (rest ++ b).takeWhile isModifierChar = rest.takeWhile isModifierChar ∧
        (rest ++ b).dropWhile isModifierChar = rest.dropWhile isModifierChar ++ b := by
      apply span_append
      by_cases hall : rest.dropWhile isModifierChar = []
      · right
        rw [hall] at heq
        have hrest : rest' = [] := by simpa [takeModifiers] using (congrArg Prod.snd heq).symm
        rw [hrest] at h
        exact h.of_head (P := fun c => isModifierChar c = false) (by decide)
      · exact .inl hall
    have htail := ih (h.of_suffix hsuffix (List.suffix_refl _))
    rw [List.cons_append, List.cons_append, takeModifiers, if_pos hc, hspan.1, hspan.2, htail]
  | case2 c rest hc => simp [takeModifiers, hc]
  | case3 a hne =>
    cases a with
    | nil => exact h.takeModifiers_eq
    | cons c rest =>
      by_cases hc : c = ':'
      · subst hc
        cases rest with
        | nil =>
          have hbreak := h.breaksOff (by decide)
          cases b with
          | nil => simp [takeModifiers]
          | cons d b =>
            have hd : isModifierChar d = false :=
              of_isBreak (P := fun d => isModifierChar d = false) (hbreak d rfl) (by decide)
            simp [takeModifiers, hd]
        | cons d rest => exact absurd rfl (hne d rest)
      · exact takeModifiers_of_head hc (rest ++ b)

theorem takeSigil_append_of_ne {a b : List Char} (h : (takeSigil a).2 ≠ [] ∨ BreaksOff b) :
    takeSigil (a ++ b) = ((takeSigil a).1, (takeSigil a).2 ++ b) := by
  have hhead : (takeSigil a).2 = [] → ∀ c cs, b = c :: cs → c ≠ '#' ∧ c ≠ '?' := by
    intro hnil c cs hb
    have hbreak := h.resolve_left (absurd hnil)
    exact of_isBreak (P := fun c => c ≠ '#' ∧ c ≠ '?') (hbreak c (by rw [hb]; rfl)) (by decide)
  fun_cases takeSigil a with
  | case1 rest => rfl
  | case2 rest hne =>
    cases rest with
    | nil =>
      cases b with
      | nil => rfl
      | cons c b =>
        have hc := (hhead rfl c b rfl).2
        simp [takeSigil, hc]
    | cons c rest =>
      have hc : c ≠ '?' := fun hc => hne rest (by rw [hc])
      simp [takeSigil, hc]
  | case3 rest hne hne' =>
    cases rest with
    | nil =>
      cases b with
      | nil => rfl
      | cons c b =>
        have hc := (hhead rfl c b rfl).1
        simp [takeSigil, hc]
    | cons c rest =>
      have hc : c ≠ '#' := fun hc => hne' rest (by rw [hc])
      simp [takeSigil, hc]
  | case4 a hne hne' hne'' =>
    cases a with
    | nil =>
      cases b with
      | nil => rfl
      | cons c b =>
        have hc := (hhead rfl c b rfl).1
        simp [takeSigil, hc]
    | cons c rest =>
      have hc : c ≠ '#' := fun hc => hne'' rest (by rw [hc])
      simp [takeSigil, hc]

/-! ## Punctuation -/

/-- The token of a character that is one for itself, whatever follows. -/
def markToken? : Char → Option Token
  | '+' => some (.operator .add)
  | '-' => some (.operator .sub)
  | '*' => some (.operator .mul)
  | '/' => some (.operator .div)
  | '%' => some (.operator .mod)
  | '(' => some .leftParen
  | ')' => some .rightParen
  | ',' => some .comma
  | '&' => some (.operator .and)
  | '|' => some (.operator .or)
  | _ => none

/-- The token of a character in front of an equality sign. -/
def withEqual? : Char → Option Token
  | '<' => some (.operator .le)
  | '>' => some (.operator .ge)
  | '=' => some (.operator .eq)
  | '!' => some (.operator .ne)
  | _ => none

def withoutEqual? : Char → Option Token
  | '<' => some (.operator .lt)
  | '>' => some (.operator .gt)
  | _ => none

theorem punctuation?_eq_none {c : Char} {rest : List Char} (hmark : markToken? c = none)
    (hwith : ∀ rest', rest = '=' :: rest' → withEqual? c = none)
    (hwithout : withoutEqual? c = none) : punctuation? (c :: rest) = none := by
  rw [punctuation?]
  all_goals
    intro rest' heq
    injection heq with hc hrest
    subst hc
    first
    | exact absurd hmark (by decide)
    | exact absurd hwithout (by decide)
    | exact absurd (hwith rest' hrest) (by decide)

/-- Punctuation is told from at most two characters. -/
theorem punctuation?_map_reading (c : Char) (rest : List Char) :
    (punctuation? (c :: rest)).map Lexeme.reading =
      match markToken? c with
      | some t => some (t, rest)
      | none => match rest with
        | '=' :: rest' => (withEqual? c).map (·, rest')
        | _ => (withoutEqual? c).map (·, rest) := by
  cases hmark : markToken? c with
  | some t =>
    unfold markToken? at hmark
    split at hmark <;> cases hmark <;> rfl
  | none =>
    dsimp only
    split
    · rename_i rest'
      cases hwith : withEqual? c with
      | some t =>
        unfold withEqual? at hwith
        split at hwith <;> cases hwith <;> rfl
      | none =>
        have hwithout : withoutEqual? c = none := by
          unfold withoutEqual?
          split
          · cases hwith
          · cases hwith
          · rfl
        rw [punctuation?_eq_none hmark (fun _ _ => hwith) hwithout]
        rfl
    · rename_i hne
      cases hwithout : withoutEqual? c with
      | some t =>
        unfold withoutEqual? at hwithout
        split at hwithout
        · cases hwithout
          rw [punctuation?]
          · rfl
          · exact hne
        · cases hwithout
          rw [punctuation?]
          · rfl
          · exact hne
        · cases hwithout
      | none =>
        rw [punctuation?_eq_none hmark (fun rest' heq => absurd heq (hne rest')) hwithout]
        rfl

/-- Punctuation is the same in front of a text that does not start with an equality sign, and in
front of any text if something of the first text is left. -/
theorem punctuation?_append {a b : List Char} (ha : a ≠ [])
    (h : 2 ≤ a.length ∨ b.head? ≠ some '=') :
    (punctuation? (a ++ b)).map Lexeme.reading =
      ((punctuation? a).map Lexeme.reading).map fun p => (p.1, p.2 ++ b) := by
  cases a with
  | nil => exact absurd rfl ha
  | cons c rest =>
    rw [List.cons_append, punctuation?_map_reading, punctuation?_map_reading]
    cases markToken? c with
    | some t => rfl
    | none =>
      cases rest with
      | cons d rest =>
        by_cases hd : d = '='
        · subst hd
          cases withEqual? c <;> rfl
        · simp [hd, Function.comp_def]
      | nil =>
        cases b with
        | nil => cases withoutEqual? c <;> rfl
        | cons d b =>
          have hd : d ≠ '=' := by
            rintro rfl
            rcases h with hlength | hhead
            · simp at hlength
            · exact hhead rfl
          simp [hd, Function.comp_def]

/-! ## One token -/

/-- The token at the start of a text without term groups, and what is behind it. -/
def token? (text : List Char) : Option (Token × List Char) :=
  match (punctuation? text).map Lexeme.reading with
  | some reading => some reading
  | none =>
    let (sigil, afterSigil) := takeSigil text
    let (word, afterWord) := takeWord afterSigil
    if word = [] then none
    else match reserved? sigil word with
      | some token => some (token, afterWord)
      | none =>
        let (modifiers, rest) := takeModifiers afterWord
        some (.symbol ⟨sigil, String.ofList word, modifiers.map String.ofList, none⟩, rest)

theorem takeTerms_of_notMem {text : List Char} (h : '@' ∉ text) :
    takeTerms text = .ok (none, text) := by
  cases text with
  | nil => rfl
  | cons c cs =>
    rw [takeTerms]
    intro cs' heq
    injection heq with hc _
    rw [hc] at h
    exact h List.mem_cons_self

theorem suffix_takeSigil (text : List Char) : (takeSigil text).2 <:+ text :=
  ⟨_, takeSigil_append text⟩

theorem suffix_takeWord (text : List Char) : (takeWord text).2 <:+ text :=
  ⟨_, takeWord_append text⟩

theorem suffix_takeModifiers (text : List Char) : (takeModifiers text).2 <:+ text :=
  ⟨_, takeModifiers_append text⟩

/-- Wherever the text begins, this is the token that is read, or there is none. -/
theorem lexeme_of_token? {text : List Char} (hat : '@' ∉ text) (offset : Nat) (first : Char) :
    match token? text with
    | some reading => (lexeme offset first text).map Lexeme.reading = .ok reading
    | none => ∃ cause, lexeme offset first text = .error cause := by
  unfold token? lexeme
  cases hpunctuation : punctuation? text with
  | some l => rfl
  | none =>
    dsimp only [Option.map_none]
    rcases hsigil : takeSigil text with ⟨sigil, afterSigil⟩
    rcases hword : takeWord afterSigil with ⟨word, afterWord⟩
    dsimp only
    by_cases hne : word = []
    · rw [if_pos hne]
      subst hne
      exact exists_wordLexeme_eq_error hsigil hword offset first
    · have hreading := wordLexeme_map_reading hsigil hword hne offset first
      have hterms : takeTerms (takeModifiers afterWord).2 =
          .ok (none, (takeModifiers afterWord).2) := by
        apply takeTerms_of_notMem
        intro hmem
        have hafterSigil := suffix_takeSigil text
        have hafterWord := suffix_takeWord afterSigil
        rw [hsigil] at hafterSigil
        rw [hword] at hafterWord
        exact hat (hafterSigil.subset (hafterWord.subset ((suffix_takeModifiers _).subset hmem)))
      rw [if_neg hne]
      unfold wordReading at hreading
      cases hreserved : reserved? sigil word with
      | some token => simpa [hreserved] using hreading
      | none => simpa [hreserved, hterms] using hreading

theorem exists_source_of_token? {text rest : List Char} {t : Token} (hat : '@' ∉ text)
    (h : token? text = some (t, rest)) : ∃ source ≠ [], source ++ rest = text := by
  have hlexeme := lexeme_of_token? hat 0 ' '
  rw [h] at hlexeme
  cases hl : lexeme 0 ' ' text with
  | error cause =>
    rw [hl] at hlexeme
    cases hlexeme
  | ok l =>
    rw [hl] at hlexeme
    injection hlexeme with hreading
    have hrest : l.rest = rest := congrArg Prod.snd hreading
    exact ⟨l.source, l.source_ne_nil, hrest ▸ l.split⟩

theorem token?_append {a b rest : List Char} {t : Token} (hat : '@' ∉ a)
    (h : token? a = some (t, rest)) (hapart : Apart a rest b) :
    token? (a ++ b) = some (t, rest ++ b) := by
  rcases exists_source_of_token? hat h with ⟨source, hsource, hsplit⟩
  have ha : a ≠ [] := by
    intro hnil
    rw [hnil] at hsplit
    exact hsource (List.append_eq_nil_iff.1 hsplit).1
  have hpunctuation : 2 ≤ a.length ∨ b.head? ≠ some '=' := by
    cases rest with
    | nil =>
      right
      intro hhead
      exact hapart.of_head (P := (· ≠ '=')) (by decide) _ hhead rfl
    | cons c rest =>
      left
      have hpos := List.length_pos_iff.2 hsource
      rw [← hsplit, List.length_append, List.length_cons]
      omega
  unfold token? at h ⊢
  rw [punctuation?_append ha hpunctuation]
  cases hmark : (punctuation? a).map Lexeme.reading with
  | some reading =>
    rw [hmark] at h
    rcases Option.some.inj h with rfl
    rfl
  | none =>
    rw [hmark] at h
    simp only [Option.map_none] at h ⊢
    have hword : (takeWord (takeSigil a).2).1 ≠ [] := by
      intro hnil
      rw [if_pos hnil] at h
      cases h
    have hsigil : (takeSigil a).2 ≠ [] := by
      intro hnil
      rw [hnil] at hword
      exact hword rfl
    rw [takeSigil_append_of_ne (.inl hsigil)]
    rw [if_neg hword] at h
    have hsuffix := suffix_takeSigil a
    cases hreserved : reserved? (takeSigil a).1 (takeWord (takeSigil a).2).1 with
    | some token =>
      simp only [hreserved, Option.some.injEq, Prod.mk.injEq] at h
      rcases h with ⟨rfl, rfl⟩
      rw [takeWord_append_of_apart (hapart.of_suffix hsuffix (List.suffix_refl _))]
      simp only [hword, if_false, hreserved]
    | none =>
      simp only [hreserved, Option.some.injEq, Prod.mk.injEq] at h
      rcases h with ⟨rfl, rfl⟩
      rw [takeWord_append_of_apart (hapart.of_suffix hsuffix (suffix_takeModifiers _))]
      simp only [hword, if_false, hreserved]
      rw [takeModifiers_append_of_apart (hapart.of_suffix
        ((suffix_takeWord _).trans hsuffix) (List.suffix_refl _))]

/-- If no token can be read, then none can be in front of a character that ends every token. -/
theorem token?_append_eq_none {a b : List Char} (ha : a ≠ []) (hbreak : BreaksOff b)
    (h : token? a = none) : token? (a ++ b) = none := by
  have hpunctuation : b.head? ≠ some '=' := by
    intro hhead
    exact absurd (hbreak _ hhead) (by decide)
  unfold token? at h ⊢
  rw [punctuation?_append ha (.inr hpunctuation)]
  cases hmark : (punctuation? a).map Lexeme.reading with
  | some reading =>
    rw [hmark] at h
    cases h
  | none =>
    rw [hmark] at h
    simp only [Option.map_none] at h ⊢
    have hword : (takeWord (takeSigil a).2).1 = [] := by
      by_contra hne
      rw [if_neg hne] at h
      cases hreserved : reserved? (takeSigil a).1 (takeWord (takeSigil a).2).1 with
      | some token => simp [hreserved] at h
      | none => simp [hreserved] at h
    rw [takeSigil_append_of_ne (.inr hbreak), takeWord_append_of_apart (.inl hbreak)]
    simp only [hword, if_true]

/-! ## Texts -/

/-- What is read of a text does not depend on where it begins. -/
theorem lexes_of_scan {offset : Nat} {text : List Char} {placed : List PlacedToken}
    (hat : '@' ∉ text) (h : scan offset text = .ok placed) :
    Lexes text (placed.map (·.token)) := by
  fun_induction scan offset text generalizing placed with
  | case1 =>
    cases h
    exact .nil
  | case2 offset c cs hc ih => exact .blank hc (ih (fun hmem => hat (by simp [hmem])) h)
  | case3 => cases h
  | case4 => cases h
  | case5 offset c cs hc l hl tokens hscan ih =>
    cases h
    have hreading : token? (c :: cs) = some (l.token, l.rest) := by
      have hlexeme := lexeme_of_token? hat offset c
      cases htoken : token? (c :: cs) with
      | none =>
        rw [htoken, hl] at hlexeme
        rcases hlexeme with ⟨cause, hcause⟩
        cases hcause
      | some reading =>
        rw [htoken, hl] at hlexeme
        injection hlexeme with hreading
        rw [← hreading]
        rfl
    have hrest : '@' ∉ l.rest := by
      intro hmem
      apply hat
      rw [← l.split]
      exact List.mem_append_right _ hmem
    apply Lexes.token (by simpa using hc) _ (ih hrest hscan)
    intro offset'
    have hlexeme := lexeme_of_token? hat offset' c
    rw [hreading] at hlexeme
    exact hlexeme

theorem Lexes.unique {text : List Char} {ts ts' : List Token} (h : Lexes text ts)
    (h' : Lexes text ts') : ts = ts' := by
  rcases h 0 with ⟨placed, hscan, rfl⟩
  rcases h' 0 with ⟨placed', hscan', rfl⟩
  rcases Except.ok.inj (hscan.symm.trans hscan') with rfl
  rfl

theorem lexes_nil_iff {ts : List Token} : Lexes [] ts ↔ ts = [] := by
  constructor
  · intro h
    exact h.unique .nil
  · rintro rfl
    exact .nil

theorem lexes_blank_iff {c : Char} {cs : List Char} {ts : List Token} (hat : '@' ∉ cs)
    (hc : isBlank c = true) : Lexes (c :: cs) ts ↔ Lexes cs ts := by
  constructor
  · intro h
    rcases h 0 with ⟨placed, hscan, rfl⟩
    rw [scan, if_pos hc] at hscan
    exact lexes_of_scan hat hscan
  · exact .blank hc

theorem lexes_token_iff {c : Char} {cs : List Char} {ts : List Token} (hat : '@' ∉ c :: cs)
    (hc : isBlank c = false) :
    Lexes (c :: cs) ts ↔
      ∃ t rest ts', token? (c :: cs) = some (t, rest) ∧ ts = t :: ts' ∧ Lexes rest ts' := by
  constructor
  · intro h
    rcases h 0 with ⟨placed, hscan, rfl⟩
    rw [scan, if_neg (by simp [hc])] at hscan
    have hlexeme := lexeme_of_token? hat 0 c
    cases htoken : token? (c :: cs) with
    | none =>
      rw [htoken] at hlexeme
      rcases hlexeme with ⟨cause, hcause⟩
      rw [hcause] at hscan
      cases hscan
    | some reading =>
      rw [htoken] at hlexeme
      cases hl : lexeme 0 c (c :: cs) with
      | error cause =>
        rw [hl] at hscan
        cases hscan
      | ok l =>
        rw [hl] at hscan hlexeme
        injection hlexeme with hreading
        dsimp only at hscan
        cases hmore : scan (0 + byteLength l.source) l.rest with
        | error cause =>
          rw [hmore] at hscan
          cases hscan
        | ok more =>
          rw [hmore] at hscan
          cases hscan
          have hrest : '@' ∉ l.rest := by
            intro hmem
            apply hat
            rw [← l.split]
            exact List.mem_append_right _ hmem
          exact ⟨l.token, l.rest, more.map (·.token), by rw [← hreading]; rfl, rfl,
            lexes_of_scan hrest hmore⟩
  · intro h
    rcases h with ⟨t, rest, ts', htoken, rfl, hrest⟩
    apply Lexes.token hc _ hrest
    intro offset
    have hlexeme := lexeme_of_token? hat offset c
    rw [htoken] at hlexeme
    exact hlexeme

/-- Induction over the tokens of a text without term groups. -/
theorem Lexes.induction_on {motive : List Char → List Token → Prop} {a : List Char}
    {ts : List Token} (h : Lexes a ts) (hat : '@' ∉ a) (nil : motive [] [])
    (blank : ∀ c cs ts, isBlank c = true → motive cs ts → motive (c :: cs) ts)
    (token : ∀ c cs t rest ts, '@' ∉ c :: cs → isBlank c = false →
      token? (c :: cs) = some (t, rest) → Lexes rest ts → motive rest ts →
        motive (c :: cs) (t :: ts)) :
    motive a ts := by
  induction hn : a.length using Nat.strong_induction_on generalizing a ts with
  | h n ih =>
    cases a with
    | nil =>
      rw [lexes_nil_iff.1 h]
      exact nil
    | cons c cs =>
      have hcs : '@' ∉ cs := fun hmem => hat (List.mem_cons_of_mem c hmem)
      cases hc : isBlank c with
      | true =>
        have hlength : cs.length < n := by
          rw [← hn, List.length_cons]
          exact Nat.lt_succ_self _
        exact blank c cs ts hc (ih _ hlength ((lexes_blank_iff hcs hc).1 h) hcs rfl)
      | false =>
        rcases (lexes_token_iff hat hc).1 h with ⟨t, rest, ts', htoken, rfl, hrest⟩
        rcases exists_source_of_token? hat htoken with ⟨source, hsource, hsplit⟩
        have hlength : rest.length < n := by
          have hpos := List.length_pos_iff.2 hsource
          rw [← hn, ← hsplit, List.length_append]
          omega
        have hrestAt : '@' ∉ rest := by
          intro hmem
          apply hat
          rw [← hsplit]
          exact List.mem_append_right _ hmem
        exact token c cs t rest ts' hat hc htoken hrest (ih _ hlength hrest hrestAt rfl)

theorem Lexes.append {a b : List Char} {ts us : List Token} (hat : '@' ∉ a ++ b)
    (ha : Lexes a ts) (hb : Lexes b us) (h : BreaksOff b ∨ EndsInWord a ∧ StartsWithMark b) :
    Lexes (a ++ b) (ts ++ us) := by
  rw [List.mem_append, not_or] at hat
  revert h
  apply ha.induction_on hat.1
  · intro _
    exact hb
  · intro c cs ts hc ih h
    exact .blank hc (ih (h.imp_right fun ⟨hword, hmark⟩ =>
      ⟨hword.of_suffix (List.suffix_cons c cs), hmark⟩))
  · intro c cs t rest ts hatCs hc htoken _ ih h
    rcases exists_source_of_token? hatCs htoken with ⟨source, -, hsplit⟩
    have hsuffix : rest <:+ c :: cs := ⟨source, hsplit⟩
    have hapart : Apart (c :: cs) rest b :=
      h.imp_right fun ⟨hword, hmark⟩ => ⟨hword, .inr hmark⟩
    have hwhole : '@' ∉ c :: (cs ++ b) := by
      rw [← List.cons_append, List.mem_append, not_or]
      exact ⟨hatCs, hat.2⟩
    apply (lexes_token_iff hwhole hc).2
    refine ⟨t, rest ++ b, ts ++ us, token?_append hatCs htoken hapart, rfl, ih ?_⟩
    exact h.imp_right fun ⟨hword, hmark⟩ => ⟨hword.of_suffix hsuffix, hmark⟩

theorem Lexes.exists_of_append {a b : List Char} {ts : List Token} (hat : '@' ∉ a ++ b)
    (hbreak : BreaksOff b) (h : Lexes (a ++ b) ts) :
    ∃ ta tb, Lexes a ta ∧ Lexes b tb ∧ ts = ta ++ tb := by
  induction hn : a.length using Nat.strong_induction_on generalizing a ts with
  | h n ih =>
    cases a with
    | nil => exact ⟨[], ts, .nil, h, rfl⟩
    | cons c cs =>
      have htail : '@' ∉ cs ++ b := fun hmem => hat (List.mem_cons_of_mem c hmem)
      cases hc : isBlank c with
      | true =>
        have hlength : cs.length < n := by
          rw [← hn, List.length_cons]
          exact Nat.lt_succ_self _
        rcases ih _ hlength htail ((lexes_blank_iff htail hc).1 h) rfl with
          ⟨ta, tb, ha, hb, rfl⟩
        exact ⟨ta, tb, .blank hc ha, hb, rfl⟩
      | false =>
        have hatCs : '@' ∉ c :: cs := fun hmem => hat (List.mem_append_left b hmem)
        rcases (lexes_token_iff hat hc).1 h with ⟨t, rest, ts', htoken, rfl, hrest⟩
        have htoken : token? ((c :: cs) ++ b) = some (t, rest) := htoken
        cases hfirst : token? (c :: cs) with
        | none =>
          rw [token?_append_eq_none (List.cons_ne_nil c cs) hbreak hfirst] at htoken
          cases htoken
        | some reading =>
          rcases exists_source_of_token? hatCs hfirst with ⟨source, hsource, hsplit⟩
          have hlength : reading.2.length < n := by
            have hpos := List.length_pos_iff.2 hsource
            rw [← hn, ← hsplit, List.length_append]
            omega
          rw [token?_append hatCs hfirst (.inl hbreak)] at htoken
          injection htoken with hreading
          injection hreading with ht hrest'
          have hatRest : '@' ∉ reading.2 ++ b := by
            intro hmem
            apply hat
            rw [← hsplit, List.append_assoc]
            exact List.mem_append_right _ hmem
          rw [← hrest'] at hrest
          rcases ih _ hlength hatRest hrest rfl with ⟨ta, tb, ha, hb, rfl⟩
          refine ⟨t :: ta, tb, ?_, hb, rfl⟩
          exact (lexes_token_iff hatCs hc).2 ⟨t, reading.2, ta, by rw [hfirst, ← ht], rfl, ha⟩

/-- In front of a character at which every token ends, a text is lexed by itself. -/
theorem lexes_append_iff {a b : List Char} {ts : List Token} (hat : '@' ∉ a ++ b)
    (hbreak : BreaksOff b) :
    Lexes (a ++ b) ts ↔ ∃ ta tb, Lexes a ta ∧ Lexes b tb ∧ ts = ta ++ tb := by
  constructor
  · exact fun h => h.exists_of_append hat hbreak
  · intro h
    rcases h with ⟨ta, tb, ha, hb, rfl⟩
    exact ha.append hat hb (.inl hbreak)

/-- The token of a character at which every token ends. -/
def breakTokens : Char → List Token
  | '(' => [.leftParen]
  | ')' => [.rightParen]
  | ',' => [.comma]
  | '+' => [.operator .add]
  | _ => []

theorem lexes_break_iff {c : Char} {b : List Char} {ts : List Token} (hat : '@' ∉ b)
    (hc : isBreak c = true) :
    Lexes (c :: b) ts ↔ ∃ tb, Lexes b tb ∧ ts = breakTokens c ++ tb := by
  have hblank {c : Char} (hc : isBlank c = true) (hnil : breakTokens c = []) :
      Lexes (c :: b) ts ↔ ∃ tb, Lexes b tb ∧ ts = breakTokens c ++ tb := by
    rw [lexes_blank_iff hat hc, hnil]
    simp
  have hmark {c : Char} {t : Token} (hc : c ≠ '@' ∧ isBlank c = false)
      (htoken : token? (c :: b) = some (t, b)) (ht : breakTokens c = [t]) :
      Lexes (c :: b) ts ↔ ∃ tb, Lexes b tb ∧ ts = breakTokens c ++ tb := by
    have hwhole : '@' ∉ c :: b := by
      rw [List.mem_cons, not_or]
      exact ⟨hc.1.symm, hat⟩
    rw [lexes_token_iff hwhole hc.2, htoken, ht]
    constructor
    · intro h
      rcases h with ⟨t', rest, ts', hreading, rfl, hrest⟩
      cases hreading
      exact ⟨ts', hrest, rfl⟩
    · intro h
      rcases h with ⟨tb, hb, rfl⟩
      exact ⟨t, b, tb, rfl, rfl, hb⟩
  apply of_isBreak
    (P := fun c => Lexes (c :: b) ts ↔ ∃ tb, Lexes b tb ∧ ts = breakTokens c ++ tb) hc
  exact ⟨hblank rfl rfl, hblank rfl rfl, hblank rfl rfl, hblank rfl rfl,
    hmark (by decide) rfl rfl, hmark (by decide) rfl rfl, hmark (by decide) rfl rfl,
    hmark (by decide) rfl rfl⟩

theorem breaksOff_cons {c : Char} (hc : isBreak c = true) (cs : List Char) :
    BreaksOff (c :: cs) := by
  intro d hd
  rcases Option.some.inj hd with rfl
  exact hc

/-- A part of a text between two characters at which every token ends. -/
theorem lexes_between_iff {a part b : List Char} {ts us : List Token} {c d : Char}
    (hat : '@' ∉ a ++ (part ++ b)) (hfirst : part.head? = some c) (hc : isBreak c = true)
    (hlast : part.getLast? = some d) (hd : isBreak d = true) (hpart : Lexes part us) :
    Lexes (a ++ (part ++ b)) ts ↔
      ∃ ta tb, Lexes a ta ∧ Lexes b tb ∧ ts = ta ++ (us ++ tb) := by
  have hatRest : '@' ∉ part ++ b := fun hmem => hat (List.mem_append_right a hmem)
  have hbreak : BreaksOff (part ++ b) := by
    intro c' hc'
    rw [List.head?_append, hfirst] at hc'
    rcases Option.some.inj hc' with rfl
    exact hc
  have hmiddle (ts : List Token) : Lexes (part ++ b) ts ↔ ∃ tb, Lexes b tb ∧ ts = us ++ tb := by
    rcases List.getLast?_eq_some_iff.1 hlast with ⟨front, rfl⟩
    have hatB : '@' ∉ d :: b := by
      intro hmem
      apply hatRest
      rw [List.append_assoc]
      exact List.mem_append_right front hmem
    have hatFront : '@' ∉ front ++ [d] := fun hmem => hatRest (List.mem_append_left b hmem)
    rcases (lexes_append_iff hatFront (breaksOff_cons hd [])).1 hpart with
      ⟨ta, td, ha, htd, rfl⟩
    rcases (lexes_break_iff List.not_mem_nil hd).1 htd with ⟨tnil, hnil, rfl⟩
    rw [lexes_nil_iff.1 hnil, List.append_assoc, List.singleton_append,
      lexes_append_iff (by simpa using hatRest) (breaksOff_cons hd b)]
    constructor
    · intro h
      rcases h with ⟨ta', tdb, ha', hdb, rfl⟩
      rcases (lexes_break_iff (fun hmem => hatB (List.mem_cons_of_mem d hmem)) hd).1 hdb with
        ⟨tb, hb, rfl⟩
      exact ⟨tb, hb, by rw [ha'.unique ha]; simp⟩
    · intro h
      rcases h with ⟨tb, hb, rfl⟩
      refine ⟨ta, breakTokens d ++ tb, ha, ?_, by simp⟩
      exact (lexes_break_iff (fun hmem => hatB (List.mem_cons_of_mem d hmem)) hd).2 ⟨tb, hb, rfl⟩
  rw [lexes_append_iff hat hbreak]
  simp only [hmiddle]
  constructor
  · intro h
    rcases h with ⟨ta, tm, ha, ⟨tb, hb, rfl⟩, rfl⟩
    exact ⟨ta, tb, ha, hb, rfl⟩
  · intro h
    rcases h with ⟨ta, tb, ha, hb, rfl⟩
    exact ⟨ta, us ++ tb, ha, ⟨tb, hb, rfl⟩, rfl⟩

end TopdownMetrics.Formula

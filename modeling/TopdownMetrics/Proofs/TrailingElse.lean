import TopdownMetrics.Proofs.LexedParts
import TopdownMetrics.Proofs.ZeroTerms

/-!
# Texts that end with `else`

Behind the word `else` a token ends at a blank or at punctuation, but not at a word: where one
follows directly, the two are a single longer word.  So the tokens of a text that ends with `else`
are told apart by their last one, which is the word itself unless the letters belong to a name.
-/

namespace TopdownMetrics.Formula

/-! ## What stands behind a token -/

theorem takeWord_takeWord (text : List Char) :
    takeWord (takeWord text).2 = ([], (takeWord text).2) := by
  fun_induction takeWord text with
  | case1 => rfl
  | case2 => rfl
  | case3 c hc => simp [takeWord, hc]
  | case4 c d rest hc word rest' heq ih =>
    rw [heq] at ih
    exact ih
  | case5 c d rest hc hpair word rest' heq ih =>
    rw [heq] at ih
    exact ih
  | case6 c d rest hc hpair => simp [takeWord, hc, hpair]

theorem not_isWordChar_behind_word {text rest : List Char} {c : Char}
    (h : (takeWord text).2 = c :: rest) : isWordChar c = false := by
  cases hc : isWordChar c with
  | false => rfl
  | true =>
    have hnil := takeWord_takeWord text
    rw [h, takeWord_char hc] at hnil
    cases congrArg Prod.fst hnil

theorem not_isModifierChar_behind_modifiers {text rest : List Char} {c : Char}
    (h : (takeModifiers text).2 = c :: rest) :
    isModifierChar c = false ∨ (takeModifiers text).2 = text := by
  fun_induction takeModifiers text with
  | case1 d rest' hd modifiers more heq ih =>
    rw [heq] at ih
    left
    rcases ih h with hc | hsame
    · exact hc
    · have hhead := List.head?_dropWhile_not isModifierChar rest'
      dsimp only at h hsame
      rw [← hsame, h] at hhead
      simpa using hhead
  | case2 => exact .inr rfl
  | case3 => exact .inr rfl

/-- A token is punctuation, a reserved word, or an operand; and no word goes on behind it. -/
theorem token?_cases {text rest : List Char} {t : Token} (h : token? text = some (t, rest)) :
    (∃ l : Lexeme text, punctuation? text = some l ∧ l.rest = rest) ∨
    (∃ word, takeSigil text = (.bare, text) ∧ takeWord text = (word, rest) ∧
      keyword? word = some t) ∨
    t.isOperand = true ∧
      ∀ c cs, rest = c :: cs → isWordChar c = false ∨ isModifierChar c = false := by
  unfold token? at h
  cases hmark : punctuation? text with
  | some l =>
    rw [hmark] at h
    rcases Option.some.inj h with ⟨rfl, rfl⟩
    exact .inl ⟨l, rfl, rfl⟩
  | none =>
    right
    rw [hmark] at h
    simp only [Option.map_none] at h
    have hword : (takeWord (takeSigil text).2).1 ≠ [] := by
      intro hnil
      rw [if_pos hnil] at h
      cases h
    rw [if_neg hword] at h
    have hbehind (c : Char) (cs : List Char) (hrest : (takeWord (takeSigil text).2).2 = c :: cs) :
        isWordChar c = false ∨ isModifierChar c = false :=
      .inl (not_isWordChar_behind_word hrest)
    cases hreserved : reserved? (takeSigil text).1 (takeWord (takeSigil text).2).1 with
    | none =>
      simp only [hreserved, Option.some.injEq, Prod.mk.injEq] at h
      rcases h with ⟨rfl, rfl⟩
      refine .inr ⟨rfl, fun c cs hrest => ?_⟩
      rcases not_isModifierChar_behind_modifiers hrest with hc | hsame
      · exact .inr hc
      · exact hbehind c cs (hsame ▸ hrest)
    | some token =>
      simp only [hreserved, Option.some.injEq, Prod.mk.injEq] at h
      rcases h with ⟨rfl, rfl⟩
      unfold reserved? at hreserved
      split_ifs at hreserved with hsigil hnumeral
      · rcases Option.some.inj hreserved with rfl
        exact .inr ⟨rfl, hbehind⟩
      · have hbare : (takeSigil text).1 = .bare := by simpa using hsigil
        have htext : takeSigil text = (.bare, text) := by
          have happend := takeSigil_append text
          rw [hbare] at happend
          exact Prod.ext hbare happend
        rw [htext] at hreserved ⊢
        exact .inl ⟨_, rfl, rfl, hreserved⟩

theorem not_endsInWord_of_punctuation? {text : List Char} {l : Lexeme text}
    (h : punctuation? text = some l) : ∀ c ∈ l.source.getLast?, isWordChar c = false := by
  fun_cases punctuation? text
  all_goals
    rw [punctuation?] at h
    · cases h <;> simp <;> decide
    all_goals assumption

/-! ## The word at the end -/

def elseText : List Char :=
  ['e', 'l', 's', 'e']

theorem keyword?_elseText_append {word : List Char} (h : word ≠ []) :
    keyword? (elseText ++ word) = none := by
  cases word with
  | nil => exact absurd rfl h
  | cons c cs => simp [keyword?, elseText]

/-- In front of a word the four letters are the start of a longer one. -/
theorem exists_operand_of_else_append {b : List Char} {ts : List Token} (hat : '@' ∉ b)
    (hb : (takeWord b).1 ≠ []) (h : Lexes (elseText ++ b) ts) :
    ∃ t ts', ts = t :: ts' ∧ t.isOperand = true := by
  have hatElse : '@' ∉ elseText ++ b := by simpa [elseText] using hat
  rcases (lexes_token_iff hatElse rfl).1 h with ⟨t, rest, ts', htoken, rfl, -⟩
  have htoken : token? (elseText ++ b) = some (t, rest) := htoken
  refine ⟨t, ts', rfl, ?_⟩
  rcases token?_cases htoken with ⟨l, hl, -⟩ | ⟨word, -, hword, hkeyword⟩ | ⟨hoperand, -⟩
  · have hnone : punctuation? (elseText ++ b) = none :=
      punctuation?_eq_none rfl (fun _ _ => rfl) rfl
    rw [hnone] at hl
    cases hl
  · have hlonger : takeWord (elseText ++ b) = (elseText ++ (takeWord b).1, (takeWord b).2) := by
      simp only [elseText, List.cons_append, List.nil_append]
      rw [takeWord_char rfl, takeWord_char rfl, takeWord_char rfl, takeWord_char rfl]
    rw [hlonger] at hword
    injection hword with hword
    rw [← hword, keyword?_elseText_append hb] at hkeyword
    cases hkeyword
  · exact hoperand

theorem eq_nil_of_keyword?_append_else {a : List Char} {t : Token}
    (h : keyword? (a ++ elseText) = some t) : a = [] ∧ t = .elseWord := by
  have hlength (word : List Char) (heq : a ++ elseText = word) : a.length + 4 = word.length := by
    rw [← heq, List.length_append]
    rfl
  unfold keyword? at h
  split_ifs at h with hif helse hand hor
  · have hif := hlength _ hif
    simp at hif
  · have helse := hlength _ helse
    exact ⟨List.length_eq_zero_iff.1 (by simpa using helse), (Option.some.inj h).symm⟩
  · have hand := hlength _ hand
    simp at hand
  · have hor := hlength _ hor
    simp at hor

/-- A token that reaches into the word at the end of a text is the last one. -/
theorem token?_reaching_else {a inner rest : List Char} {t : Token} (hinner : inner ≠ [])
    (helse : inner ++ rest = elseText) (h : token? (a ++ elseText) = some (t, rest)) :
    rest = [] ∧ (t.isOperand = true ∨ a = [] ∧ t = .elseWord) := by
  have hletters : ∀ c ∈ elseText, isWordChar c = true ∧ isModifierChar c = true := by
    rw [← List.forall_iff_forall_mem]
    decide
  have hbehind (c : Char) (cs : List Char) (hrest : rest = c :: cs) :
      isWordChar c = true ∧ isModifierChar c = true := by
    apply hletters
    rw [← helse, hrest]
    exact List.mem_append_right inner List.mem_cons_self
  rcases token?_cases h with ⟨l, hl, hrest⟩ | ⟨word, -, hword, hkeyword⟩ | ⟨hoperand, hrest⟩
  · have hsource : l.source = a ++ inner := by
      have hsplit : l.source ++ rest = a ++ inner ++ rest := by
        rw [List.append_assoc, helse, ← hrest]
        exact l.split
      exact List.append_cancel_right hsplit
    cases hlast : inner.getLast? with
    | none => exact absurd (List.getLast?_eq_none_iff.1 hlast) hinner
    | some c =>
      have hword : isWordChar c = false := by
        apply not_endsInWord_of_punctuation? hl
        rw [hsource, List.getLast?_append, hlast]
        rfl
      have hmem : c ∈ elseText := by
        rw [← helse]
        exact List.mem_append_left rest (List.mem_of_getLast? hlast)
      rw [(hletters c hmem).1] at hword
      cases hword
  · have hnil : rest = [] := by
      cases hrest : rest with
      | nil => rfl
      | cons c cs =>
        have hafter : (takeWord (a ++ elseText)).2 = c :: cs := by rw [hword, hrest]
        have hc := not_isWordChar_behind_word hafter
        rw [(hbehind c cs hrest).1] at hc
        cases hc
    refine ⟨hnil, .inr ?_⟩
    have hsplit := takeWord_append (a ++ elseText)
    rw [hword, hnil, List.append_nil] at hsplit
    dsimp only at hsplit
    rw [hsplit] at hkeyword
    exact eq_nil_of_keyword?_append_else hkeyword
  · refine ⟨?_, .inl hoperand⟩
    cases hcs : rest with
    | nil => rfl
    | cons c cs =>
      rcases hrest c cs hcs with hc | hc
      · rw [(hbehind c cs hcs).1] at hc
        cases hc
      · rw [(hbehind c cs hcs).2] at hc
        cases hc

/-- The last token of a text `a` with `else` behind it is that word or an operand.  If it is the
word, then an operand stands in its place as soon as another word follows. -/
def ElseEnds (a : List Char) (ts : List Token) : Prop :=
  ∃ front last, ts = front ++ [last] ∧ (last.isOperand = true ∨ last = .elseWord ∧
    ∀ b us, '@' ∉ b → (takeWord b).1 ≠ [] → Lexes (a ++ (elseText ++ b)) us →
      ∃ t us', us = front ++ t :: us' ∧ t.isOperand = true)

theorem ElseEnds.blank {a : List Char} {ts : List Token} {c : Char} (h : ElseEnds a ts)
    (hat : '@' ∉ a) (hc : isBlank c = true) : ElseEnds (c :: a) ts := by
  rcases h with ⟨front, last, rfl, hlast⟩
  refine ⟨front, last, rfl, hlast.imp_right fun ⟨helse, hword⟩ => ⟨helse, ?_⟩⟩
  intro b us hatB hb hus
  have hatWhole : '@' ∉ a ++ (elseText ++ b) := by
    simp [elseText, hat, hatB]
  exact hword b us hatB hb ((lexes_blank_iff hatWhole hc).1 hus)

theorem ElseEnds.token {a : List Char} {ts : List Token} {c : Char} {cs : List Char} {t : Token}
    (h : ElseEnds a ts) (hat : '@' ∉ c :: cs) (hc : isBlank c = false)
    (htoken : token? (c :: (cs ++ elseText)) = some (t, a ++ elseText)) :
    ElseEnds (c :: cs) (t :: ts) := by
  rcases h with ⟨front, last, rfl, hlast⟩
  refine ⟨t :: front, last, rfl, hlast.imp_right fun ⟨helse, hword⟩ => ⟨helse, ?_⟩⟩
  intro b us hatB hb hus
  have hatFront : '@' ∉ c :: (cs ++ elseText) := by
    rw [← List.cons_append, List.mem_append, not_or]
    exact ⟨hat, by decide⟩
  have hatWhole : '@' ∉ c :: (cs ++ (elseText ++ b)) := by
    rw [← List.append_assoc, ← List.cons_append, List.mem_append, not_or]
    exact ⟨hatFront, hatB⟩
  have hapart : Apart (c :: (cs ++ elseText)) (a ++ elseText) b := by
    right
    constructor
    · intro d hd
      rw [← List.cons_append, List.getLast?_append] at hd
      rcases Option.some.inj hd with rfl
      rfl
    · left
      simp [elseText]
  rcases (lexes_token_iff hatWhole hc).1 hus with ⟨t', rest, us', htoken', rfl, hrest⟩
  have happend := token?_append hatFront htoken hapart
  rw [List.cons_append, List.append_assoc, htoken'] at happend
  injection happend with hreading
  injection hreading with ht hrest'
  rw [hrest', List.append_assoc] at hrest
  rcases hword b us' hatB hb hrest with ⟨t'', us'', rfl, hoperand⟩
  exact ⟨t'', us'', by rw [ht]; rfl, hoperand⟩

theorem Lexes.elseEnds {a : List Char} {ts : List Token} (hat : '@' ∉ a)
    (h : Lexes (a ++ elseText) ts) : ElseEnds a ts := by
  have hatElse : '@' ∉ a ++ elseText := by simpa [elseText] using hat
  generalize htext : a ++ elseText = text at h hatElse
  revert a
  apply h.induction_on hatElse
  · intro a _ htext
    simp [elseText] at htext
  · intro c cs ts hc ih a hat htext
    cases a with
    | nil =>
      rcases List.cons.inj htext with ⟨rfl, -⟩
      cases hc
    | cons d a =>
      rcases List.cons.inj htext with ⟨rfl, htail⟩
      have hatA : '@' ∉ a := fun hmem => hat (List.mem_cons_of_mem d hmem)
      exact (ih hatA htail).blank hatA hc
  · intro c cs t rest ts hatCs hc htoken hrest ih a hat htext
    rcases exists_source_of_token? hatCs htoken with ⟨source, hsource, hsplit⟩
    rw [← htext] at hsplit htoken
    -- Either the token ends in front of the word, or it reaches into it.
    have hbefore (inner : List Char) (ha : a = source ++ inner)
        (hinner : inner ++ elseText = rest) : ElseEnds a (t :: ts) := by
      have hatInner : '@' ∉ inner := by
        intro hmem
        apply hat
        rw [ha]
        exact List.mem_append_right source hmem
      have hmore := ih hatInner hinner
      cases a with
      | nil => exact absurd (List.append_eq_nil_iff.1 ha.symm).1 hsource
      | cons d a =>
        rcases List.cons.inj htext with ⟨rfl, -⟩
        rw [← hinner] at htoken
        exact hmore.token hat hc htoken
    rcases List.append_eq_append_iff.1 hsplit with ⟨inner, ha, hinner⟩ | ⟨inner, ha, hinner⟩
    · exact hbefore inner ha hinner.symm
    · by_cases hnil : inner = []
      · rw [hnil] at ha hinner
        exact hbefore [] (by rw [ha]; simp) hinner
      · rcases token?_reaching_else hnil hinner.symm htoken with ⟨hrest', hlast⟩
        rw [hrest'] at hrest
        rw [lexes_nil_iff.1 hrest]
        refine ⟨[], t, rfl, hlast.imp_right fun ⟨ha, helse⟩ => ⟨helse, ?_⟩⟩
        rw [ha]
        intro b us hatB hb hus
        exact exists_operand_of_else_append hatB hb hus

end TopdownMetrics.Formula

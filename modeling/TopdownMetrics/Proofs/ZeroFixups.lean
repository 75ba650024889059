import TopdownMetrics.Proofs.Rendering
import TopdownMetrics.Proofs.Replacing
import TopdownMetrics.Proofs.SimplifiedValue
import TopdownMetrics.Proofs.TrailingElse
import TopdownMetrics.Rules.Builtin

/-!
# The fixups that drop zeros

Five of the common fixups take out a literal zero and the sign next to it.  Four of them replace
texts between characters at which every token ends, so that exactly these tokens are taken out.  The
fifth leaves the word `else` in front of whatever followed the sign: where that is a word without a
blank before it, the two become one word, and what remains is no formula.
-/

namespace TopdownMetrics.Formula

variable {R : Expr → Expr → Prop} {e : Expr}

/-! ## Texts that read as a tree -/

theorem parse_eq_ok_iff_lexes {text : String} {e : Expr} (hat : '@' ∉ text.toList) :
    parse text = .ok e ↔ ∃ d : Derivation .cond, Lexes text.toList d.tokens ∧ d.tree = e := by
  constructor
  · intro h
    rcases exists_derivation_of_parse h with ⟨placed, htokenize, d, htokens, htree, -⟩
    exact ⟨d, htokens ▸ lexes_of_scan hat htokenize, htree⟩
  · intro h
    rcases h with ⟨d, hlexes, rfl⟩
    rcases hlexes 0 with ⟨placed, hscan, htokens⟩
    rw [parse, tokenize, hscan]
    exact d.parseTokens_eq_ok htokens

theorem lexes_of_tokens {text : List Char} {ts : List Token} (hat : '@' ∉ text)
    (h : (scan 0 text).map (List.map (·.token)) = .ok ts) : Lexes text ts := by
  cases hscan : scan 0 text with
  | error cause =>
    rw [hscan] at h
    cases h
  | ok placed =>
    rw [hscan] at h
    rcases Except.ok.inj h with rfl
    exact lexes_of_scan hat hscan

/-- The text has a tree, to which the given one is related. -/
def ReadsAs (R : Expr → Expr → Prop) (e : Expr) (text : List Char) : Prop :=
  '@' ∉ text ∧ ∃ d : Derivation .cond, Lexes text d.tokens ∧ R e d.tree

theorem readsAs_iff {text : String} :
    ReadsAs R e text.toList ↔ '@' ∉ text.toList ∧ ∃ f, parse text = .ok f ∧ R e f := by
  constructor
  · intro h
    rcases h with ⟨hat, d, hlexes, htree⟩
    exact ⟨hat, d.tree, (parse_eq_ok_iff_lexes hat).2 ⟨d, hlexes, rfl⟩, htree⟩
  · intro h
    rcases h with ⟨hat, f, hparse, htree⟩
    rcases (parse_eq_ok_iff_lexes hat).1 hparse with ⟨d, hlexes, rfl⟩
    exact ⟨hat, d, hlexes, htree⟩

/-! ## Replacing a part of a text -/

/-- What becomes of a text in which a pattern is replaced from left to right. -/
inductive Replaced (pattern replacement : List Char) : List Char → List Char → Prop
  | nil : Replaced pattern replacement [] []
  | here {cs cs' : List Char} (h : Replaced pattern replacement cs cs') :
      Replaced pattern replacement (pattern ++ cs) (replacement ++ cs')
  | next {c : Char} {cs cs' : List Char} (hc : ¬ pattern <+: c :: cs)
      (h : Replaced pattern replacement cs cs') : Replaced pattern replacement (c :: cs) (c :: cs')

theorem replaced_replaceFrom {pattern : List Char} (hpattern : pattern ≠ [])
    (replacement cs : List Char) :
    Replaced pattern replacement cs (Text.replaceFrom pattern replacement 0 cs) := by
  induction hn : cs.length using Nat.strong_induction_on generalizing cs with
  | h n ih =>
    cases cs with
    | nil => exact .nil
    | cons c cs =>
      rw [List.length_cons] at hn
      by_cases hprefix : pattern <+: c :: cs
      · rcases hprefix with ⟨rest, hrest⟩
        have hlength : rest.length < n := by
          have hlengths := congrArg List.length hrest
          have hpos := List.length_pos_iff.2 hpattern
          simp only [List.length_append, List.length_cons] at hlengths
          omega
        rw [← hrest, Text.replaceFrom_pattern_append hpattern]
        exact .here (ih _ hlength rest rfl)
      · rw [Text.replaceFrom_cons hprefix]
        exact .next hprefix (ih _ (by omega) cs rfl)

theorem Replaced.preserves_behind {pattern replacement cs cs' : List Char}
    {motive : List Char → Prop} (h : Replaced pattern replacement cs cs') (before : List Char)
    (hstep : ∀ before behind, pattern ++ behind <:+ cs → motive (before ++ (pattern ++ behind)) →
      motive (before ++ (replacement ++ behind)))
    (hmotive : motive (before ++ cs)) : motive (before ++ cs') := by
  induction h generalizing before with
  | nil => exact hmotive
  | @here cs cs' h ih =>
    have hreplaced := hstep before cs (List.suffix_refl _) hmotive
    rw [← List.append_assoc] at hreplaced ⊢
    apply ih _ _ hreplaced
    intro before' behind hsuffix
    exact hstep before' behind (hsuffix.trans (List.suffix_append pattern cs))
  | @next c cs cs' hc h ih =>
    rw [List.append_cons] at hmotive ⊢
    apply ih _ _ hmotive
    intro before' behind hsuffix
    exact hstep before' behind (hsuffix.trans (List.suffix_cons c cs))

/-- What each single replacement keeps is kept by all of them. -/
theorem Replaced.preserves {pattern replacement cs cs' : List Char} {motive : List Char → Prop}
    (h : Replaced pattern replacement cs cs')
    (hstep : ∀ before behind, pattern ++ behind <:+ cs → motive (before ++ (pattern ++ behind)) →
      motive (before ++ (replacement ++ behind)))
    (hmotive : motive cs) : motive cs' := by
  rw [← List.nil_append cs] at hmotive
  rw [← List.nil_append cs']
  exact h.preserves_behind [] hstep hmotive

theorem Replaced.notMem {pattern replacement cs cs' : List Char} {c : Char}
    (h : Replaced pattern replacement cs cs') (hreplacement : c ∉ replacement) (hcs : c ∉ cs) :
    c ∉ cs' := by
  induction h with
  | nil => exact hcs
  | here h ih =>
    rw [List.mem_append, not_or] at hcs ⊢
    exact ⟨hreplacement, ih hcs.2⟩
  | next hc h ih =>
    rw [List.mem_cons, not_or] at hcs ⊢
    exact ⟨hcs.1, ih hcs.2⟩

theorem replaced_apply {f : Fixup} (hpattern : f.pattern.toList ≠ []) (text : String) :
    Replaced f.pattern.toList f.replacement.toList text.toList (f.apply text).toList := by
  rw [Fixup.apply, Text.replace, String.toList_ofList, Text.replaceAll, if_neg hpattern]
  exact replaced_replaceFrom hpattern _ _

/-! ## Fixups between characters at which every token ends -/

/-- The text stands between such characters, and is read as these tokens. -/
structure IsPart (text : List Char) (ts : List Token) : Prop where
  first : ∃ c, text.head? = some c ∧ isBreak c = true
  last : ∃ c, text.getLast? = some c ∧ isBreak c = true
  at_notMem : '@' ∉ text
  lexes : Lexes text ts

theorem IsPart.lexes_iff {part a b : List Char} {us ts : List Token} (h : IsPart part us)
    (ha : '@' ∉ a) (hb : '@' ∉ b) :
    Lexes (a ++ (part ++ b)) ts ↔ ∃ ta tb, Lexes a ta ∧ Lexes b tb ∧ ts = ta ++ (us ++ tb) := by
  rcases h.first with ⟨c, hfirst, hc⟩
  rcases h.last with ⟨d, hlast, hd⟩
  have hat : '@' ∉ a ++ (part ++ b) := by
    simp only [List.mem_append, not_or]
    exact ⟨ha, h.at_notMem, hb⟩
  exact lexes_between_iff hat hfirst hc hlast hd h.lexes

theorem isPart_of_scan {text : List Char} {ts : List Token} {c d : Char} (hat : '@' ∉ text)
    (hfirst : text.head? = some c) (hc : isBreak c = true) (hlast : text.getLast? = some d)
    (hd : isBreak d = true) (h : (scan 0 text).map (List.map (·.token)) = .ok ts) :
    IsPart text ts :=
  ⟨⟨c, hfirst, hc⟩, ⟨d, hlast, hd⟩, hat, lexes_of_tokens hat h⟩

/-- The fixup takes a zero term out of any tokens in which its pattern is. -/
structure IsZeroPatch (f : Fixup) (us vs : List Token) : Prop where
  pattern : IsPart f.pattern.toList us
  replacement : IsPart f.replacement.toList vs
  zeroTerm : ∀ ta tb, ∃ l p q r, ZeroTerm l p q r ∧
    ta ++ (us ++ tb) = l ++ p :: q :: r ∧ ta ++ (vs ++ tb) = l ++ r

/-- The common fixups that drop zeros. -/
def zeroFixups : List Fixup :=
  Rules.Builtin.commonFixups.drop 5

theorem zeroFixups_eq : zeroFixups =
    [⟨"(0 + ", "("⟩, ⟨" + 0)", ")"⟩, ⟨"+ 0 +", "+"⟩, ⟨", 0 +", ","⟩, ⟨"else 0 +", "else"⟩] :=
  rfl

theorem exists_isZeroPatch {f : Fixup} (hf : f ∈ zeroFixups.take 4) :
    ∃ us vs, IsZeroPatch f us vs := by
  have hfront {m : Token} (hm : m = .leftParen ∨ m = .comma) (ta tb : List Token) :
      ∃ l p q r, ZeroTerm l p q r ∧
        ta ++ ([m, .num "0", .operator .add] ++ tb) = l ++ p :: q :: r ∧
        ta ++ ([m] ++ tb) = l ++ r := by
    refine ⟨ta ++ [m], .num "0", .operator .add, tb, .first ?_, by simp, by simp⟩
    intro t ht
    rw [List.getLast?_concat] at ht
    rcases Option.some.inj ht with rfl
    exact hm.imp_right .inl
  have hback {m : Token} (hm : m = .rightParen ∨ m = .operator .add) (ta tb : List Token) :
      ∃ l p q r, ZeroTerm l p q r ∧
        ta ++ ([.operator .add, .num "0", m] ++ tb) = l ++ p :: q :: r ∧
        ta ++ ([m] ++ tb) = l ++ r := by
    refine ⟨ta, .operator .add, .num "0", m :: tb, .later ?_, by simp, by simp⟩
    intro t ht
    rcases Option.some.inj ht with rfl
    exact hm
  simp only [zeroFixups_eq, List.take_succ_cons, List.take_zero, List.mem_cons,
    List.not_mem_nil, or_false] at hf
  rcases hf with rfl | rfl | rfl | rfl
  · exact ⟨_, _, isPart_of_scan (by decide) rfl rfl rfl rfl (by decide +kernel),
      isPart_of_scan (by decide) rfl rfl rfl rfl (by decide +kernel), hfront (.inl rfl)⟩
  · exact ⟨_, _, isPart_of_scan (by decide) rfl rfl rfl rfl (by decide +kernel),
      isPart_of_scan (by decide) rfl rfl rfl rfl (by decide +kernel), hback (.inl rfl)⟩
  · exact ⟨_, _, isPart_of_scan (by decide) rfl rfl rfl rfl (by decide +kernel),
      isPart_of_scan (by decide) rfl rfl rfl rfl (by decide +kernel), hback (.inr rfl)⟩
  · exact ⟨_, _, isPart_of_scan (by decide) rfl rfl rfl rfl (by decide +kernel),
      isPart_of_scan (by decide) rfl rfl rfl rfl (by decide +kernel), hfront (.inr rfl)⟩

theorem ReadsAs.patch (hR : DropsZeroTerms R) {f : Fixup} {us vs : List Token}
    (hf : IsZeroPatch f us vs) {a b : List Char}
    (h : ReadsAs R e (a ++ (f.pattern.toList ++ b))) :
    ReadsAs R e (a ++ (f.replacement.toList ++ b)) := by
  rcases h with ⟨hat, d, hlexes, htree⟩
  simp only [List.mem_append, not_or] at hat
  rcases (hf.pattern.lexes_iff hat.1 hat.2.2).1 hlexes with ⟨ta, tb, ha, hb, htokens⟩
  rcases hf.zeroTerm ta tb with ⟨l, p, q, r, hzero, hwhole, hrest⟩
  rcases d.exists_without_zeroTerm hR hzero (htokens.trans hwhole) with ⟨d', htokens', htree'⟩
  constructor
  · simp only [List.mem_append, not_or]
    exact ⟨hat.1, hf.replacement.at_notMem, hat.2.2⟩
  · refine ⟨d', ?_, hR.trans htree htree'⟩
    rw [htokens', ← hrest]
    exact (hf.replacement.lexes_iff hat.1 hat.2.2).2 ⟨ta, tb, ha, hb, rfl⟩

theorem ReadsAs.apply (hR : DropsZeroTerms R) {f : Fixup} {us vs : List Token}
    (hf : IsZeroPatch f us vs) {text : String} (h : ReadsAs R e text.toList) :
    ReadsAs R e (f.apply text).toList := by
  have hpattern : f.pattern.toList ≠ [] := by
    rcases hf.pattern.first with ⟨c, hfirst, -⟩
    intro hnil
    rw [hnil] at hfirst
    cases hfirst
  apply (replaced_apply hpattern text).preserves (motive := ReadsAs R e) _ h
  intro a b _ hab
  exact hab.patch hR hf

theorem ReadsAs.applyAll (hR : DropsZeroTerms R) {fs : List Fixup}
    (hfs : ∀ f ∈ fs, ∃ us vs, IsZeroPatch f us vs) {text : String}
    (h : ReadsAs R e text.toList) : ReadsAs R e (Fixup.applyAll fs text).toList := by
  induction fs generalizing text with
  | nil => exact h
  | cons f fs ih =>
    rcases hfs f List.mem_cons_self with ⟨us, vs, hf⟩
    apply ih
    · exact fun g hg => hfs g (List.mem_cons_of_mem f hg)
    · exact h.apply hR hf

/-! ## The fixup behind which a word can run on -/

def elseZero : List Char :=
  elseText ++ [' ', '0', ' ', '+']

theorem isPart_zero : IsPart [' ', '0', ' ', '+'] [.num "0", .operator .add] :=
  isPart_of_scan (by decide) rfl rfl rfl rfl (by decide +kernel)

/-- A formula in which a zero stands behind `else`, taken apart.  The tokens in front of the word
end with `last`. -/
structure ElseSplit (a b : List Char) (tokens front : List Token) (last : Token)
    (behind : List Token) : Prop where
  tokens : tokens = front ++ last :: .elseWord :: .num "0" :: .operator .add :: behind
  closes : last.closes = true
  ne_nil : behind ≠ []
  opens : ∀ t ∈ behind.head?, t.opens = true
  lexes_before : Lexes (a ++ elseText) (front ++ [last, .elseWord])
  lexes_behind : Lexes b behind
  /-- As soon as a word follows directly, an operand stands in the place of `else`. -/
  word : ∀ c us, '@' ∉ c → (takeWord c).1 ≠ [] → Lexes (a ++ (elseText ++ c)) us →
    ∃ t us', us = front ++ last :: t :: us' ∧ t.isOperand = true

theorem exists_elseSplit {a b : List Char} {d : Derivation .cond}
    (hat : '@' ∉ a ++ (elseZero ++ b)) (h : Lexes (a ++ (elseZero ++ b)) d.tokens) :
    ∃ front last behind, ElseSplit a b d.tokens front last behind := by
  have hsplit : a ++ (elseZero ++ b) = a ++ elseText ++ ([' ', '0', ' ', '+'] ++ b) := by
    simp [elseZero]
  simp only [List.mem_append, not_or] at hat
  have hatFront : '@' ∉ a ++ elseText := by
    rw [List.mem_append, not_or]
    exact ⟨hat.1, by decide⟩
  rw [hsplit] at h
  rcases (isPart_zero.lexes_iff hatFront hat.2.2).1 h with ⟨ta, tb, ha, hb, htokens⟩
  have hphrase := d.isPhrase_tokens
  rcases Lexes.elseEnds hat.1 ha with ⟨front, last, rfl, hlast⟩
  rw [List.append_assoc, List.singleton_append, List.cons_append] at htokens
  rw [htokens] at hphrase
  -- Behind an operand there would be no number.
  have hzero : last.isOperand = false := by
    cases hoperand : last.isOperand with
    | false => rfl
    | true =>
      have hadjoins := hphrase.adjoins
      simp [Token.adjoins, Token.closes_of_isOperand hoperand, Token.isOperand] at hadjoins
  rcases hlast.resolve_left (by simp [hzero]) with ⟨rfl, hword⟩
  rcases List.eq_nil_or_concat front with rfl | ⟨front, last, rfl⟩
  · exact absurd (hphrase.opens _ rfl) (by decide)
  · simp only [List.concat_eq_append, List.append_assoc, List.singleton_append]
      at htokens hphrase ha hword
    refine ⟨front, last, tb, htokens, ?_, ?_, ?_, ha, hb, hword⟩
    · have hadjoins := hphrase.adjoins
      cases hcloses : last.closes with
      | true => rfl
      | false => simp [Token.adjoins, hcloses, Token.opens] at hadjoins
    · rintro rfl
      have hend := hphrase.closes (.operator .add) (by simp)
      cases hend
    · intro t ht
      rcases List.head?_eq_some_iff.1 ht with ⟨ts, rfl⟩
      rw [List.append_cons, List.append_cons, List.append_cons] at hphrase
      simpa [Token.adjoins, Token.closes] using hphrase.adjoins

theorem head_of_opens {c : Char} {cs rest : List Char} {t : Token}
    (h : (punctuation? (c :: cs)).map Lexeme.reading = some (t, rest)) (hopens : t.opens = true) :
    c = '(' ∨ c = '-' := by
  rw [punctuation?_map_reading] at h
  cases hmark : markToken? c with
  | some t' =>
    rw [hmark] at h
    rcases Option.some.inj h with ⟨rfl, rfl⟩
    unfold markToken? at hmark
    split at hmark <;> cases hmark <;> first | exact .inl rfl | exact .inr rfl | cases hopens
  | none =>
    rw [hmark] at h
    dsimp only at h
    split at h
    · rcases Option.map_eq_some_iff.1 h with ⟨t', hwith, heq⟩
      cases heq
      unfold withEqual? at hwith
      split at hwith <;> cases hwith <;> cases hopens
    · rcases Option.map_eq_some_iff.1 h with ⟨t', hwithout, heq⟩
      cases heq
      unfold withoutEqual? at hwithout
      split at hwithout <;> cases hwithout <;> cases hopens

/-- What a formula starts with: a character at which every token ends, a mark, or a word. -/
theorem breaksOff_or_startsWithMark {b : List Char} {t : Token} {ts : List Token} (hat : '@' ∉ b)
    (h : Lexes b (t :: ts)) (hopens : t.opens = true) (hword : (takeWord b).1 = []) :
    BreaksOff b ∨ StartsWithMark b := by
  cases b with
  | nil => cases lexes_nil_iff.1 h
  | cons c cs =>
    cases hblank : isBlank c with
    | true => exact .inl (breaksOff_cons (by simp [isBreak, hblank]) cs)
    | false =>
      rcases (lexes_token_iff hat hblank).1 h with ⟨t', rest, ts', htoken, heq, -⟩
      rcases List.cons.inj heq with ⟨rfl, -⟩
      unfold token? at htoken
      cases hmark : (punctuation? (c :: cs)).map Lexeme.reading with
      | some reading =>
        rw [hmark] at htoken
        rcases Option.some.inj htoken with rfl
        rcases head_of_opens hmark hopens with rfl | rfl
        · exact .inl (breaksOff_cons rfl cs)
        · exact .inr ⟨'-', cs, rfl, .inl rfl⟩
      | none =>
        by_cases hc : c = '#'
        · exact .inr ⟨c, cs, rfl, .inr hc⟩
        · have hsigil : takeSigil (c :: cs) = (.bare, c :: cs) := by simp [takeSigil, hc]
          simp [hmark, hsigil, hword] at htoken

theorem ReadsAs.patchElse (hR : DropsZeroTerms R) {a b : List Char} (hword : (takeWord b).1 = [])
    (h : ReadsAs R e (a ++ (elseZero ++ b))) : ReadsAs R e (a ++ (elseText ++ b)) := by
  rcases h with ⟨hat, d, hlexes, htree⟩
  rcases exists_elseSplit hat hlexes with ⟨front, last, behind, hsplit⟩
  have hzero : ZeroTerm (front ++ [last, .elseWord]) (.num "0") (.operator .add) behind :=
    .first (by simp)
  rcases d.exists_without_zeroTerm hR hzero (by rw [hsplit.tokens]; simp) with
    ⟨d', htokens', htree'⟩
  simp only [List.mem_append, not_or] at hat
  have hat' : '@' ∉ a ++ (elseText ++ b) := by
    simp only [List.mem_append, not_or]
    exact ⟨hat.1, by decide, hat.2.2⟩
  refine ⟨hat', d', ?_, hR.trans htree htree'⟩
  have hends : EndsInWord (a ++ elseText) := by
    intro c hc
    rw [List.getLast?_append] at hc
    rcases Option.some.inj hc with rfl
    rfl
  have hstart : BreaksOff b ∨ StartsWithMark b := by
    rcases List.exists_cons_of_ne_nil hsplit.ne_nil with ⟨t, ts, hbehind⟩
    apply breaksOff_or_startsWithMark hat.2.2 (hbehind ▸ hsplit.lexes_behind) _ hword
    exact hsplit.opens t (by rw [hbehind]; rfl)
  rw [← List.append_assoc] at hat' ⊢
  rw [htokens']
  exact hsplit.lexes_before.append hat' hsplit.lexes_behind (hstart.imp_right fun h => ⟨hends, h⟩)

/-- With a word directly behind it, `else` runs on into that word, and there is no formula. -/
theorem ElseSplit.not_lexes {a b c : List Char} {tokens front behind : List Token} {last : Token}
    (h : ElseSplit a b tokens front last behind) (hat : '@' ∉ c) (hword : (takeWord c).1 ≠ [])
    (d : Derivation .cond) : ¬ Lexes (a ++ (elseText ++ c)) d.tokens := by
  intro hlexes
  rcases h.word c _ hat hword hlexes with ⟨t, us, htokens, hoperand⟩
  have hphrase := d.isPhrase_tokens
  rw [htokens] at hphrase
  have hadjoins := hphrase.adjoins
  simp [Token.adjoins, h.closes, hoperand] at hadjoins

/-- A word stands directly behind the sign of a zero that stands behind `else`. -/
def RunsOn (text : List Char) : Prop :=
  ∃ behind, elseZero ++ behind <:+ text ∧ (takeWord behind).1 ≠ []

namespace RunsOn

variable {c : Char} {cs : List Char}

theorem tail (h : RunsOn (c :: cs)) (hc : ¬ elseZero <+: c :: cs) : RunsOn cs := by
  rcases h with ⟨behind, hsuffix, hword⟩
  rcases List.suffix_cons_iff.1 hsuffix with heq | hsuffix
  · exact absurd ⟨behind, heq⟩ hc
  · exact ⟨behind, hsuffix, hword⟩

/-- The pattern does not overlap with itself. -/
theorem behind (h : RunsOn (elseZero ++ cs)) : (takeWord cs).1 ≠ [] ∨ RunsOn cs := by
  have hoverlap : ∀ inner ∈ elseZero.tails, inner.take 2 <+: elseZero →
      inner = [] ∨ inner = elseZero := by
    decide
  rcases h with ⟨behind, ⟨before, hsplit⟩, hword⟩
  rcases List.append_eq_append_iff.1 hsplit with ⟨inner, hzero, hinner⟩ | ⟨inner, -, hinner⟩
  · have hprefix : inner.take 2 <+: elseZero := by
      have hfront : inner <+: elseZero ++ behind := ⟨cs, hinner.symm⟩
      apply List.prefix_of_prefix_length_le ((inner.take_prefix 2).trans hfront)
        (List.prefix_append elseZero behind)
      exact (List.length_take_le 2 inner).trans (by decide)
    rcases hoverlap inner ((List.mem_tails _ _).2 ⟨before, hzero.symm⟩) hprefix with rfl | rfl
    · exact .inr ⟨behind, ⟨[], hinner⟩, hword⟩
    · rw [← List.append_cancel_left hinner]
      exact .inl hword
  · exact .inr ⟨behind, ⟨inner, hinner.symm⟩, hword⟩

end RunsOn

/-- Whether a text starts with a word is told from two characters. -/
theorem takeWord_ne_nil_iff {text : List Char} :
    (takeWord text).1 ≠ [] ↔
      (∃ c cs, text = c :: cs ∧ isWordChar c = true) ∨ ∃ cs, text = '\\' :: '-' :: cs := by
  fun_cases takeWord text <;> simp_all

namespace Replaced

variable {cs cs' : List Char}

theorem takeWord_ne_nil (h : Replaced elseZero elseText cs cs') (hword : (takeWord cs).1 ≠ []) :
    (takeWord cs').1 ≠ [] := by
  rw [takeWord_ne_nil_iff] at hword ⊢
  cases h with
  | nil => exact hword
  | here h => exact .inl ⟨'e', _, rfl, rfl⟩
  | next hc h =>
    rcases hword with ⟨d, ds, heq, hd⟩ | ⟨ds, heq⟩
    · rcases List.cons.inj heq with ⟨rfl, -⟩
      exact .inl ⟨_, _, rfl, hd⟩
    · rcases List.cons.inj heq with ⟨rfl, rfl⟩
      generalize htail : '-' :: ds = tail at h
      cases h with
      | nil => cases htail
      | here h => cases htail
      | next hc h =>
        rcases List.cons.inj htail with ⟨rfl, -⟩
        exact .inr ⟨_, rfl⟩

theorem apply_else (text : String) :
    Replaced elseZero elseText text.toList (Fixup.apply ⟨"else 0 +", "else"⟩ text).toList := by
  have hpattern : "else 0 +".toList = elseZero := by decide
  have hreplacement : "else".toList = elseText := by decide
  rw [← hpattern, ← hreplacement]
  exact replaced_apply (f := ⟨"else 0 +", "else"⟩) (by simp) text

/-- The first of the words that run on is where the formula ends. -/
theorem not_lexes (hR : DropsZeroTerms R) (h : Replaced elseZero elseText cs cs')
    {before : List Char} (hreads : ReadsAs R e (before ++ cs)) (hruns : RunsOn cs)
    (d : Derivation .cond) : ¬ Lexes (before ++ cs') d.tokens := by
  induction h generalizing before with
  | nil =>
    rcases hruns with ⟨behind, hsuffix, -⟩
    cases List.suffix_nil.1 hsuffix
  | next hc h ih =>
    rw [List.append_cons] at hreads ⊢
    exact ih hreads (hruns.tail hc)
  | @here cs cs' h ih =>
    by_cases hword : (takeWord cs).1 = []
    · have hpatched := hreads.patchElse hR hword
      rw [← List.append_assoc] at hpatched ⊢
      exact ih hpatched (hruns.behind.resolve_left (not_not.2 hword))
    · rcases hreads with ⟨hat, d', hlexes, -⟩
      rcases exists_elseSplit hat hlexes with ⟨front, last, behind, hsplit⟩
      simp only [List.mem_append, not_or] at hat
      exact hsplit.not_lexes (h.notMem (by decide) hat.2.2) (h.takeWord_ne_nil hword) d

end Replaced

/-! ## All of them -/

def SameValue (e f : Expr) : Prop :=
  ∀ (ι : Interpretation) (call : String → List ℚ → ℚ) (symbols : Symbol → ℚ),
    e.valueWith ι call symbols = f.valueWith ι call symbols

theorem dropsZeroTerms_sameValue : DropsZeroTerms SameValue where
  refl _ _ _ _ := rfl
  trans h h' ι call symbols := (h ι call symbols).trans (h' ι call symbols)
  neg h ι call symbols := congruence_valueWith.neg (h ι call symbols)
  binary op _ _ _ _ h h' ι call symbols :=
    congruence_valueWith.binary op (h ι call symbols) (h' ι call symbols)
  call function _ _ h ι call symbols :=
    congruence_valueWith.call function (h.imp fun _ _ h => h ι call symbols)
  cond h h' h'' ι call symbols :=
    congruence_valueWith.cond (h ι call symbols) (h' ι call symbols) (h'' ι call symbols)
  paren h ι call symbols := congruence_valueWith.paren (h ι call symbols)
  zero_add e ι call symbols := by
    rw [Expr.valueWith, Expr.valueWith, number_zero]
    exact zero_add _
  add_zero e ι call symbols := by
    rw [Expr.valueWith, Expr.valueWith, number_zero]
    exact add_zero _

theorem applyAll_zeroFixups (text : String) :
    Fixup.applyAll zeroFixups text =
      Fixup.apply ⟨"else 0 +", "else"⟩ (Fixup.applyAll (zeroFixups.take 4) text) :=
  rfl

/-- The first four fixups keep the value of every formula.  The fifth leaves a formula, with the
same value, if and only if no word runs on behind it. -/
theorem parse_zeroFixups {text : String} {e : Expr} (hat : '@' ∉ text.toList)
    (h : parse text = .ok e) :
    (∃ f, parse (Fixup.applyAll (zeroFixups.take 4) text) = .ok f ∧ SameValue e f) ∧
    ((∃ f, parse (Fixup.applyAll zeroFixups text) = .ok f) ↔
      ¬ RunsOn (Fixup.applyAll (zeroFixups.take 4) text).toList) ∧
    ∀ f, parse (Fixup.applyAll zeroFixups text) = .ok f → SameValue e f := by
  have hR := dropsZeroTerms_sameValue
  have hreads : ReadsAs SameValue e text.toList := readsAs_iff.2 ⟨hat, e, h, hR.refl e⟩
  have hfour := hreads.applyAll hR fun f hf => exists_isZeroPatch hf
  have hreplaced := Replaced.apply_else (Fixup.applyAll (zeroFixups.take 4) text)
  rw [applyAll_zeroFixups]
  generalize Fixup.applyAll (zeroFixups.take 4) text = four at hfour hreplaced ⊢
  refine ⟨(readsAs_iff.1 hfour).2, ?_⟩
  by_cases hruns : RunsOn four.toList
  · have hnone (f : Expr) : parse (Fixup.apply ⟨"else 0 +", "else"⟩ four) ≠ .ok f := by
      intro hparse
      have hat' := hreplaced.notMem (by decide) hfour.1
      rcases (parse_eq_ok_iff_lexes hat').1 hparse with ⟨d, hlexes, -⟩
      rw [← List.nil_append four.toList] at hfour
      rw [← List.nil_append (Fixup.apply _ four).toList] at hlexes
      exact hreplaced.not_lexes hR hfour hruns d hlexes
    constructor
    · simp [hruns, hnone]
    · intro f hparse
      exact absurd hparse (hnone f)
  · have hlast : ReadsAs SameValue e (Fixup.apply ⟨"else 0 +", "else"⟩ four).toList := by
      apply hreplaced.preserves (motive := ReadsAs SameValue e) _ hfour
      intro before behind hsuffix hbefore
      apply hbefore.patchElse hR
      by_contra hword
      exact hruns ⟨behind, hsuffix, hword⟩
    rcases (readsAs_iff.1 hlast).2 with ⟨f, hparse, hsame⟩
    constructor
    · exact ⟨fun _ => hruns, fun _ => ⟨f, hparse⟩⟩
    · intro f' hparse'
      rcases Except.ok.inj (hparse.symm.trans hparse') with rfl
      exact hsame

/-- A zero in each of the five places. -/
def zerosText : String :=
  "max(0 + A, 0 + B) + 0 + C if (D + 0) else 0 + E"

def zerosTree : Expr :=
  let zero (name : String) : Expr := .binary .add (.num "0") (.symbol (.bare name))
  .cond
    (.binary .add (.binary .add (.call "max" [zero "A", zero "B"]) (.num "0"))
      (.symbol (.bare "C")))
    (.paren (.binary .add (.symbol (.bare "D")) (.num "0")))
    (zero "E")

def droppedTree : Expr :=
  .cond
    (.binary .add (.call "max" [.symbol (.bare "A"), .symbol (.bare "B")]) (.symbol (.bare "C")))
    (.paren (.symbol (.bare "D")))
    (.symbol (.bare "E"))

theorem sameValue_droppedTree :
    '@' ∉ zerosText.toList ∧ parse zerosText = .ok zerosTree ∧
      Fixup.applyAll zeroFixups zerosText = "max(A, B) + C if (D) else E" ∧
      SameValue zerosTree droppedTree := by
  have hat : '@' ∉ zerosText.toList := by decide
  have hparse : parse zerosText = .ok zerosTree :=
    parse_eq_ok_of_tokens (by decide +kernel) (by decide) (by decide)
  have htext : Fixup.applyAll zeroFixups zerosText = "max(A, B) + C if (D) else E" := by
    decide +kernel
  have hdropped : parse (Fixup.applyAll zeroFixups zerosText) = .ok droppedTree := by
    rw [htext]
    exact parse_eq_ok_of_tokens (by decide +kernel) (by decide) (by decide)
  exact ⟨hat, hparse, htext, (parse_zeroFixups hat hparse).2.2 droppedTree hdropped⟩

/-- A name directly behind the sign is joined to the word `else`. -/
theorem parse_joined_else :
    parse "A if B else 0 +C" =
        .ok (.cond (.symbol (.bare "A")) (.symbol (.bare "B"))
          (.binary .add (.num "0") (.symbol (.bare "C")))) ∧
      Fixup.applyAll zeroFixups "A if B else 0 +C" = "A if B elseC" ∧
      parse "A if B elseC" = .error (.unexpectedToken "elseC" 7) := by
  refine ⟨?_, by decide +kernel, ?_⟩
  · exact parse_eq_ok_of_tokens (by decide +kernel) (by decide) (by decide)
  · have htokenize : tokenize "A if B elseC" =
        .ok [⟨.symbol (.bare "A"), 0⟩, ⟨.ifWord, 2⟩, ⟨.symbol (.bare "B"), 5⟩,
          ⟨.symbol (.bare "elseC"), 7⟩] := by
      decide +kernel
    rw [parse, htokenize]
    cbv

end TopdownMetrics.Formula

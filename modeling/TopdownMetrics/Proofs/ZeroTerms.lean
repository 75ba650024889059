import TopdownMetrics.Proofs.Precedence
import TopdownMetrics.Proofs.Rewriting

/-!
# Zero terms

The tokens of a formula follow one another in a certain way: an operand is never followed by
another one, and whatever is no operand is followed by the start of one.  Among them a literal zero
and the sign next to it may be left out, if the two are a whole term of a sum: the tokens that
remain derive the sum without this term.
-/

namespace TopdownMetrics.Formula

/-! ## Which tokens follow one another -/

namespace Token

def isOperand : Token → Bool
  | .num _ | .symbol _ => true
  | _ => false

/-- The tokens with which formulas start. -/
def opens : Token → Bool
  | .num _ | .symbol _ | .leftParen | .operator .sub => true
  | _ => false

/-- The tokens with which formulas end. -/
def closes : Token → Bool
  | .num _ | .symbol _ | .rightParen => true
  | _ => false

/-- The second token may follow the first.  The parentheses are those of a call without
arguments. -/
def adjoins (t t' : Token) : Bool :=
  if t.closes then !t'.isOperand else t'.opens || (t == .leftParen && t' == .rightParen)

theorem closes_of_isOperand {t : Token} (h : t.isOperand = true) : t.closes = true := by
  cases t <;> first | rfl | cases h

theorem adjoins_of_closes {t t' : Token} (ht : t.closes = true) (ht' : t'.closes = false) :
    t.adjoins t' = true := by
  cases t' with
  | num text => cases ht'
  | symbol s => cases ht'
  | _ => simp [adjoins, ht, isOperand]

theorem adjoins_of_opens {t t' : Token} (ht : t.closes = false) (ht' : t'.opens = true) :
    t.adjoins t' = true := by
  simp [adjoins, ht, ht']

end Token

/-- The tokens could be those of a formula, as far as neighbours are concerned. -/
structure IsPhrase (ts : List Token) : Prop where
  ne_nil : ts ≠ []
  opens : ∀ t ∈ ts.head?, t.opens = true
  closes : ∀ t ∈ ts.getLast?, t.closes = true
  chain : ts.IsChain fun t t' => t.adjoins t' = true

namespace IsPhrase

variable {ts ts' : List Token} {m : Token}

theorem adjoins {t t' : Token} (h : IsPhrase (ts ++ t :: t' :: ts')) : t.adjoins t' = true :=
  (List.isChain_append_cons_cons.1 h.chain).2.1

theorem cons (h : IsPhrase ts) (hopens : m.opens = true)
    (hadjoins : ∀ t ∈ ts.head?, m.adjoins t = true) : IsPhrase (m :: ts) where
  ne_nil := List.cons_ne_nil m ts
  opens := by simpa using hopens
  closes := by
    rw [List.getLast?_cons_of_ne_nil h.ne_nil]
    exact h.closes
  chain := List.isChain_cons.2 ⟨hadjoins, h.chain⟩

theorem concat_rightParen (h : IsPhrase ts) : IsPhrase (ts ++ [.rightParen]) where
  ne_nil := by simp
  opens := by
    rw [List.head?_append_of_ne_nil _ h.ne_nil]
    exact h.opens
  closes := by simp [Token.closes]
  chain := by
    apply h.chain.append (List.isChain_singleton _)
    intro t ht t' ht'
    have hcloses := h.closes t ht
    rcases Option.some.inj ht' with rfl
    simp [Token.adjoins, hcloses, Token.isOperand]

theorem parens (h : IsPhrase ts) : IsPhrase (.leftParen :: (ts ++ [.rightParen])) := by
  apply h.concat_rightParen.cons rfl
  intro t ht
  exact Token.adjoins_of_opens rfl (h.concat_rightParen.opens t ht)

/-- A token between two formulas, such as an operator. -/
theorem join (h : IsPhrase ts) (h' : IsPhrase ts') (hm : m.closes = false) :
    IsPhrase (ts ++ m :: ts') where
  ne_nil := by simp
  opens := by
    rw [List.head?_append_of_ne_nil _ h.ne_nil]
    exact h.opens
  closes := by
    rw [List.getLast?_append_cons, List.getLast?_cons_of_ne_nil h'.ne_nil]
    exact h'.closes
  chain := by
    apply h.chain.append
    · apply List.isChain_cons.2
      constructor
      · intro t ht
        exact Token.adjoins_of_opens hm (h'.opens t ht)
      · exact h'.chain
    · intro t ht t' ht'
      rcases Option.some.inj ht' with rfl
      exact Token.adjoins_of_closes (h.closes t ht) hm

end IsPhrase

mutual

theorem Derivation.isPhrase_tokens {n : Nonterminal} (d : Derivation n) : IsPhrase d.tokens := by
  match d with
  | .plain logic => exact logic.isPhrase_tokens
  | .choice chosen condition otherwise =>
    exact chosen.isPhrase_tokens.join
      (condition.isPhrase_tokens.join otherwise.isPhrase_tokens rfl) rfl
  | .single operand => exact operand.isPhrase_tokens
  | .chain front op last _ _ => exact front.isPhrase_tokens.join last.isPhrase_tokens rfl
  | .compare lhs op rhs _ => exact lhs.isPhrase_tokens.join rhs.isPhrase_tokens rfl
  | .minus operand =>
    apply operand.isPhrase_tokens.cons rfl
    intro t ht
    exact Token.adjoins_of_opens rfl (operand.isPhrase_tokens.opens t ht)
  | .primary operand => exact operand.isPhrase_tokens
  | .number _ | .symbol _ =>
    exact ⟨List.cons_ne_nil _ _, by simp [Derivation.tokens, Token.opens],
      by simp [Derivation.tokens, Token.closes], List.isChain_singleton _⟩
  | .emptyCall _ =>
    exact ⟨List.cons_ne_nil _ _, by simp [Derivation.tokens, Token.opens],
      by simp [Derivation.tokens, Token.closes], by
        simp [Derivation.tokens, Token.adjoins, Token.closes, Token.isOperand]⟩
  | .call function arguments =>
    apply arguments.isPhrase_tokens.parens.cons rfl
    simp [Token.adjoins, Token.closes, Token.isOperand]
  | .parens inner => exact inner.isPhrase_tokens.parens

theorem ArgumentDerivation.isPhrase_tokens (ds : ArgumentDerivation) : IsPhrase ds.tokens := by
  match ds with
  | .last argument => exact argument.isPhrase_tokens
  | .more argument others => exact argument.isPhrase_tokens.join others.isPhrase_tokens rfl

end

/-! ## Numbers at an end -/

theorem operator_before_number_of_join {ts us l : List Token} {op : BinaryOp} {text : String}
    (hne : us ≠ [])
    (ih : ∀ l', us = l' ++ [.num text] → ∀ t ∈ l'.getLast?, ∃ op, t = .operator op)
    (h : ts ++ .operator op :: us = l ++ [.num text]) :
    ∀ t ∈ l.getLast?, ∃ op, t = .operator op := by
  rcases List.eq_nil_or_concat us with hnil | ⟨l', t', hus⟩
  · exact absurd hnil hne
  · rw [List.concat_eq_append] at hus
    rw [hus, ← List.cons_append, ← List.append_assoc] at h
    rcases List.append_inj' h rfl with ⟨hl, ht'⟩
    rw [ht'] at hus
    rw [← hl, List.getLast?_append_cons, List.getLast?_cons]
    intro t ht
    cases hl' : l'.getLast? with
    | none =>
      rw [hl'] at ht
      exact ⟨op, (Option.some.inj ht).symm⟩
    | some last =>
      rw [hl'] at ht
      rcases Option.some.inj ht with rfl
      exact ih l' hus _ hl'

/-- A number at the end of a formula that is no conditional stands alone or behind an operator. -/
theorem Derivation.operator_before_number {n : Nonterminal} (d : Derivation n) (hn : n ≠ .cond)
    {text : String} {l : List Token} (h : d.tokens = l ++ [.num text]) :
    ∀ t ∈ l.getLast?, ∃ op, t = .operator op := by
  match d with
  | .plain _ => exact absurd rfl hn
  | .choice .. => exact absurd rfl hn
  | @Derivation.single level operand =>
    exact operand.operator_before_number (by cases level <;> simp [Level.operand]) h
  | @Derivation.chain level front op last _ _ =>
    apply operator_before_number_of_join last.isPhrase_tokens.ne_nil _ h
    intro l' hl'
    exact last.operator_before_number
      (by cases level <;> simp [Level.operand]) hl'
  | .compare lhs op rhs _ =>
    apply operator_before_number_of_join rhs.isPhrase_tokens.ne_nil _ h
    intro l' hl'
    exact rhs.operator_before_number (by simp) hl'
  | .minus operand =>
    rw [Derivation.tokens, ← List.nil_append (.operator .sub :: operand.tokens)] at h
    apply operator_before_number_of_join operand.isPhrase_tokens.ne_nil _ h
    intro l' hl'
    exact operand.operator_before_number (by simp) hl'
  | .primary operand => exact operand.operator_before_number (by simp) h
  | .number _ =>
    have hl : l = [] := by
      cases l with
      | nil => rfl
      | cons t l => simp [Derivation.tokens] at h
    simp [hl]
  | .symbol _ => simp [Derivation.tokens, List.singleton_eq_append_iff] at h
  | .emptyCall _ =>
    have hlast := congrArg List.getLast? h
    simp [Derivation.tokens] at hlast
  | .call _ arguments =>
    have hlast := congrArg List.getLast? h
    simp [Derivation.tokens, List.getLast?_cons] at hlast
  | .parens inner =>
    have hlast := congrArg List.getLast? h
    simp [Derivation.tokens, List.getLast?_cons] at hlast

/-- A number at the start of a term stands alone or in front of an operator of the term. -/
theorem Derivation.operator_behind_number {n : Nonterminal} (d : Derivation n)
    (hn : n.looseness ≤ 2) {text : String} {r : List Token} (h : d.tokens = .num text :: r) :
    ∀ t ∈ r.head?, ∃ op : BinaryOp, t = .operator op ∧ op.level = .multiplicative := by
  match d with
  | .plain _ => simp [Nonterminal.looseness] at hn
  | .choice .. => simp [Nonterminal.looseness] at hn
  | @Derivation.single level operand =>
    have hlt := level.looseness_operand_lt
    have hle : level.rank + 1 ≤ 2 := hn
    exact operand.operator_behind_number (by omega) h
  | @Derivation.chain level front op last hop _ =>
    rw [Derivation.tokens] at h
    rcases List.append_eq_cons_iff.1 h with ⟨hnil, -⟩ | ⟨r', hfront, hr⟩
    · exact absurd hnil front.isPhrase_tokens.ne_nil
    · have hbehind := front.operator_behind_number hn hfront
      intro t ht
      rw [hr] at ht
      cases r' with
      | nil =>
        rcases Option.some.inj ht with rfl
        refine ⟨op, rfl, (Level.mem_operators_iff.1 hop).trans ?_⟩
        cases level <;> simp [Nonterminal.looseness, Level.rank] at hn ⊢
      | cons t' r' => exact hbehind t ht
  | .compare .. => simp [Nonterminal.looseness, Level.rank] at hn
  | .minus _ => cases h
  | .primary operand => exact operand.operator_behind_number (by simp [Nonterminal.looseness]) h
  | .number _ =>
    cases h
    simp
  | .symbol _ | .emptyCall _ | .call _ _ | .parens _ => cases h

theorem Derivation.tree_of_tokens_eq_num {n : Nonterminal} {d : Derivation n} {text : String}
    (h : d.tokens = [.num text]) : d.tree = .num text := by
  rcases d.exists_widened (n := .cond) n.looseness_le_six with ⟨wide, hwide⟩
  rcases (Derivation.number text).exists_widened (n := .cond) (by simp [Nonterminal.looseness])
    with ⟨number, hnumber⟩
  have htokens : wide.tokens = number.tokens := by
    rw [← wide.tokens_tree, ← number.tokens_tree, hwide, hnumber, d.tokens_tree, h]
    rfl
  rw [← hwide, Derivation.eq_of_tokens_eq htokens, hnumber]
  rfl

/-! ## Leaving out a zero term -/

/-- A relation between trees and those in which zero terms are left out. -/
structure DropsZeroTerms (R : Expr → Expr → Prop) : Prop extends Congruence R where
  zero_add (e : Expr) : R (.binary .add (.num "0") e) e
  add_zero (e : Expr) : R (.binary .add e (.num "0")) e

/-- Two tokens, in front of `r` and behind `l`, that are a zero term and its sign. -/
inductive ZeroTerm (l : List Token) : Token → Token → List Token → Prop
  | first {r : List Token} (h : ∀ t ∈ l.getLast?, t = .leftParen ∨ t = .comma ∨ t = .elseWord) :
    ZeroTerm l (.num "0") (.operator .add) r
  | later {r : List Token} (h : ∀ t ∈ r.head?, t = .rightParen ∨ t = .operator .add) :
    ZeroTerm l (.operator .add) (.num "0") r

namespace ZeroTerm

variable {l l' r r' : List Token} {p q m : Token}

/-- A part of a formula that has the zero term sees less of what is around it. -/
theorem inner (h : ZeroTerm (l' ++ l) p q (r ++ r')) : ZeroTerm l p q r := by
  cases h with
  | first h =>
    apply first
    intro t ht
    rw [List.getLast?_append, ht] at h
    exact h t rfl
  | later h =>
    apply later
    intro t ht
    rw [List.head?_append, ht] at h
    exact h t rfl

theorem inner_left (h : ZeroTerm (l' ++ m :: l) p q r) : ZeroTerm l p q r := by
  rw [List.append_cons, ← List.append_nil r] at h
  exact h.inner

theorem inner_right (h : ZeroTerm l p q (r ++ r')) : ZeroTerm l p q r := by
  rw [← List.nil_append l] at h
  exact h.inner

theorem ne_left (h : ZeroTerm l p q r) (hnum : m ≠ .num "0") (hadd : m ≠ .operator .add) :
    m ≠ p := by
  cases h with
  | first _ => exact hnum
  | later _ => exact hadd

theorem ne_right (h : ZeroTerm l p q r) (hnum : m ≠ .num "0") (hadd : m ≠ .operator .add) :
    m ≠ q := by
  cases h with
  | first _ => exact hadd
  | later _ => exact hnum

end ZeroTerm

/-- Where two neighbours can be in a list that is put together of two parts. -/
theorem neighbours_cases {α : Type} {l r ts us : List α} {p q m : α}
    (h : ts ++ m :: us = l ++ p :: q :: r) :
    (∃ r', ts = l ++ p :: q :: r' ∧ r = r' ++ m :: us) ∨
    (ts = l ++ [p] ∧ m = q ∧ us = r) ∨ (ts = l ∧ m = p ∧ us = q :: r) ∨
    ∃ l', l = ts ++ m :: l' ∧ us = l' ++ p :: q :: r := by
  rcases List.append_eq_append_iff.1 h with ⟨behind, hl, hus⟩ | ⟨inside, hts, hrest⟩
  · cases behind with
    | nil =>
      injection hus with hm hus
      exact .inr (.inr (.inl ⟨by simpa using hl.symm, hm, hus⟩))
    | cons m' behind =>
      injection hus with hm hus
      exact .inr (.inr (.inr ⟨behind, by rw [hl, hm], hus⟩))
  · cases inside with
    | nil =>
      injection hrest with hp hus
      exact .inr (.inr (.inl ⟨by simpa using hts, hp.symm, hus.symm⟩))
    | cons p' inside =>
      injection hrest with hp hrest
      rw [← hp] at hts
      cases inside with
      | nil =>
        injection hrest with hq hus
        exact .inr (.inl ⟨hts, hq.symm, hus.symm⟩)
      | cons q' inside =>
        injection hrest with hq hrest
        exact .inl ⟨inside, by rw [hts, hq], hrest⟩

/-- The same for the tokens of two parts between which the zero term cannot be. -/
theorem ZeroTerm.cases_of_join {l r ts us : List Token} {p q m : Token} (h : ZeroTerm l p q r)
    (hnum : m ≠ .num "0") (hadd : m ≠ .operator .add) (htokens : ts ++ m :: us = l ++ p :: q :: r) :
    (∃ r', ts = l ++ p :: q :: r' ∧ r = r' ++ m :: us ∧ ZeroTerm l p q r') ∨
    ∃ l', l = ts ++ m :: l' ∧ us = l' ++ p :: q :: r ∧ ZeroTerm l' p q r := by
  rcases neighbours_cases htokens with ⟨r', hts, hr⟩ | ⟨-, hm, -⟩ | ⟨-, hm, -⟩ | ⟨l', hl, hus⟩
  · rw [hr] at h
    exact .inl ⟨r', hts, hr, h.inner_right⟩
  · exact absurd hm (h.ne_right hnum hadd)
  · exact absurd hm (h.ne_left hnum hadd)
  · rw [hl] at h
    exact .inr ⟨l', hl, hus, h.inner_left⟩

theorem ZeroTerm.exists_behind {l r us : List Token} {p q m : Token} (h : ZeroTerm l p q r)
    (hnum : m ≠ .num "0") (hadd : m ≠ .operator .add) (htokens : m :: us = l ++ p :: q :: r) :
    ∃ l', l = m :: l' ∧ us = l' ++ p :: q :: r ∧ ZeroTerm l' p q r := by
  have hjoin : [] ++ m :: us = l ++ p :: q :: r := htokens
  rcases h.cases_of_join hnum hadd hjoin with ⟨r', hnil, -⟩ | hbehind
  · exact absurd hnil.symm (by simp)
  · exact hbehind

theorem ZeroTerm.exists_inside_parens {l r ts : List Token} {p q : Token} (h : ZeroTerm l p q r)
    (htokens : .leftParen :: (ts ++ [.rightParen]) = l ++ p :: q :: r) :
    ∃ l' r', ts = l' ++ p :: q :: r' ∧ l = .leftParen :: l' ∧ r = r' ++ [.rightParen] ∧
      ZeroTerm l' p q r' := by
  rcases h.exists_behind (by simp) (by simp) htokens with ⟨l', hl, hts, h'⟩
  rcases h'.cases_of_join (by simp) (by simp) hts with ⟨r', hts, hr, h''⟩ | ⟨l'', -, hnil, -⟩
  · exact ⟨l', r', hts, hl, hr, h''⟩
  · exact absurd hnil.symm (by simp)

/-- A longer front would have an operator before the number. -/
theorem Derivation.eq_nil_of_first {n : Nonterminal} (d : Derivation n) (hn : n ≠ .cond)
    {text : String} {l : List Token} (htokens : d.tokens = l ++ [.num text])
    (h : ∀ t ∈ l.getLast?, t = .leftParen ∨ t = .comma ∨ t = .elseWord) : l = [] := by
  have hoperator := d.operator_before_number hn htokens
  cases hlast : l.getLast? with
  | none => exact List.getLast?_eq_none_iff.1 hlast
  | some t =>
    rcases hoperator t hlast with ⟨op, rfl⟩
    simpa using h _ hlast

/-- A longer operand would have an operator of the term behind the number. -/
theorem Derivation.eq_nil_of_later {n : Nonterminal} (d : Derivation n) (hn : n.looseness ≤ 2)
    {text : String} {r : List Token} (htokens : d.tokens = .num text :: r)
    (h : ∀ t ∈ r.head?, t = .rightParen ∨ t = .operator .add) : r = [] := by
  have hoperator := d.operator_behind_number hn htokens
  cases hhead : r.head? with
  | none => exact List.head?_eq_none_iff.1 hhead
  | some t =>
    rcases hoperator t hhead with ⟨op, rfl, hlevel⟩
    rcases h _ hhead with heq | heq
    · cases heq
    · cases heq
      cases hlevel

mutual

/-- The tokens without a zero term derive a tree without it. -/
theorem Derivation.exists_without_zeroTerm {R : Expr → Expr → Prop} (hR : DropsZeroTerms R)
    {n : Nonterminal} (d : Derivation n) {l r : List Token} {p q : Token} (h : ZeroTerm l p q r)
    (htokens : d.tokens = l ++ p :: q :: r) :
    ∃ d' : Derivation n, d'.tokens = l ++ r ∧ R d.tree d'.tree := by
  match d with
  | .plain logic =>
    rcases logic.exists_without_zeroTerm hR h htokens with ⟨logic', hlogic, htree⟩
    exact ⟨.plain logic', hlogic, htree⟩
  | .single operand =>
    rcases operand.exists_without_zeroTerm hR h htokens with ⟨operand', hoperand, htree⟩
    exact ⟨.single operand', hoperand, htree⟩
  | .primary operand =>
    rcases operand.exists_without_zeroTerm hR h htokens with ⟨operand', hoperand, htree⟩
    exact ⟨.primary operand', hoperand, htree⟩
  | .choice chosen condition otherwise =>
    rcases h.cases_of_join (by simp) (by simp) htokens with
      ⟨r', hchosen, rfl, h'⟩ | ⟨l', rfl, hrest, h'⟩
    · rcases chosen.exists_without_zeroTerm hR h' hchosen with ⟨chosen', htokens', htree⟩
      refine ⟨.choice chosen' condition otherwise, ?_, hR.cond htree (hR.refl _) (hR.refl _)⟩
      rw [Derivation.tokens, htokens', List.append_assoc]
    · rcases h'.cases_of_join (by simp) (by simp) hrest with
        ⟨r', hcondition, rfl, h''⟩ | ⟨l'', rfl, hotherwise, h''⟩
      · rcases condition.exists_without_zeroTerm hR h'' hcondition with
          ⟨condition', htokens', htree⟩
        refine ⟨.choice chosen condition' otherwise, ?_, hR.cond (hR.refl _) htree (hR.refl _)⟩
        simp [Derivation.tokens, htokens']
      · rcases otherwise.exists_without_zeroTerm hR h'' hotherwise with
          ⟨otherwise', htokens', htree⟩
        refine ⟨.choice chosen condition otherwise', ?_, hR.cond (hR.refl _) (hR.refl _) htree⟩
        simp [Derivation.tokens, htokens']
  | @Derivation.chain level front op last hop hchain =>
    rcases neighbours_cases htokens with
      ⟨r', hfront, rfl⟩ | ⟨hfront, hm, hlast⟩ | ⟨hfront, hm, hlast⟩ | ⟨l', rfl, hlast⟩
    · rcases front.exists_without_zeroTerm hR h.inner_right hfront with ⟨front', htokens', htree⟩
      refine ⟨.chain front' op last hop hchain, ?_, hR.binary op htree (hR.refl _)⟩
      rw [Derivation.tokens, htokens', List.append_assoc]
    · -- The zero is the whole front.
      cases h with
      | later _ => cases hm
      | first hbefore =>
        have hnil := front.eq_nil_of_first (by simp) hfront hbefore
        rw [hnil] at hfront ⊢
        injection hm with hop'
        have htree : (Derivation.chain front op last hop hchain).tree =
            .binary .add (.num "0") last.tree := by
          rw [Derivation.tree, Derivation.tree_of_tokens_eq_num hfront, hop']
        exact ⟨.single last, hlast, htree ▸ hR.zero_add last.tree⟩
    · -- The zero is the whole operand.
      cases h with
      | first _ => cases hm
      | later hbehind =>
        injection hm with hop'
        have hadditive : level = .additive := by
          rw [← Level.mem_operators_iff.1 hop, hop']
          rfl
        subst hadditive
        have hnil := last.eq_nil_of_later (Nat.le_refl 2) hlast hbehind
        rw [hnil] at hlast ⊢
        have htree : (Derivation.chain front op last hop hchain).tree =
            .binary .add front.tree (.num "0") := by
          rw [Derivation.tree, Derivation.tree_of_tokens_eq_num hlast, hop']
        exact ⟨front, by rw [hfront, List.append_nil], htree ▸ hR.add_zero front.tree⟩
    · rcases last.exists_without_zeroTerm hR h.inner_left hlast with ⟨last', htokens', htree⟩
      refine ⟨.chain front op last' hop hchain, ?_, hR.binary op (hR.refl _) htree⟩
      simp [Derivation.tokens, htokens']
  | .compare lhs op rhs hop =>
    have hadd : Token.operator op ≠ .operator .add := by
      intro heq
      injection heq with heq
      rw [heq] at hop
      exact absurd hop (by decide)
    rcases h.cases_of_join (by simp) hadd htokens with
      ⟨r', hlhs, rfl, h'⟩ | ⟨l', rfl, hrhs, h'⟩
    · rcases lhs.exists_without_zeroTerm hR h' hlhs with ⟨lhs', htokens', htree⟩
      refine ⟨.compare lhs' op rhs hop, ?_, hR.binary op htree (hR.refl _)⟩
      rw [Derivation.tokens, htokens', List.append_assoc]
    · rcases rhs.exists_without_zeroTerm hR h' hrhs with ⟨rhs', htokens', htree⟩
      refine ⟨.compare lhs op rhs' hop, ?_, hR.binary op (hR.refl _) htree⟩
      simp [Derivation.tokens, htokens']
  | .minus operand =>
    rcases h.exists_behind (by simp) (by simp) htokens with ⟨l', rfl, hoperand, h'⟩
    rcases operand.exists_without_zeroTerm hR h' hoperand with ⟨operand', htokens', htree⟩
    refine ⟨.minus operand', ?_, hR.neg htree⟩
    simp [Derivation.tokens, htokens']
  | .number _ | .symbol _ =>
    have hlength := congrArg List.length htokens
    simp [Derivation.tokens] at hlength
    omega
  | .emptyCall function =>
    have hmem : p ∈ [Token.symbol (.bare function), .leftParen, .rightParen] := by
      rw [Derivation.tokens] at htokens
      simp [htokens]
    cases h <;> simp at hmem
  | .call function arguments =>
    rcases h.exists_behind (by simp) (by simp) htokens with ⟨l', rfl, hrest, h'⟩
    rcases h'.exists_inside_parens hrest with ⟨l'', r', harguments, rfl, rfl, h''⟩
    rcases arguments.exists_without_zeroTerm hR h'' harguments with ⟨arguments', htokens', htrees⟩
    refine ⟨.call function arguments', ?_, hR.call function htrees⟩
    simp [Derivation.tokens, htokens']
  | .parens inner =>
    rcases h.exists_inside_parens htokens with ⟨l', r', hinner, rfl, rfl, h'⟩
    rcases inner.exists_without_zeroTerm hR h' hinner with ⟨inner', htokens', htree⟩
    refine ⟨.parens inner', ?_, hR.paren htree⟩
    simp [Derivation.tokens, htokens']

theorem ArgumentDerivation.exists_without_zeroTerm {R : Expr → Expr → Prop}
    (hR : DropsZeroTerms R) (ds : ArgumentDerivation) {l r : List Token} {p q : Token}
    (h : ZeroTerm l p q r) (htokens : ds.tokens = l ++ p :: q :: r) :
    ∃ ds' : ArgumentDerivation, ds'.tokens = l ++ r ∧ List.Forall₂ R ds.trees ds'.trees := by
  match ds with
  | .last argument =>
    rcases argument.exists_without_zeroTerm hR h htokens with ⟨argument', htokens', htree⟩
    exact ⟨.last argument', htokens', .cons htree .nil⟩
  | .more argument others =>
    rcases h.cases_of_join (by simp) (by simp) htokens with
      ⟨r', hargument, rfl, h'⟩ | ⟨l', rfl, hothers, h'⟩
    · rcases argument.exists_without_zeroTerm hR h' hargument with ⟨argument', htokens', htree⟩
      refine ⟨.more argument' others, ?_, .cons htree ?_⟩
      · rw [ArgumentDerivation.tokens, htokens', List.append_assoc]
      · exact List.forall₂_same.2 fun e _ => hR.refl e
    · rcases others.exists_without_zeroTerm hR h' hothers with ⟨others', htokens', htrees⟩
      refine ⟨.more argument others', ?_, .cons (hR.refl _) htrees⟩
      simp [ArgumentDerivation.tokens, htokens']

end

end TopdownMetrics.Formula

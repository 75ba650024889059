import TopdownMetrics.Proofs.Grammar

/-!
# What each parsing step can do

Every parsing step returns a tree together with a bound on the tokens behind it.
`Reads` forgets the bound, and one equivalence for each step says everything that
the step can do: which other steps it takes, on which tokens, and what it makes of
their results.  Later proofs use these equivalences and never the definitions.
-/

namespace TopdownMetrics.Formula

theorem bind_eq_ok_iff {ε α β : Type} {x : Except ε α} {f : α → Except ε β} {b : β} :
    (x >>= f) = .ok b ↔ ∃ a, x = .ok a ∧ f a = .ok b := by
  cases x <;> simp [bind, Except.bind]

theorem bind_eq_error_iff {ε α β : Type} {x : Except ε α} {f : α → Except ε β} {cause : ε} :
    (x >>= f) = .error cause ↔ x = .error cause ∨ ∃ a, x = .ok a ∧ f a = .error cause := by
  cases x <;> simp [bind, Except.bind]

/-! ## Single tokens -/

/-- The first token, without its place. -/
def firstToken? (ts : List PlacedToken) : Option Token :=
  ts.head?.map (·.token)

@[simp] theorem firstToken?_nil : firstToken? [] = none := rfl

@[simp] theorem firstToken?_cons (t : PlacedToken) (ts : List PlacedToken) :
    firstToken? (t :: ts) = some t.token := rfl

theorem next_eq_ok_iff {ts rest : List PlacedToken} {t : PlacedToken}
    {h : rest.length < ts.length} : next ts = .ok ⟨t, rest, h⟩ ↔ ts = t :: rest := by
  cases ts with
  | nil => simp at h
  | cons t ts => simp [next]

theorem accept?_eq_none_iff {wanted : Token} {ts : List PlacedToken} :
    accept? wanted ts = none ↔ firstToken? ts ≠ some wanted := by
  cases ts <;> simp [accept?]

theorem accept?_eq_some_iff {wanted : Token} {ts rest : List PlacedToken}
    {h : rest.length < ts.length} :
    accept? wanted ts = some ⟨(), rest, h⟩ ↔ ∃ t, t.token = wanted ∧ ts = t :: rest := by
  cases ts with
  | nil => simp at h
  | cons t ts => simp [accept?]

theorem expect_eq_ok_iff {wanted : Token} {ts rest : List PlacedToken}
    {h : rest.length < ts.length} :
    expect wanted ts = .ok ⟨(), rest, h⟩ ↔ ∃ t, t.token = wanted ∧ ts = t :: rest := by
  constructor
  · intro heq
    obtain ⟨⟨t, after, hlt⟩, hnext, heq⟩ := bind_eq_ok_iff.1 heq
    simp only at heq
    split at heq
    · rename_i ht
      cases heq
      exact ⟨t, ht, next_eq_ok_iff.1 hnext⟩
    · cases heq
  · rintro ⟨t, ht, hts⟩
    refine bind_eq_ok_iff.2 ⟨⟨t, rest, h⟩, next_eq_ok_iff.2 hts, ?_⟩
    simp only [if_pos ht]
    rfl

theorem operatorAt?_eq_some_iff {level : Level} {t : Token} {op : BinaryOp} :
    t.operatorAt? level = some op ↔ t = .operator op ∧ op.level = level := by
  cases t with
  | operator op' =>
    simp only [Token.operatorAt?, Token.operator.injEq]
    constructor
    · intro h
      split at h
      · cases h
        exact ⟨rfl, ‹_›⟩
      · cases h
    · rintro ⟨rfl, h⟩
      exact if_pos h
  | _ => simp [Token.operatorAt?]

theorem acceptOperator?_eq_none_iff {level : Level} {ts : List PlacedToken} :
    acceptOperator? level ts = none ↔
      ∀ t ∈ firstToken? ts, t.operatorAt? level = none := by
  cases ts <;> simp [acceptOperator?]

theorem acceptOperator?_eq_some_iff {level : Level} {ts rest : List PlacedToken}
    {op : BinaryOp} {h : rest.length < ts.length} :
    acceptOperator? level ts = some ⟨op, rest, h⟩ ↔
      ∃ t, t.token = .operator op ∧ op.level = level ∧ ts = t :: rest := by
  cases ts with
  | nil => simp at h
  | cons t ts =>
    simp only [acceptOperator?, Option.map_eq_some_iff, operatorAt?_eq_some_iff,
      Step.mk.injEq, List.cons.injEq]
    constructor
    · rintro ⟨_, ⟨ht, hop⟩, rfl, rfl⟩
      exact ⟨t, ht, hop, rfl, rfl⟩
    · rintro ⟨_, ht, hop, rfl, rfl⟩
      exact ⟨op, ⟨ht, hop⟩, rfl, rfl⟩

theorem callee?_eq_some_iff {s : Symbol} {function : String} :
    s.callee? = some function ↔ s = .bare function := by
  obtain ⟨sigil, name, modifiers, terms⟩ := s
  simp [Symbol.callee?, Symbol.isQualified, Symbol.bare]
  tauto

/-! ## The relation -/

/-- The nonterminal is read as the tree `e` from `ts`, which leaves `rest`. -/
def Reads (n : Nonterminal) (ts : List PlacedToken) (e : Expr) (rest : List PlacedToken) :
    Prop :=
  match n with
  | .cond => ∃ h, parseCond ts = .ok ⟨e, rest, h⟩
  | .binary level => ∃ h, parseLevel level ts = .ok ⟨e, rest, h⟩
  | .unary => ∃ h, parseUnary ts = .ok ⟨e, rest, h⟩
  | .primary => ∃ h, parsePrimary ts = .ok ⟨e, rest, h⟩

/-- The operators of a level with their operands are read from `ts` and applied to
`lhs`. -/
def ReadsTail (level : Level) (lhs : Expr) (ts : List PlacedToken) (e : Expr)
    (rest : List PlacedToken) : Prop :=
  ∃ h, parseTail level lhs ts = .ok ⟨e, rest, h⟩

/-- One or more arguments and the closing parenthesis are read from `ts`. -/
def ReadsArguments (ts : List PlacedToken) (es : List Expr) (rest : List PlacedToken) :
    Prop :=
  ∃ h, parseArgumentList ts = .ok ⟨es, rest, h⟩

theorem Reads.length_lt {n : Nonterminal} {ts rest : List PlacedToken} {e : Expr}
    (h : Reads n ts e rest) : rest.length < ts.length := by
  cases n <;> exact h.1

theorem Reads.length_tail_lt {n : Nonterminal} {ts rest : List PlacedToken}
    {t : PlacedToken} {e : Expr} (h : Reads n ts e (t :: rest)) :
    rest.length < ts.length :=
  Nat.lt_of_succ_lt h.length_lt

theorem ReadsTail.length_le {level : Level} {lhs e : Expr} {ts rest : List PlacedToken}
    (h : ReadsTail level lhs ts e rest) : rest.length ≤ ts.length :=
  Nat.le_of_lt_succ h.1

theorem ReadsArguments.length_lt {ts rest : List PlacedToken} {es : List Expr}
    (h : ReadsArguments ts es rest) : rest.length < ts.length :=
  h.1

/-! ## One equivalence for each step -/

theorem reads_operand_iff {level : Level} {ts rest : List PlacedToken} {e : Expr} :
    Reads level.operand ts e rest ↔ ∃ h, parseOperand level ts = .ok ⟨e, rest, h⟩ := by
  rw [parseOperand]
  cases level <;> rfl

theorem reads_cond_iff {ts rest : List PlacedToken} {e : Expr} :
    Reads .cond ts e rest ↔
      (Reads (.binary .logic) ts e rest ∧ firstToken? rest ≠ some .ifWord) ∨
      ∃ chosen condition otherwise t u afterIf afterElse,
        Reads (.binary .logic) ts chosen (t :: afterIf) ∧ t.token = .ifWord ∧
        Reads (.binary .logic) afterIf condition (u :: afterElse) ∧ u.token = .elseWord ∧
        Reads .cond afterElse otherwise rest ∧ e = .cond chosen condition otherwise := by
  constructor
  · rintro ⟨hlt, heq⟩
    rw [parseCond] at heq
    obtain ⟨⟨chosen, middle, h₁⟩, hchosen, heq⟩ := bind_eq_ok_iff.1 heq
    simp only at heq
    split at heq
    · rename_i hif
      cases heq
      exact .inl ⟨⟨_, hchosen⟩, accept?_eq_none_iff.1 hif⟩
    · rename_i afterIf h₂ hif
      obtain ⟨t, ht, rfl⟩ := accept?_eq_some_iff.1 hif
      obtain ⟨⟨condition, beforeElse, h₃⟩, hcondition, heq⟩ := bind_eq_ok_iff.1 heq
      simp only at heq
      obtain ⟨⟨⟨⟩, afterElse, h₄⟩, helse, heq⟩ := bind_eq_ok_iff.1 heq
      obtain ⟨u, hu, rfl⟩ := expect_eq_ok_iff.1 helse
      obtain ⟨⟨otherwise, rest', h₅⟩, hotherwise, heq⟩ := bind_eq_ok_iff.1 heq
      cases heq
      exact .inr ⟨chosen, condition, otherwise, t, u, afterIf, afterElse, ⟨_, hchosen⟩, ht,
        ⟨_, hcondition⟩, hu, ⟨_, hotherwise⟩, rfl⟩
  · rintro (⟨⟨hlt, hchosen⟩, hif⟩ | ⟨chosen, condition, otherwise, t, u, afterIf, afterElse,
      ⟨h₁, hchosen⟩, ht, ⟨h₂, hcondition⟩, hu, ⟨h₃, hotherwise⟩, rfl⟩)
    · refine ⟨hlt, ?_⟩
      rw [parseCond, hchosen]
      simp only [bind, Except.bind, accept?_eq_none_iff.2 hif]
      rfl
    · have hlt : rest.length < ts.length := by
        simp only [List.length_cons] at h₁ h₂ h₃
        omega
      have hif : accept? .ifWord (t :: afterIf) = some ⟨(), afterIf, by simp⟩ :=
        accept?_eq_some_iff.2 ⟨t, ht, rfl⟩
      have helse : expect .elseWord (u :: afterElse) = .ok ⟨(), afterElse, by simp⟩ :=
        expect_eq_ok_iff.2 ⟨u, hu, rfl⟩
      refine ⟨hlt, ?_⟩
      rw [parseCond, hchosen]
      simp only [bind, Except.bind, hif, hcondition, helse, hotherwise]
      rfl

theorem reads_binary_iff {level : Level} {ts rest : List PlacedToken} {e : Expr} :
    Reads (.binary level) ts e rest ↔
      ∃ first middle, Reads level.operand ts first middle ∧
        ReadsTail level first middle e rest := by
  constructor
  · rintro ⟨hlt, heq⟩
    rw [parseLevel] at heq
    obtain ⟨⟨first, middle, h₁⟩, hfirst, heq⟩ := bind_eq_ok_iff.1 heq
    simp only at heq
    obtain ⟨⟨e', rest', h₂⟩, htail, heq⟩ := bind_eq_ok_iff.1 heq
    cases heq
    exact ⟨first, middle, reads_operand_iff.2 ⟨_, hfirst⟩, ⟨_, htail⟩⟩
  · rintro ⟨first, middle, hfirst, ⟨h₂, htail⟩⟩
    obtain ⟨h₁, hfirst⟩ := reads_operand_iff.1 hfirst
    refine ⟨by omega, ?_⟩
    rw [parseLevel, hfirst]
    simp only [bind, Except.bind, htail]
    rfl

theorem readsTail_iff {level : Level} {lhs e : Expr} {ts rest : List PlacedToken} :
    ReadsTail level lhs ts e rest ↔
      (e = lhs ∧ rest = ts ∧ ∀ t ∈ firstToken? ts, t.operatorAt? level = none) ∨
      ∃ t op afterOp rhs middle, t.token = .operator op ∧ op.level = level ∧
        ts = t :: afterOp ∧ Reads level.operand afterOp rhs middle ∧
        if level.chains then ReadsTail level (.binary op lhs rhs) middle e rest
        else e = .binary op lhs rhs ∧ rest = middle := by
  constructor
  · rintro ⟨hlt, heq⟩
    rw [parseTail] at heq
    split at heq
    · rename_i hstop
      cases heq
      exact .inl ⟨rfl, rfl, acceptOperator?_eq_none_iff.1 hstop⟩
    · rename_i op afterOp h₁ hop
      obtain ⟨t, ht, hlevel, rfl⟩ := acceptOperator?_eq_some_iff.1 hop
      obtain ⟨⟨rhs, middle, h₂⟩, hrhs, heq⟩ := bind_eq_ok_iff.1 heq
      simp only at heq
      refine .inr ⟨t, op, afterOp, rhs, middle, ht, hlevel, rfl,
        reads_operand_iff.2 ⟨_, hrhs⟩, ?_⟩
      split at heq
      · rename_i hchain
        obtain ⟨⟨e', rest', h₃⟩, htail, heq⟩ := bind_eq_ok_iff.1 heq
        cases heq
        rw [if_pos hchain]
        exact ⟨_, htail⟩
      · rename_i hchain
        cases heq
        rw [if_neg hchain]
        exact ⟨rfl, rfl⟩
  · rintro (⟨rfl, rfl, hstop⟩ | ⟨t, op, afterOp, rhs, middle, ht, hlevel, rfl, hrhs, hmore⟩)
    · refine ⟨by omega, ?_⟩
      rw [parseTail, acceptOperator?_eq_none_iff.2 hstop]
      rfl
    · have hop : acceptOperator? level (t :: afterOp) = some ⟨op, afterOp, by simp⟩ :=
        acceptOperator?_eq_some_iff.2 ⟨t, ht, hlevel, rfl⟩
      obtain ⟨h₁, hrhs⟩ := reads_operand_iff.1 hrhs
      split at hmore
      · rename_i hchain
        obtain ⟨h₂, htail⟩ := hmore
        refine ⟨by simp only [List.length_cons]; omega, ?_⟩
        rw [parseTail, hop]
        simp only [bind, Except.bind, hrhs, if_pos hchain, htail]
        rfl
      · rename_i hchain
        obtain ⟨rfl, rfl⟩ := hmore
        refine ⟨by simp only [List.length_cons]; omega, ?_⟩
        rw [parseTail, hop]
        simp only [bind, Except.bind, hrhs, if_neg hchain]
        rfl

theorem reads_unary_iff {ts rest : List PlacedToken} {e : Expr} :
    Reads .unary ts e rest ↔
      (Reads .primary ts e rest ∧ firstToken? ts ≠ some (.operator .sub)) ∨
      ∃ t afterMinus operand, t.token = .operator .sub ∧ ts = t :: afterMinus ∧
        Reads .unary afterMinus operand rest ∧ e = .neg operand := by
  constructor
  · rintro ⟨hlt, heq⟩
    rw [parseUnary] at heq
    split at heq
    · rename_i hminus
      exact .inl ⟨⟨hlt, heq⟩, accept?_eq_none_iff.1 hminus⟩
    · rename_i afterMinus h₁ hminus
      obtain ⟨t, ht, rfl⟩ := accept?_eq_some_iff.1 hminus
      obtain ⟨⟨operand, rest', h₂⟩, hoperand, heq⟩ := bind_eq_ok_iff.1 heq
      cases heq
      exact .inr ⟨t, afterMinus, operand, ht, rfl, ⟨_, hoperand⟩, rfl⟩
  · rintro (⟨⟨hlt, hprimary⟩, hminus⟩ | ⟨t, afterMinus, operand, ht, rfl, ⟨h₁, hoperand⟩, rfl⟩)
    · refine ⟨hlt, ?_⟩
      rw [parseUnary, accept?_eq_none_iff.2 hminus]
      exact hprimary
    · have hminus : accept? (.operator .sub) (t :: afterMinus) =
          some ⟨(), afterMinus, by simp⟩ := accept?_eq_some_iff.2 ⟨t, ht, rfl⟩
      refine ⟨by simp only [List.length_cons]; omega, ?_⟩
      rw [parseUnary, hminus]
      simp only [bind, Except.bind, hoperand]
      rfl

/-- What a primary is when it starts with the given token; `after` stands behind that
token. -/
def ReadsFrom (after : List PlacedToken) (e : Expr) (rest : List PlacedToken) :
    Token → Prop
  | .num text => e = .num text ∧ rest = after
  | .leftParen =>
    ∃ inner t, Reads .cond after inner (t :: rest) ∧ t.token = .rightParen ∧
      e = .paren inner
  | .symbol s =>
    (e = .symbol s ∧ rest = after ∧
      (s.callee? = none ∨ firstToken? after ≠ some .leftParen)) ∨
    ∃ function t afterParen, s = .bare function ∧ t.token = .leftParen ∧
      after = t :: afterParen ∧
      ((∃ u, u.token = .rightParen ∧ afterParen = u :: rest ∧ e = .call function []) ∨
        ∃ arguments, firstToken? afterParen ≠ some .rightParen ∧
          ReadsArguments afterParen arguments rest ∧ e = .call function arguments)
  | _ => False

theorem parseArguments_eq_ok_iff {ts rest : List PlacedToken} {es : List Expr}
    {h : rest.length < ts.length} :
    parseArguments ts = .ok ⟨es, rest, h⟩ ↔
      (∃ t, t.token = .rightParen ∧ ts = t :: rest ∧ es = []) ∨
      (firstToken? ts ≠ some .rightParen ∧ ReadsArguments ts es rest) := by
  rw [parseArguments]
  split
  · rename_i after h₁ hparen
    obtain ⟨t, ht, rfl⟩ := accept?_eq_some_iff.1 hparen
    constructor
    · intro heq
      cases heq
      exact .inl ⟨t, ht, rfl, rfl⟩
    · rintro (⟨u, hu, hts, rfl⟩ | ⟨hne, -⟩)
      · cases hts
        rfl
      · exact absurd (congrArg some ht) hne
  · rename_i hparen
    have hne := accept?_eq_none_iff.1 hparen
    constructor
    · intro heq
      exact .inr ⟨hne, ⟨_, heq⟩⟩
    · rintro (⟨u, hu, rfl, rfl⟩ | ⟨-, ⟨_, hlist⟩⟩)
      · exact absurd (congrArg some hu) hne
      · exact hlist

section

variable {t : PlacedToken} {after rest : List PlacedToken} {e : Expr}

theorem reads_primary_num_iff {text : String} (ht : t.token = .num text) :
    Reads .primary (t :: after) e rest ↔ ReadsFrom after e rest (.num text) := by
  constructor
  · rintro ⟨hlt, heq⟩
    rw [parsePrimary] at heq
    simp only [bind, Except.bind, next, ht] at heq
    cases heq
    exact ⟨rfl, rfl⟩
  · rintro ⟨rfl, rfl⟩
    refine ⟨by simp, ?_⟩
    rw [parsePrimary]
    simp only [bind, Except.bind, next, ht]
    rfl

theorem reads_primary_leftParen_iff (ht : t.token = .leftParen) :
    Reads .primary (t :: after) e rest ↔ ReadsFrom after e rest .leftParen := by
  constructor
  · rintro ⟨hlt, heq⟩
    rw [parsePrimary] at heq
    simp only [bind, Except.bind, next, ht] at heq
    obtain ⟨⟨inner, beforeParen, h₁⟩, hinner, heq⟩ := bind_eq_ok_iff.1 heq
    simp only at heq
    obtain ⟨⟨⟨⟩, rest', h₂⟩, hparen, heq⟩ := bind_eq_ok_iff.1 heq
    obtain ⟨u, hu, rfl⟩ := expect_eq_ok_iff.1 hparen
    cases heq
    exact ⟨inner, u, ⟨_, hinner⟩, hu, rfl⟩
  · rintro ⟨inner, u, ⟨h₁, hinner⟩, hu, rfl⟩
    have hparen : expect .rightParen (u :: rest) = .ok ⟨(), rest, by simp⟩ :=
      expect_eq_ok_iff.2 ⟨u, hu, rfl⟩
    refine ⟨by simp only [List.length_cons] at h₁ ⊢; omega, ?_⟩
    rw [parsePrimary]
    simp only [bind, Except.bind, next, ht, hinner, hparen]
    rfl

theorem reads_primary_symbol_iff {s : Symbol} (ht : t.token = .symbol s) :
    Reads .primary (t :: after) e rest ↔ ReadsFrom after e rest (.symbol s) := by
  constructor
  · rintro ⟨hlt, heq⟩
    rw [parsePrimary] at heq
    simp only [bind, Except.bind, next, ht] at heq
    split at heq
    · rename_i function _ afterParen h₁ hcallee hparen
      obtain ⟨u, hu, rfl⟩ := accept?_eq_some_iff.1 hparen
      obtain ⟨⟨arguments, rest', h₂⟩, harguments, heq⟩ := bind_eq_ok_iff.1 heq
      cases heq
      refine .inr ⟨function, u, afterParen, callee?_eq_some_iff.1 hcallee, hu, rfl, ?_⟩
      rcases parseArguments_eq_ok_iff.1 harguments with ⟨v, hv, rfl, rfl⟩ | ⟨hne, hlist⟩
      · exact .inl ⟨v, hv, rfl, rfl⟩
      · exact .inr ⟨arguments, hne, hlist, rfl⟩
    · rename_i hno
      cases heq
      refine .inl ⟨rfl, rfl, ?_⟩
      cases hcallee : s.callee? with
      | none => exact .inl rfl
      | some function =>
        cases hparen : accept? .leftParen after with
        | none => exact .inr (accept?_eq_none_iff.1 hparen)
        | some step => exact (hno function step.value step.rest _ hcallee hparen).elim
  · rintro (⟨rfl, rfl, hno⟩ | ⟨function, u, afterParen, rfl, hu, rfl, hcall⟩)
    · refine ⟨by simp, ?_⟩
      rw [parsePrimary]
      simp only [bind, Except.bind, next, ht]
      split
      · rename_i function afterParen h₁ hcallee hparen
        rcases hno with hno | hno
        · rw [hno] at hcallee
          cases hcallee
        · rw [accept?_eq_none_iff.2 hno] at hparen
          cases hparen
      · rfl
    · obtain ⟨arguments, h₁, harguments, rfl⟩ : ∃ arguments h,
          parseArguments afterParen = .ok ⟨arguments, rest, h⟩ ∧ e = .call function arguments := by
        rcases hcall with ⟨v, hv, rfl, rfl⟩ | ⟨arguments, hne, hlist, rfl⟩
        · exact ⟨[], by simp, parseArguments_eq_ok_iff.2 (.inl ⟨v, hv, rfl, rfl⟩), rfl⟩
        · exact ⟨arguments, hlist.length_lt, parseArguments_eq_ok_iff.2 (.inr ⟨hne, hlist⟩), rfl⟩
      have hcallee : (Symbol.bare function).callee? = some function :=
        callee?_eq_some_iff.2 rfl
      have hparen : accept? .leftParen (u :: afterParen) = some ⟨(), afterParen, by simp⟩ :=
        accept?_eq_some_iff.2 ⟨u, hu, rfl⟩
      refine ⟨by simp only [List.length_cons]; omega, ?_⟩
      rw [parsePrimary]
      simp only [bind, Except.bind, next, ht, hcallee, hparen, harguments]
      rfl

end

theorem reads_primary_iff {ts rest : List PlacedToken} {e : Expr} :
    Reads .primary ts e rest ↔
      ∃ t after, ts = t :: after ∧ ReadsFrom after e rest t.token := by
  cases ts with
  | nil =>
    constructor
    · intro h
      exact absurd h.length_lt (Nat.not_lt_zero _)
    · rintro ⟨t, after, hts, -⟩
      cases hts
  | cons t after =>
    have hhead : (∃ t' after', t :: after = t' :: after' ∧ ReadsFrom after' e rest t'.token) ↔
        ReadsFrom after e rest t.token := by
      constructor
      · rintro ⟨t', after', hts, hfrom⟩
        cases hts
        exact hfrom
      · exact fun hfrom => ⟨t, after, rfl, hfrom⟩
    rw [hhead]
    cases ht : t.token with
    | num text => exact reads_primary_num_iff ht
    | leftParen => exact reads_primary_leftParen_iff ht
    | symbol s => exact reads_primary_symbol_iff ht
    | _ =>
      refine iff_of_false ?_ id
      rintro ⟨hlt, heq⟩
      rw [parsePrimary] at heq
      simp only [bind, Except.bind, next, ht] at heq
      cases heq

theorem readsArguments_iff {ts rest : List PlacedToken} {es : List Expr} :
    ReadsArguments ts es rest ↔
      ∃ first t after, Reads .cond ts first (t :: after) ∧
        ((t.token = .rightParen ∧ rest = after ∧ es = [first]) ∨
          ∃ others, t.token = .comma ∧ ReadsArguments after others rest ∧
            es = first :: others) := by
  constructor
  · rintro ⟨hlt, heq⟩
    rw [parseArgumentList] at heq
    obtain ⟨⟨first, middle, h₁⟩, hfirst, heq⟩ := bind_eq_ok_iff.1 heq
    simp only at heq
    obtain ⟨⟨t, after, h₂⟩, hnext, heq⟩ := bind_eq_ok_iff.1 heq
    cases next_eq_ok_iff.1 hnext
    simp only at heq
    refine ⟨first, t, after, ⟨_, hfirst⟩, ?_⟩
    split at heq
    · rename_i ht
      obtain ⟨⟨others, rest', h₃⟩, hothers, heq⟩ := bind_eq_ok_iff.1 heq
      cases heq
      exact .inr ⟨others, ht, ⟨_, hothers⟩, rfl⟩
    · rename_i ht
      cases heq
      exact .inl ⟨ht, rfl, rfl⟩
    · cases heq
  · rintro ⟨first, t, after, ⟨h₁, hfirst⟩,
      (⟨ht, rfl, rfl⟩ | ⟨others, ht, ⟨h₂, hothers⟩, rfl⟩)⟩
    · refine ⟨by simp only [List.length_cons] at h₁; omega, ?_⟩
      rw [parseArgumentList, hfirst]
      simp only [bind, Except.bind, next, ht]
      rfl
    · refine ⟨by simp only [List.length_cons] at h₁; omega, ?_⟩
      rw [parseArgumentList, hfirst]
      simp only [bind, Except.bind, next, ht, hothers]
      rfl

end TopdownMetrics.Formula

import TopdownMetrics.Proofs.ParserRun

/-!
# The parser accepts exactly the grammar

Soundness follows the recursion of the parser, completeness the structure of a
derivation.  For completeness one token of lookahead has to be enough: a nonterminal
is read to its end in front of any token that cannot continue it, and a chain of
operators is read as far as its front with the rest of the chain still to come.
-/

namespace TopdownMetrics.Formula

/-! ## Soundness -/

mutual

theorem Reads.exists_derivation {n : Nonterminal} {ts rest : List PlacedToken} {e : Expr}
    (h : Reads n ts e rest) :
    ∃ d : Derivation n, d.tree = e ∧
      ts.map (·.token) = d.tokens ++ rest.map (·.token) := by
  match n with
  | .cond =>
    rcases reads_cond_iff.1 h with ⟨hlogic, -⟩ | ⟨chosen, condition, otherwise, t, u, afterIf,
      afterElse, hchosen, ht, hcondition, hu, hotherwise, rfl⟩
    · obtain ⟨d, rfl, htokens⟩ := hlogic.exists_derivation
      exact ⟨.plain d, rfl, htokens⟩
    · have hlt₁ := hchosen.length_tail_lt
      have hlt₂ := hcondition.length_tail_lt
      obtain ⟨d₁, rfl, htokens₁⟩ := hchosen.exists_derivation
      obtain ⟨d₂, rfl, htokens₂⟩ := hcondition.exists_derivation
      obtain ⟨d₃, rfl, htokens₃⟩ := hotherwise.exists_derivation
      refine ⟨.choice d₁ d₂ d₃, rfl, ?_⟩
      simp [htokens₁, htokens₂, htokens₃, ht, hu, Derivation.tokens]
  | .binary level =>
    obtain ⟨first, middle, hfirst, htail⟩ := reads_binary_iff.1 h
    have hlt := hfirst.length_lt
    obtain ⟨d, rfl, htokens⟩ := hfirst.exists_derivation
    by_cases hchain : level.chains = true
    · obtain ⟨d', rfl, htokens'⟩ := htail.exists_derivation (.single d) hchain
      exact ⟨d', rfl, htokens.trans htokens'⟩
    · obtain rfl : level = .comparison := by
        cases level <;> first | rfl | exact absurd rfl hchain
      rcases readsTail_iff.1 htail with ⟨rfl, rfl, -⟩ | ⟨t, op, afterOp, rhs, middle', ht, hop,
        hmiddle, hrhs, rfl, rfl⟩
      · exact ⟨.single d, rfl, htokens⟩
      · have hlt' : afterOp.length < ts.length := by
          simp only [hmiddle, List.length_cons] at hlt
          omega
        obtain ⟨d', rfl, htokens'⟩ := hrhs.exists_derivation
        refine ⟨.compare d op d' (Level.mem_operators_iff.2 hop), rfl, ?_⟩
        simp only [htokens, hmiddle, htokens', ht, Derivation.tokens, List.map_cons,
          List.append_assoc, List.cons_append]
        rfl
  | .unary =>
    rcases reads_unary_iff.1 h with ⟨hprimary, -⟩ | ⟨t, afterMinus, operand, ht, hts,
      hoperand, rfl⟩
    · obtain ⟨d, rfl, htokens⟩ := hprimary.exists_derivation
      exact ⟨.primary d, rfl, htokens⟩
    · have hlt : afterMinus.length < ts.length := by simp [hts]
      obtain ⟨d, rfl, htokens⟩ := hoperand.exists_derivation
      refine ⟨.minus d, rfl, ?_⟩
      simp [hts, htokens, ht, Derivation.tokens]
  | .primary =>
    obtain ⟨t, after, hts, hfrom⟩ := reads_primary_iff.1 h
    have hlt : after.length < ts.length := by simp [hts]
    cases ht : t.token with
    | num text =>
      rw [ht] at hfrom
      obtain ⟨rfl, rfl⟩ := hfrom
      exact ⟨.number text, rfl, by simp [hts, ht, Derivation.tokens]⟩
    | leftParen =>
      rw [ht] at hfrom
      obtain ⟨inner, u, hinner, hu, rfl⟩ := hfrom
      obtain ⟨d, rfl, htokens⟩ := hinner.exists_derivation
      refine ⟨.parens d, rfl, ?_⟩
      simp [hts, htokens, ht, hu, Derivation.tokens]
    | symbol s =>
      rw [ht] at hfrom
      rcases hfrom with ⟨rfl, rfl, -⟩ | ⟨function, u, afterParen, rfl, hu, hafter, hcall⟩
      · exact ⟨.symbol s, rfl, by simp [hts, ht, Derivation.tokens]⟩
      · have hlt' : afterParen.length < ts.length := by
          simp only [hafter, List.length_cons] at hlt
          omega
        rcases hcall with ⟨v, hv, rfl, rfl⟩ | ⟨arguments, -, hlist, rfl⟩
        · exact ⟨.emptyCall function, rfl, by simp [hts, hafter, ht, hu, hv, Derivation.tokens]⟩
        · obtain ⟨ds, rfl, htokens⟩ := hlist.exists_derivation
          refine ⟨.call function ds, rfl, ?_⟩
          simp [hts, hafter, htokens, ht, hu, Derivation.tokens]
    | _ =>
      rw [ht] at hfrom
      exact hfrom.elim
  termination_by (ts.length, n.looseness)
  decreasing_by
    · exact Prod.Lex.right _ (by decide)
    · exact Prod.Lex.right _ (by decide)
    · exact Prod.Lex.left _ _ hlt₁
    · exact Prod.Lex.left _ _ (hlt₂.trans hlt₁)
    · exact Prod.Lex.right _ level.looseness_operand_lt
    · exact Prod.Lex.left _ _ hlt
    · exact Prod.Lex.left _ _ hlt'
    · exact Prod.Lex.right _ (by decide)
    · exact Prod.Lex.left _ _ hlt
    · exact Prod.Lex.left _ _ hlt'
    · exact Prod.Lex.left _ _ hlt

/-- What is read behind the front of a chain makes a longer chain of it. -/
theorem ReadsTail.exists_derivation {level : Level} {ts rest : List PlacedToken} {e : Expr}
    (front : Derivation (.binary level)) (hchain : level.chains = true)
    (h : ReadsTail level front.tree ts e rest) :
    ∃ d : Derivation (.binary level), d.tree = e ∧
      front.tokens ++ ts.map (·.token) = d.tokens ++ rest.map (·.token) := by
  rcases readsTail_iff.1 h with ⟨rfl, rfl, -⟩ | ⟨t, op, afterOp, rhs, middle, ht, hop, hts,
    hrhs, hmore⟩
  · exact ⟨front, rfl, rfl⟩
  · have hlt : afterOp.length < ts.length := by simp [hts]
    have hlt' := hrhs.length_lt
    rw [if_pos hchain] at hmore
    obtain ⟨last, rfl, htokens⟩ := hrhs.exists_derivation
    obtain ⟨d, rfl, htokens'⟩ := hmore.exists_derivation
      (.chain front op last (Level.mem_operators_iff.2 hop) (Level.chains_iff.1 hchain)) hchain
    refine ⟨d, rfl, ?_⟩
    rw [← htokens']
    simp [hts, htokens, ht, Derivation.tokens]
  termination_by (ts.length, 0)
  decreasing_by
    · exact Prod.Lex.left _ _ hlt
    · exact Prod.Lex.left _ _ (hlt'.trans hlt)

theorem ReadsArguments.exists_derivation {ts rest : List PlacedToken} {es : List Expr}
    (h : ReadsArguments ts es rest) :
    ∃ ds : ArgumentDerivation, ds.trees = es ∧
      ts.map (·.token) = ds.tokens ++ .rightParen :: rest.map (·.token) := by
  obtain ⟨first, t, after, hfirst, hafter⟩ := readsArguments_iff.1 h
  have hlt := hfirst.length_tail_lt
  obtain ⟨d, rfl, htokens⟩ := hfirst.exists_derivation
  rcases hafter with ⟨ht, rfl, rfl⟩ | ⟨others, ht, hothers, rfl⟩
  · exact ⟨.last d, rfl, by simp [htokens, ht, ArgumentDerivation.tokens]⟩
  · obtain ⟨ds, rfl, htokens'⟩ := hothers.exists_derivation
    refine ⟨.more d ds, rfl, ?_⟩
    simp [htokens, htokens', ht, ArgumentDerivation.tokens]
  termination_by (ts.length, 7)
  decreasing_by
    · exact Prod.Lex.right _ (by decide)
    · exact Prod.Lex.left _ _ hlt

end

/-! ## Completeness -/

/-- Whether a token behind a nonterminal could belong to it. -/
def Nonterminal.continuedBy (n : Nonterminal) : Token → Bool
  | .leftParen => true
  | .operator op => decide (op.level.rank + 1 ≤ n.looseness)
  | .ifWord => decide (n = .cond)
  | _ => false

/-- The tokens start with none that could continue the nonterminal. -/
def Nonterminal.EndsBefore (n : Nonterminal) (ts : List PlacedToken) : Prop :=
  ∀ t ∈ firstToken? ts, n.continuedBy t = false

theorem Nonterminal.EndsBefore.mono {n m : Nonterminal} {ts : List PlacedToken}
    (h : n.EndsBefore ts) (hle : m.looseness ≤ n.looseness) : m.EndsBefore ts := by
  intro t ht
  have hn := h t ht
  cases t with
  | operator op =>
    simp only [continuedBy, decide_eq_false_iff_not] at hn ⊢
    omega
  | ifWord =>
    simp only [continuedBy, decide_eq_false_iff_not] at hn ⊢
    rintro rfl
    apply hn
    cases n with
    | binary level =>
      have := level.rank_lt_six
      simp only [looseness] at hle
      omega
    | _ => simp [looseness] at hle ⊢
  | leftParen => exact hn
  | _ => rfl

theorem Nonterminal.endsBefore_cons {n : Nonterminal} {t : PlacedToken}
    {ts : List PlacedToken} : n.EndsBefore (t :: ts) ↔ n.continuedBy t.token = false := by
  simp [EndsBefore]

theorem Nonterminal.endsBefore_of_token {n : Nonterminal} {t : PlacedToken} {token : Token}
    (ht : t.token = token) (hstop : n.continuedBy token = false) (ts : List PlacedToken) :
    n.EndsBefore (t :: ts) := by
  rw [endsBefore_cons, ht, hstop]

/-- An operator of a level ends the operand in front of it. -/
theorem Level.operand_endsBefore {level : Level} {t : PlacedToken} {op : BinaryOp}
    (ht : t.token = .operator op) (hop : op.level = level) (ts : List PlacedToken) :
    level.operand.EndsBefore (t :: ts) := by
  rw [Nonterminal.endsBefore_cons, ht]
  have hlt := level.looseness_operand_lt
  simp only [Nonterminal.continuedBy, hop, decide_eq_false_iff_not]
  omega

/-- In front of tokens that end the level there is no further operator of it. -/
theorem ReadsTail.stop {level : Level} {lhs : Expr} {ts : List PlacedToken}
    (h : (Nonterminal.binary level).EndsBefore ts) : ReadsTail level lhs ts lhs ts := by
  refine readsTail_iff.2 (.inl ⟨rfl, rfl, fun t ht => ?_⟩)
  cases hop : t.operatorAt? level with
  | none => rfl
  | some op =>
    obtain ⟨rfl, hlevel⟩ := operatorAt?_eq_some_iff.1 hop
    have hfalse := h _ ht
    simp [Nonterminal.continuedBy, Nonterminal.looseness, hlevel] at hfalse

theorem ReadsTail.step {level : Level} {lhs rhs e : Expr} {op : BinaryOp} {t : PlacedToken}
    {ts middle rest : List PlacedToken} (ht : t.token = .operator op)
    (hop : op.level = level) (hchain : level.chains = true)
    (hrhs : Reads level.operand ts rhs middle)
    (htail : ReadsTail level (.binary op lhs rhs) middle e rest) :
    ReadsTail level lhs (t :: ts) e rest := by
  refine readsTail_iff.2 (.inr ⟨t, op, ts, rhs, middle, ht, hop, rfl, hrhs, ?_⟩)
  rwa [if_pos hchain]

theorem firstToken?_append {ts : List PlacedToken} {t : Token} {tokens : List Token}
    (hts : ts.map (·.token) = t :: tokens) (rest : List PlacedToken) :
    firstToken? (ts ++ rest) = some t := by
  obtain ⟨p, _, rfl, rfl, -⟩ := List.map_eq_cons_iff.1 hts
  rfl

theorem Derivation.exists_tokens_eq_cons_of_primary (d : Derivation .primary) :
    ∃ t tokens, d.tokens = t :: tokens ∧ t ≠ .rightParen ∧ t ≠ .operator .sub := by
  cases d <;> exact ⟨_, _, rfl, by simp, by simp⟩

/-- Nothing is derived from no tokens, and nothing starts with a closing parenthesis. -/
theorem Derivation.exists_tokens_eq_cons {n : Nonterminal} (d : Derivation n) :
    ∃ t tokens, d.tokens = t :: tokens ∧ t ≠ .rightParen := by
  match d with
  | .plain logic => exact logic.exists_tokens_eq_cons
  | .single operand => exact operand.exists_tokens_eq_cons
  | .choice chosen _ _ =>
    obtain ⟨t, tokens, htokens, hne⟩ := chosen.exists_tokens_eq_cons
    exact ⟨t, _, by rw [Derivation.tokens, htokens]; rfl, hne⟩
  | .chain front _ _ _ _ =>
    obtain ⟨t, tokens, htokens, hne⟩ := front.exists_tokens_eq_cons
    exact ⟨t, _, by rw [Derivation.tokens, htokens]; rfl, hne⟩
  | .compare lhs _ _ _ =>
    obtain ⟨t, tokens, htokens, hne⟩ := lhs.exists_tokens_eq_cons
    exact ⟨t, _, by rw [Derivation.tokens, htokens]; rfl, hne⟩
  | .minus _ => exact ⟨_, _, rfl, by simp⟩
  | .primary operand =>
    obtain ⟨t, tokens, htokens, hne, -⟩ := operand.exists_tokens_eq_cons_of_primary
    exact ⟨t, tokens, htokens, hne⟩
  | .number _ | .symbol _ | .emptyCall _ | .call _ _ | .parens _ =>
    exact ⟨_, _, rfl, by simp⟩

theorem ArgumentDerivation.exists_tokens_eq_cons (ds : ArgumentDerivation) :
    ∃ t tokens, ds.tokens = t :: tokens ∧ t ≠ .rightParen := by
  cases ds with
  | last argument => exact argument.exists_tokens_eq_cons
  | more argument others =>
    obtain ⟨t, tokens, htokens, hne⟩ := argument.exists_tokens_eq_cons
    exact ⟨t, _, by rw [ArgumentDerivation.tokens, htokens]; rfl, hne⟩

mutual

/-- A derivation is read in front of any tokens that cannot continue it. -/
theorem Derivation.reads {n : Nonterminal} (d : Derivation n) {ts rest : List PlacedToken}
    (hts : ts.map (·.token) = d.tokens) (hrest : n.EndsBefore rest) :
    Reads n (ts ++ rest) d.tree rest := by
  match d with
  | .plain logic =>
    have hlogic := logic.reads hts (hrest.mono (by decide))
    refine reads_cond_iff.2 (.inl ⟨hlogic, fun hif => ?_⟩)
    have hfalse := hrest _ hif
    simp [Nonterminal.continuedBy] at hfalse
  | .choice chosen condition otherwise =>
    obtain ⟨ts₁, ts', rfl, hts₁, hts'⟩ := List.map_eq_append_iff.1 hts
    obtain ⟨t, ts', rfl, ht, hts'⟩ := List.map_eq_cons_iff.1 hts'
    obtain ⟨ts₂, ts', rfl, hts₂, hts'⟩ := List.map_eq_append_iff.1 hts'
    obtain ⟨u, ts₃, rfl, hu, hts₃⟩ := List.map_eq_cons_iff.1 hts'
    have hchosen := chosen.reads hts₁
      (Nonterminal.endsBefore_of_token ht rfl (ts₂ ++ u :: (ts₃ ++ rest)))
    have hcondition := condition.reads hts₂
      (Nonterminal.endsBefore_of_token hu rfl (ts₃ ++ rest))
    refine reads_cond_iff.2 (.inr ⟨chosen.tree, condition.tree, otherwise.tree, t, u,
      ts₂ ++ u :: (ts₃ ++ rest), ts₃ ++ rest, ?_, ht, hcondition, hu,
      otherwise.reads hts₃ hrest, rfl⟩)
    simpa using hchosen
  | @Derivation.single level operand =>
    have hoperand := operand.reads hts (hrest.mono level.looseness_operand_lt.le)
    exact reads_binary_iff.2 ⟨_, _, hoperand, .stop hrest⟩
  | @Derivation.chain level front op last hop hchain =>
    obtain ⟨ts₁, ts₂', rfl, hts₁, hts₂'⟩ := List.map_eq_append_iff.1 hts
    obtain ⟨t, ts₂, rfl, ht, hts₂⟩ := List.map_eq_cons_iff.1 hts₂'
    have hlast := last.reads hts₂ (hrest.mono level.looseness_operand_lt.le)
    have hlevel := Level.mem_operators_iff.1 hop
    have hchains := Level.chains_iff.2 hchain
    rw [List.append_assoc]
    exact front.reads_front hchains hts₁ (Level.operand_endsBefore ht hlevel _)
      (.step ht hlevel hchains hlast (.stop hrest))
  | .compare lhs op rhs hop =>
    obtain ⟨ts₁, ts', rfl, hts₁, hts'⟩ := List.map_eq_append_iff.1 hts
    obtain ⟨t, ts₂, rfl, ht, hts₂⟩ := List.map_eq_cons_iff.1 hts'
    have hlevel := Level.mem_operators_iff.1 hop
    have hlhs := lhs.reads hts₁ (Level.operand_endsBefore ht hlevel (ts₂ ++ rest))
    have hrhs := rhs.reads hts₂ (hrest.mono (by decide))
    have htail : ReadsTail .comparison lhs.tree (t :: (ts₂ ++ rest))
        (.binary op lhs.tree rhs.tree) rest :=
      readsTail_iff.2 (.inr
        ⟨t, op, ts₂ ++ rest, rhs.tree, rest, ht, hlevel, rfl, hrhs, rfl, rfl⟩)
    rw [List.append_assoc]
    exact reads_binary_iff.2 ⟨_, _, hlhs, htail⟩
  | .minus operand =>
    obtain ⟨t, ts', rfl, ht, hts'⟩ := List.map_eq_cons_iff.1 hts
    exact reads_unary_iff.2 (.inr ⟨t, ts' ++ rest, operand.tree, ht, rfl,
      operand.reads hts' hrest, rfl⟩)
  | .primary operand =>
    obtain ⟨t, tokens, htokens, -, hne⟩ := operand.exists_tokens_eq_cons_of_primary
    have hfirst := firstToken?_append (hts.trans htokens) rest
    refine reads_unary_iff.2 (.inl ⟨operand.reads hts (hrest.mono (by decide)), ?_⟩)
    rw [hfirst]
    simpa using hne
  | .number text =>
    obtain ⟨t, ts', rfl, ht, hts'⟩ := List.map_eq_cons_iff.1 hts
    obtain rfl := List.map_eq_nil_iff.1 hts'
    refine reads_primary_iff.2 ⟨t, rest, rfl, ?_⟩
    rw [ht]
    exact ⟨rfl, rfl⟩
  | .symbol s =>
    obtain ⟨t, ts', rfl, ht, hts'⟩ := List.map_eq_cons_iff.1 hts
    obtain rfl := List.map_eq_nil_iff.1 hts'
    refine reads_primary_iff.2 ⟨t, rest, rfl, ?_⟩
    rw [ht]
    refine .inl ⟨rfl, rfl, .inr fun hparen => ?_⟩
    exact Bool.noConfusion (hrest _ hparen)
  | .emptyCall function =>
    obtain ⟨t, ts', rfl, ht, hts'⟩ := List.map_eq_cons_iff.1 hts
    obtain ⟨u, ts', rfl, hu, hts'⟩ := List.map_eq_cons_iff.1 hts'
    obtain ⟨v, ts', rfl, hv, hts'⟩ := List.map_eq_cons_iff.1 hts'
    obtain rfl := List.map_eq_nil_iff.1 hts'
    refine reads_primary_iff.2 ⟨t, u :: v :: rest, rfl, ?_⟩
    rw [ht]
    exact .inr ⟨function, u, v :: rest, rfl, hu, rfl, .inl ⟨v, hv, rfl, rfl⟩⟩
  | .call function arguments =>
    obtain ⟨t, ts', rfl, ht, hts'⟩ := List.map_eq_cons_iff.1 hts
    obtain ⟨u, ts', rfl, hu, hts'⟩ := List.map_eq_cons_iff.1 hts'
    obtain ⟨ts₁, ts', rfl, hts₁, hts'⟩ := List.map_eq_append_iff.1 hts'
    obtain ⟨v, ts', rfl, hv, hts'⟩ := List.map_eq_cons_iff.1 hts'
    obtain rfl := List.map_eq_nil_iff.1 hts'
    obtain ⟨first, tokens, htokens, hne⟩ := arguments.exists_tokens_eq_cons
    have hfirst := firstToken?_append (hts₁.trans htokens) (v :: rest)
    refine reads_primary_iff.2 ⟨t, u :: (ts₁ ++ v :: rest), by simp, ?_⟩
    rw [ht]
    refine .inr ⟨function, u, ts₁ ++ v :: rest, rfl, hu, rfl, .inr ⟨arguments.trees, ?_,
      arguments.reads hts₁ hv, rfl⟩⟩
    rw [hfirst]
    simpa using hne
  | .parens inner =>
    obtain ⟨t, ts', rfl, ht, hts'⟩ := List.map_eq_cons_iff.1 hts
    obtain ⟨ts₁, ts', rfl, hts₁, hts'⟩ := List.map_eq_append_iff.1 hts'
    obtain ⟨u, ts', rfl, hu, hts'⟩ := List.map_eq_cons_iff.1 hts'
    obtain rfl := List.map_eq_nil_iff.1 hts'
    have hinner := inner.reads hts₁ (Nonterminal.endsBefore_of_token hu rfl rest)
    refine reads_primary_iff.2 ⟨t, ts₁ ++ u :: rest, by simp, ?_⟩
    rw [ht]
    exact ⟨inner.tree, u, hinner, hu, rfl⟩

/-- A chain is read up to its front with the rest of it still to come. -/
theorem Derivation.reads_front {level : Level} (d : Derivation (.binary level))
    (hchain : level.chains = true) {ts after rest : List PlacedToken} {e : Expr}
    (hts : ts.map (·.token) = d.tokens) (hafter : level.operand.EndsBefore after)
    (htail : ReadsTail level d.tree after e rest) :
    Reads (.binary level) (ts ++ after) e rest := by
  match d with
  | .single operand =>
    exact reads_binary_iff.2 ⟨_, _, operand.reads hts hafter, htail⟩
  | .chain front op last hop _ =>
    obtain ⟨ts₁, ts₂', rfl, hts₁, hts₂'⟩ := List.map_eq_append_iff.1 hts
    obtain ⟨t, ts₂, rfl, ht, hts₂⟩ := List.map_eq_cons_iff.1 hts₂'
    have hlevel := Level.mem_operators_iff.1 hop
    rw [List.append_assoc]
    exact front.reads_front hchain hts₁ (Level.operand_endsBefore ht hlevel _)
      (.step ht hlevel hchain (last.reads hts₂ hafter) htail)
  | .compare .. => cases hchain

theorem ArgumentDerivation.reads (ds : ArgumentDerivation) {ts rest : List PlacedToken}
    {t : PlacedToken} (hts : ts.map (·.token) = ds.tokens) (ht : t.token = .rightParen) :
    ReadsArguments (ts ++ t :: rest) ds.trees rest := by
  match ds with
  | .last argument =>
    have hargument := argument.reads hts (Nonterminal.endsBefore_of_token ht rfl rest)
    exact readsArguments_iff.2 ⟨argument.tree, t, rest, hargument, .inl ⟨ht, rfl, rfl⟩⟩
  | .more argument others =>
    obtain ⟨ts₁, ts', rfl, hts₁, hts'⟩ := List.map_eq_append_iff.1 hts
    obtain ⟨u, ts₂, rfl, hu, hts₂⟩ := List.map_eq_cons_iff.1 hts'
    have hargument := argument.reads hts₁
      (Nonterminal.endsBefore_of_token hu rfl (ts₂ ++ t :: rest))
    rw [List.append_assoc]
    exact readsArguments_iff.2 ⟨argument.tree, u, ts₂ ++ t :: rest, hargument,
      .inr ⟨others.trees, hu, others.reads hts₂ ht, rfl⟩⟩

end

/-! ## The whole token list -/

theorem parseTokens_eq_ok_iff {ts : List PlacedToken} {e : Expr} :
    parseTokens ts = .ok e ↔ Reads .cond ts e [] := by
  constructor
  · intro heq
    obtain ⟨⟨e', rest, h⟩, hcond, heq⟩ := bind_eq_ok_iff.1 heq
    cases rest with
    | nil =>
      cases heq
      exact ⟨h, hcond⟩
    | cons extra _ => cases heq
  · rintro ⟨h, hcond⟩
    exact bind_eq_ok_iff.2 ⟨_, hcond, rfl⟩

theorem Derivation.parseTokens_eq_ok (d : Derivation .cond) {ts : List PlacedToken}
    (hts : ts.map (·.token) = d.tokens) : parseTokens ts = .ok d.tree := by
  have hend : Nonterminal.cond.EndsBefore [] := by
    intro t ht
    cases ht
  have hreads := d.reads hts hend
  rw [List.append_nil] at hreads
  exact parseTokens_eq_ok_iff.2 hreads

theorem exists_derivation_of_parseTokens {ts : List PlacedToken} {e : Expr}
    (h : parseTokens ts = .ok e) :
    ∃ d : Derivation .cond, d.tokens = ts.map (·.token) ∧ d.tree = e := by
  obtain ⟨d, htree, htokens⟩ := (parseTokens_eq_ok_iff.1 h).exists_derivation
  exact ⟨d, by simpa using htokens.symm, htree⟩

/-- The grammar is unambiguous: derivations of the same tokens are read as the same
tree, which has one derivation. -/
theorem Derivation.eq_of_tokens_eq {d d' : Derivation .cond} (h : d.tokens = d'.tokens) :
    d = d' := by
  let place (t : Token) : PlacedToken := ⟨t, 0⟩
  have hplaced (tokens : List Token) : (tokens.map place).map (·.token) = tokens := by
    simp [place, Function.comp_def]
  have hd := d.parseTokens_eq_ok (hplaced d.tokens)
  have hd' := d'.parseTokens_eq_ok (hplaced d'.tokens)
  rw [h, hd'] at hd
  injection hd with htree
  exact d.tree_injective d' htree.symm

/-- The parser answers with a tree exactly if the tokens derive `cond`, and the tree is
that of the derivation; there is at most one derivation; every list that has none is
answered with an error. -/
theorem parseTokens_accepts_exactly_cond (ts : List PlacedToken) :
    (∀ e, parseTokens ts = .ok e ↔
      ∃ d : Derivation .cond, d.tokens = ts.map (·.token) ∧ d.tree = e) ∧
    (∀ d d' : Derivation .cond,
      d.tokens = ts.map (·.token) → d'.tokens = ts.map (·.token) → d = d') ∧
    ((∃ cause, parseTokens ts = .error cause) ↔
      ∀ d : Derivation .cond, d.tokens ≠ ts.map (·.token)) := by
  refine ⟨fun e => ⟨exists_derivation_of_parseTokens, ?_⟩, ?_, ?_⟩
  · rintro ⟨d, htokens, rfl⟩
    exact d.parseTokens_eq_ok htokens.symm
  · intro d d' hd hd'
    exact Derivation.eq_of_tokens_eq (hd.trans hd'.symm)
  · constructor
    · rintro ⟨cause, hcause⟩ d hd
      rw [d.parseTokens_eq_ok hd.symm] at hcause
      cases hcause
    · intro hnone
      cases hresult : parseTokens ts with
      | error cause => exact ⟨cause, rfl⟩
      | ok e =>
        obtain ⟨d, hd, -⟩ := exists_derivation_of_parseTokens hresult
        exact absurd hd (hnone d)

end TopdownMetrics.Formula

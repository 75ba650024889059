import TopdownMetrics.Proofs.Lexing
import TopdownMetrics.Proofs.Precedence

/-!
# Parsing undoes rendering

The rendering of a tree has no parentheses of its own, so two things could go wrong:
neighbouring pieces could run into one token, and the tree could be put together
differently.  A derivation rules out both.  The pieces of its tree are lexed one by
one, each up to a blank, a parenthesis or a comma; and since the result is the token
list of the derivation, the parser finds the tree of that derivation again.
-/

namespace TopdownMetrics.Formula

/-! ## One token in front of others -/

theorem Lexes.leftParen {rest : List Char} {tokens : List Token} (h : Lexes rest tokens) :
    Lexes ('(' :: rest) (.leftParen :: tokens) :=
  .token (by decide) (fun _ => rfl) h

theorem Lexes.rightParen {rest : List Char} {tokens : List Token} (h : Lexes rest tokens) :
    Lexes (')' :: rest) (.rightParen :: tokens) :=
  .token (by decide) (fun _ => rfl) h

theorem Lexes.comma {rest : List Char} {tokens : List Token} (h : Lexes rest tokens) :
    Lexes (',' :: rest) (.comma :: tokens) :=
  .token (by decide) (fun _ => rfl) h

theorem Lexes.minus {rest : List Char} {tokens : List Token} (h : Lexes rest tokens) :
    Lexes ('-' :: rest) (.operator .sub :: tokens) :=
  .token (by decide) (fun _ => rfl) h

/-- The blank behind an operator keeps `<` and `>` from being lengthened. -/
theorem Lexes.operator (op : BinaryOp) {rest : List Char} {tokens : List Token}
    (h : Lexes rest tokens) :
    Lexes (op.text.toList ++ ' ' :: rest) (.operator op :: tokens) := by
  cases op <;> exact .token (by decide) (fun _ => rfl) (.blank rfl h)

theorem Lexes.word {sigil : Sigil} {word afterWord rest : List Char} {token : Token}
    {tokens : List Token} (hword : IsWord word)
    (hafter : takeWord afterWord = ([], afterWord))
    (hread : ∀ offset, wordReading offset sigil word afterWord = .ok (token, rest))
    (h : Lexes rest tokens) :
    Lexes (sigil.text.toList ++ (word ++ afterWord)) (token :: tokens) := by
  obtain ⟨c, cs, htext, hc⟩ := hword.exists_startsWord_of_sigil sigil afterWord
  have hlexeme (offset : Nat) :
      (lexeme offset c (c :: cs)).map Lexeme.reading = .ok (token, rest) := by
    rw [← htext, lexeme_map_reading_of_word hword hafter, hread]
  rw [htext]
  exact .token (isBlank_eq_false_of_startsWord hc) hlexeme h

theorem Lexes.number {text : String} {rest : List Char} {tokens : List Token}
    (htext : (Token.num text).Spelled) (hrest : EndsToken rest) (h : Lexes rest tokens) :
    Lexes (text.toList ++ rest) (.num text :: tokens) := by
  have hread (offset : Nat) :
      wordReading offset .bare text.toList rest = .ok (.num text, rest) := by
    simp [wordReading, reserved?, htext.2]
  exact .word htext.1 hrest.takeWord_eq hread h

theorem Lexes.ifWord {rest : List Char} {tokens : List Token} (h : Lexes rest tokens) :
    Lexes ('i' :: 'f' :: ' ' :: rest) (.ifWord :: tokens) :=
  have hword : IsWord ['i', 'f'] := by decide
  have hread (offset : Nat) :
      wordReading offset .bare ['i', 'f'] (' ' :: rest) = .ok (.ifWord, ' ' :: rest) := rfl
  .word hword (takeWord_of_not (by decide) (by decide) rest) hread (.blank rfl h)

theorem Lexes.elseWord {rest : List Char} {tokens : List Token} (h : Lexes rest tokens) :
    Lexes ('e' :: 'l' :: 's' :: 'e' :: ' ' :: rest) (.elseWord :: tokens) :=
  have hword : IsWord ['e', 'l', 's', 'e'] := by decide
  have hread (offset : Nat) : wordReading offset .bare ['e', 'l', 's', 'e'] (' ' :: rest) =
      .ok (.elseWord, ' ' :: rest) := rfl
  .word hword (takeWord_of_not (by decide) (by decide) rest) hread (.blank rfl h)

theorem Symbol.toList_render (s : Symbol) :
    s.render.toList = s.sigil.text.toList ++ (s.name.toList ++
      ((s.modifiers.map String.toList).flatMap (':' :: ·) ++
        termsSource (s.terms.map String.toList))) := by
  obtain ⟨sigil, name, modifiers, terms⟩ := s
  cases terms <;> simp [render, termsSource, List.flatMap_map]

theorem Lexes.symbol {s : Symbol} {rest : List Char} {tokens : List Token}
    (hs : s.Spelled) (hrest : EndsToken rest) (h : Lexes rest tokens) :
    Lexes (s.render.toList ++ rest) (.symbol s :: tokens) := by
  have hread := hs.wordReading_eq hrest
  have hafter : takeWord ((s.modifiers.map String.toList).flatMap (':' :: ·) ++
      (termsSource (s.terms.map String.toList) ++ rest)) =
      ([], (s.modifiers.map String.toList).flatMap (':' :: ·) ++
      (termsSource (s.terms.map String.toList) ++ rest)) := by
    cases s.modifiers with
    | nil =>
      cases s.terms with
      | none => exact hrest.takeWord_eq
      | some terms => exact takeWord_of_not (by decide) (by decide) _
    | cons m modifiers => exact takeWord_of_not (by decide) (by decide) _
  rw [s.toList_render]
  simp only [List.append_assoc]
  exact .word hs.word hafter hread h

/-! ## Trees of derivations -/

theorem endsToken_blank (cs : List Char) : EndsToken (' ' :: cs) := .inl rfl

theorem endsToken_rightParen (cs : List Char) : EndsToken (')' :: cs) := .inr (.inr (.inl rfl))

theorem endsToken_leftParen (cs : List Char) : EndsToken ('(' :: cs) := .inr (.inl rfl)

theorem endsToken_comma (cs : List Char) : EndsToken (',' :: cs) := .inr (.inr (.inr rfl))

mutual

/-- The rendering of the tree of a derivation is lexed as the tokens of the
derivation. -/
theorem Derivation.lexes_render {n : Nonterminal} (d : Derivation n)
    (hspelled : ∀ t ∈ d.tokens, t.Spelled) {rest : List Char} {tokens : List Token}
    (hrest : EndsToken rest) (h : Lexes rest tokens) :
    Lexes (d.tree.render.toList ++ rest) (d.tokens ++ tokens) := by
  match d with
  | .plain logic => exact logic.lexes_render hspelled hrest h
  | .choice chosen condition otherwise =>
    simp only [Derivation.tokens, List.forall_mem_append, List.forall_mem_cons] at hspelled
    obtain ⟨hchosen, -, hcondition, -, hotherwise⟩ := hspelled
    have hafterElse := otherwise.lexes_render hotherwise hrest h
    have hafterIf := condition.lexes_render hcondition (endsToken_blank _)
      (.blank rfl (.elseWord hafterElse))
    have hall := chosen.lexes_render hchosen (endsToken_blank _) (.blank rfl (.ifWord hafterIf))
    simpa [Derivation.tree, Derivation.tokens, Expr.render] using hall
  | .single operand => exact operand.lexes_render hspelled hrest h
  | .chain front op last _ _ =>
    simp only [Derivation.tokens, List.forall_mem_append, List.forall_mem_cons] at hspelled
    obtain ⟨hfront, -, hlast⟩ := hspelled
    have hafterOp := last.lexes_render hlast hrest h
    have hall := front.lexes_render hfront (endsToken_blank _) (.blank rfl (.operator op hafterOp))
    simpa [Derivation.tree, Derivation.tokens, Expr.render] using hall
  | .compare lhs op rhs _ =>
    simp only [Derivation.tokens, List.forall_mem_append, List.forall_mem_cons] at hspelled
    obtain ⟨hlhs, -, hrhs⟩ := hspelled
    have hafterOp := rhs.lexes_render hrhs hrest h
    have hall := lhs.lexes_render hlhs (endsToken_blank _) (.blank rfl (.operator op hafterOp))
    simpa [Derivation.tree, Derivation.tokens, Expr.render] using hall
  | .minus operand =>
    simp only [Derivation.tokens, List.forall_mem_cons] at hspelled
    have hall := Lexes.minus (operand.lexes_render hspelled.2 hrest h)
    simpa [Derivation.tree, Derivation.tokens, Expr.render] using hall
  | .primary operand => exact operand.lexes_render hspelled hrest h
  | .number text =>
    simp only [Derivation.tokens, List.forall_mem_cons] at hspelled
    exact .number hspelled.1 hrest h
  | .symbol s =>
    simp only [Derivation.tokens, List.forall_mem_cons] at hspelled
    exact .symbol hspelled.1 hrest h
  | .emptyCall function =>
    simp only [Derivation.tokens, List.forall_mem_cons] at hspelled
    have hall := Lexes.symbol hspelled.1 (endsToken_leftParen _) (.leftParen (.rightParen h))
    simpa [Derivation.tree, Derivation.tokens, Expr.render, Expr.renderArguments, Symbol.render,
      Symbol.bare, Sigil.text] using hall
  | .call function arguments =>
    simp only [Derivation.tokens, List.forall_mem_append, List.forall_mem_cons] at hspelled
    have harguments := arguments.lexes_renderArguments hspelled.2.2.1 (endsToken_rightParen _)
      (.rightParen h)
    have hall := Lexes.symbol hspelled.1 (endsToken_leftParen _) (.leftParen harguments)
    simpa [Derivation.tree, Derivation.tokens, Expr.render, Symbol.render, Symbol.bare,
      Sigil.text] using hall
  | .parens inner =>
    simp only [Derivation.tokens, List.forall_mem_append, List.forall_mem_cons] at hspelled
    have hinner := inner.lexes_render hspelled.2.1 (endsToken_rightParen _) (.rightParen h)
    simpa [Derivation.tree, Derivation.tokens, Expr.render] using Lexes.leftParen hinner

theorem ArgumentDerivation.lexes_renderArguments (ds : ArgumentDerivation)
    (hspelled : ∀ t ∈ ds.tokens, t.Spelled) {rest : List Char} {tokens : List Token}
    (hrest : EndsToken rest) (h : Lexes rest tokens) :
    Lexes ((Expr.renderArguments ds.trees).toList ++ rest) (ds.tokens ++ tokens) := by
  match ds with
  | .last argument => exact argument.lexes_render hspelled hrest h
  | .more argument others =>
    simp only [ArgumentDerivation.tokens, List.forall_mem_append, List.forall_mem_cons]
      at hspelled
    obtain ⟨hargument, -, hothers⟩ := hspelled
    have hafterComma := others.lexes_renderArguments hothers hrest h
    have hblank : isBlank ' ' = true := rfl
    have hall := argument.lexes_render hargument (endsToken_comma _)
      (.comma (.blank hblank hafterComma))
    rw [ArgumentDerivation.trees, Expr.renderArguments]
    · simpa [ArgumentDerivation.tokens] using hall
    · exact others.trees_ne_nil

end

/-! ## Whole formulas -/

theorem Derivation.exists_tokenize_render (d : Derivation .cond)
    (hspelled : ∀ t ∈ d.tokens, t.Spelled) :
    ∃ placed, tokenize d.tree.render = .ok placed ∧ placed.map (·.token) = d.tokens := by
  have hend : EndsToken [] := trivial
  have hlexes := d.lexes_render hspelled hend .nil
  simpa [tokenize] using hlexes 0

theorem Derivation.parse_render (d : Derivation .cond)
    (hspelled : ∀ t ∈ d.tokens, t.Spelled) : parse d.tree.render = .ok d.tree := by
  obtain ⟨placed, htokenize, htokens⟩ := d.exists_tokenize_render hspelled
  rw [parse, htokenize]
  exact d.parseTokens_eq_ok htokens

theorem exists_derivation_of_parse {text : String} {e : Expr} (h : parse text = .ok e) :
    ∃ placed, tokenize text = .ok placed ∧ ∃ d : Derivation .cond,
      d.tokens = placed.map (·.token) ∧ d.tree = e ∧ ∀ t ∈ d.tokens, t.Spelled := by
  obtain ⟨placed, htokenize, hparse⟩ := bind_eq_ok_iff.1 h
  obtain ⟨d, htokens, htree⟩ := exists_derivation_of_parseTokens hparse
  refine ⟨placed, htokenize, d, htokens, htree, ?_⟩
  rw [htokens]
  intro t ht
  obtain ⟨p, hp, rfl⟩ := List.mem_map.1 ht
  exact spelled_of_scan htokenize p hp

/-! ## Levelled trees -/

/-- The atom can come from a formula text, and its text is read as this atom. -/
def Atom.Spelled : Atom → Prop
  | .num text => (Token.num text).Spelled
  | .symbol s => s.Spelled
  | .callee function => IsName function.toList
  | .event _ | .metric _ | .context _ => False

instance : DecidablePred Atom.Spelled
  | .num text => inferInstanceAs (Decidable (Token.num text).Spelled)
  | .symbol s => inferInstanceAs (Decidable s.Spelled)
  | .callee function => inferInstanceAs (Decidable (IsName function.toList))
  | .event _ | .metric _ | .context _ => isFalse not_false

theorem Expr.isWritten_of_spelled {e : Expr} (h : ∀ a ∈ e.atoms, a.Spelled) :
    e.IsWritten := by
  intro a ha
  have hspelled := h a ha
  cases a <;> first | rfl | exact hspelled.elim

theorem Symbol.spelled_bare_iff {name : String} :
    (Symbol.bare name).Spelled ↔ IsName name.toList :=
  ⟨fun h => h.name rfl, Symbol.spelled_bare⟩

mutual

theorem Expr.spelled_tokens_iff (e : Expr) (hwritten : e.IsWritten) :
    (∀ t ∈ e.tokens, t.Spelled) ↔ ∀ a ∈ e.atoms, a.Spelled := by
  match e with
  | .num _ | .symbol _ => simp [Expr.tokens, Expr.atoms, Atom.Spelled, Token.Spelled]
  | .event _ | .metric _ | .context _ =>
    exact absurd (hwritten _ List.mem_cons_self) Bool.false_ne_true
  | .neg operand =>
    rw [Expr.tokens, Expr.atoms, List.forall_mem_cons, operand.spelled_tokens_iff hwritten]
    simp [Token.Spelled]
  | .binary op lhs rhs =>
    obtain ⟨hlhs, hrhs⟩ := List.forall_mem_append.1 hwritten
    rw [Expr.tokens, Expr.atoms, List.forall_mem_append, List.forall_mem_append,
      List.forall_mem_cons, lhs.spelled_tokens_iff hlhs, rhs.spelled_tokens_iff hrhs]
    simp [Token.Spelled]
  | .call function arguments =>
    have harguments := (List.forall_mem_cons.1 hwritten).2
    rw [Expr.tokens, Expr.atoms, List.forall_mem_cons, List.forall_mem_cons,
      List.forall_mem_append, List.forall_mem_cons, Expr.spelled_tokensList_iff _ harguments]
    simp [Token.Spelled, Atom.Spelled, Symbol.spelled_bare_iff]
  | .cond chosen condition otherwise =>
    obtain ⟨hchosen, hrest⟩ := List.forall_mem_append.1 hwritten
    obtain ⟨hcondition, hotherwise⟩ := List.forall_mem_append.1 hrest
    rw [Expr.tokens, Expr.atoms, List.forall_mem_append, List.forall_mem_append,
      List.forall_mem_append, List.forall_mem_cons, List.forall_mem_append,
      List.forall_mem_cons, chosen.spelled_tokens_iff hchosen,
      condition.spelled_tokens_iff hcondition, otherwise.spelled_tokens_iff hotherwise]
    simp [Token.Spelled]
  | .paren inner =>
    rw [Expr.tokens, Expr.atoms, List.forall_mem_cons, List.forall_mem_append,
      inner.spelled_tokens_iff hwritten]
    simp [Token.Spelled]

theorem Expr.spelled_tokensList_iff (es : List Expr)
    (hwritten : ∀ a ∈ Expr.atomsList es, a.isWritten = true) :
    (∀ t ∈ Expr.tokensList es, t.Spelled) ↔ ∀ a ∈ Expr.atomsList es, a.Spelled := by
  match es with
  | [] => simp [Expr.tokensList, Expr.atomsList]
  | [e] =>
    obtain ⟨he, -⟩ := List.forall_mem_append.1 hwritten
    rw [Expr.tokensList, Expr.atomsList, List.forall_mem_append, e.spelled_tokens_iff he]
    simp [Expr.atomsList]
  | e :: e' :: es =>
    obtain ⟨he, hes⟩ := List.forall_mem_append.1 hwritten
    rw [Expr.tokensList_cons (List.cons_ne_nil _ _), Expr.atomsList, List.forall_mem_append,
      List.forall_mem_append, List.forall_mem_cons, e.spelled_tokens_iff he,
      Expr.spelled_tokensList_iff _ hes]
    simp [Token.Spelled]

end

theorem levelled_and_spelled_of_parse {text : String} {e : Expr} (h : parse text = .ok e) :
    e.Levelled ∧ ∀ a ∈ e.atoms, a.Spelled := by
  obtain ⟨placed, -, d, -, rfl, hspelled⟩ := exists_derivation_of_parse h
  rw [← d.tokens_tree] at hspelled
  exact ⟨d.levelled_tree, (d.tree.spelled_tokens_iff d.isWritten_tree).1 hspelled⟩

/-- Conversely, a levelled tree with spelled atoms is parsed from its rendering. -/
theorem Expr.Levelled.parse_render {e : Expr} (hlevelled : e.Levelled)
    (hspelled : ∀ a ∈ e.atoms, a.Spelled) : parse e.render = .ok e := by
  have hwritten := Expr.isWritten_of_spelled hspelled
  obtain ⟨d, rfl⟩ := hlevelled.exists_derivation hwritten .cond e.looseness_le_six
  refine d.parse_render ?_
  rw [← d.tokens_tree]
  exact (d.tree.spelled_tokens_iff hwritten).2 hspelled

/-! ## The round trip -/

/-- Parsing undoes rendering: the rendering of a parsed tree has the tokens of the
parsed text and parses to the same tree. -/
theorem parse_render_of_parse {text : String} {e : Expr} (h : parse text = .ok e) :
    (∃ placed placed', tokenize text = .ok placed ∧ tokenize e.render = .ok placed' ∧
      placed'.map (·.token) = placed.map (·.token)) ∧
    parse e.render = .ok e := by
  obtain ⟨placed, htokenize, d, htokens, rfl, hspelled⟩ := exists_derivation_of_parse h
  obtain ⟨placed', htokenize', htokens'⟩ := d.exists_tokenize_render hspelled
  exact ⟨⟨placed, placed', htokenize, htokenize', htokens'.trans htokens⟩,
    d.parse_render hspelled⟩

/-- A formula text with every kind of node, a word for an operator, an escaped hyphen
and blanks that are not rendered. -/
def sampleText : String :=
  "max( ##?A , -b:c1:u0x0f@event\\=0x1@) if a\\-b < 2 and #SMT_on else (4 *1e9)"

/-- The tree of `sampleText`. -/
def sampleTree : Expr :=
  .cond
    (.call "max" [.symbol ⟨.aggregate, "A", [], none⟩,
      .neg (.symbol ⟨.bare, "b", ["c1", "u0x0f"], some "event\\=0x1"⟩)])
    (.binary .and (.binary .lt (.symbol (.bare "a\\-b")) (.num "2"))
      (.symbol ⟨.hash, "SMT_on", [], none⟩))
    (.paren (.binary .mul (.num "4") (.num "1e9")))

theorem parse_sampleText : parse sampleText = .ok sampleTree :=
  parse_eq_ok_of_tokens (by decide +kernel) (by decide) (by decide)

theorem parse_render_sampleText :
    (∃ placed placed', tokenize sampleText = .ok placed ∧
      tokenize sampleTree.render = .ok placed' ∧
      placed'.map (·.token) = placed.map (·.token)) ∧
    parse sampleTree.render = .ok sampleTree :=
  parse_render_of_parse parse_sampleText

end TopdownMetrics.Formula

import TopdownMetrics.Proofs.Parsing

/-!
# Trees that respect precedence

The rendering of a tree puts no parentheses around an operand.  A tree is `Levelled`
if none are missing: every operand binds tightly enough for its place.  A levelled
tree without resolved references is the tree of a derivation, so these two properties
and the tokens of the tree say exactly what the parser answers.
-/

namespace TopdownMetrics.Formula

/-! ## Atoms -/

/-- What a tree is put together from: its leaves and the names that it calls. -/
inductive Atom where
  | num (text : String)
  | symbol (s : Symbol)
  | event (e : EventRef)
  | metric (name : String)
  | context (name : String)
  | callee (name : String)
  deriving DecidableEq

/-- Whether the atom can come from a formula text, in which nothing is resolved. -/
def Atom.isWritten : Atom → Bool
  | .num _ | .symbol _ | .callee _ => true
  | .event _ | .metric _ | .context _ => false

mutual

/-- The atoms in the order in which they are rendered. -/
def Expr.atoms : Expr → List Atom
  | .num text => [.num text]
  | .symbol s => [.symbol s]
  | .event e => [.event e]
  | .metric name => [.metric name]
  | .context name => [.context name]
  | .neg operand => operand.atoms
  | .binary _ lhs rhs => lhs.atoms ++ rhs.atoms
  | .call function arguments => .callee function :: Expr.atomsList arguments
  | .cond chosen condition otherwise =>
    chosen.atoms ++ (condition.atoms ++ otherwise.atoms)
  | .paren inner => inner.atoms

def Expr.atomsList : List Expr → List Atom
  | [] => []
  | e :: es => e.atoms ++ Expr.atomsList es

end

/-- No reference of the tree is resolved. -/
def Expr.IsWritten (e : Expr) : Prop :=
  ∀ a ∈ e.atoms, a.isWritten = true
  deriving Decidable

/-! ## Levelled trees -/

/-- How loosely the left operand of an operator may bind. -/
def Level.frontLooseness (level : Level) : Nat :=
  if level.chains then level.rank + 1 else level.operand.looseness

mutual

/-- Every operand binds tightly enough to stand in its place without parentheses. -/
def Expr.Levelled : Expr → Prop
  | .neg operand => operand.Levelled ∧ operand.looseness ≤ 1
  | .binary op lhs rhs =>
    (lhs.Levelled ∧ lhs.looseness ≤ op.level.frontLooseness) ∧
      rhs.Levelled ∧ rhs.looseness ≤ op.level.operand.looseness
  | .call _ arguments => Expr.LevelledList arguments
  | .cond chosen condition otherwise =>
    (chosen.Levelled ∧ chosen.looseness < 6) ∧
      (condition.Levelled ∧ condition.looseness < 6) ∧ otherwise.Levelled
  | .paren inner => inner.Levelled
  | _ => True

def Expr.LevelledList : List Expr → Prop
  | [] => True
  | e :: es => e.Levelled ∧ Expr.LevelledList es

end

mutual

def Expr.decidableLevelled : (e : Expr) → Decidable e.Levelled
  | .neg operand =>
    have := operand.decidableLevelled
    inferInstanceAs (Decidable (operand.Levelled ∧ operand.looseness ≤ 1))
  | .binary op lhs rhs =>
    have := lhs.decidableLevelled
    have := rhs.decidableLevelled
    inferInstanceAs (Decidable ((lhs.Levelled ∧ lhs.looseness ≤ op.level.frontLooseness) ∧
      rhs.Levelled ∧ rhs.looseness ≤ op.level.operand.looseness))
  | .call _ arguments => Expr.decidableLevelledList arguments
  | .cond chosen condition otherwise =>
    have := chosen.decidableLevelled
    have := condition.decidableLevelled
    have := otherwise.decidableLevelled
    inferInstanceAs (Decidable ((chosen.Levelled ∧ chosen.looseness < 6) ∧
      (condition.Levelled ∧ condition.looseness < 6) ∧ otherwise.Levelled))
  | .paren inner => inner.decidableLevelled
  | .num _ | .symbol _ | .event _ | .metric _ | .context _ => .isTrue trivial

def Expr.decidableLevelledList : (es : List Expr) → Decidable (Expr.LevelledList es)
  | [] => .isTrue trivial
  | e :: es =>
    have := e.decidableLevelled
    have := Expr.decidableLevelledList es
    inferInstanceAs (Decidable (e.Levelled ∧ Expr.LevelledList es))

end

instance (e : Expr) : Decidable e.Levelled :=
  e.decidableLevelled

theorem Expr.looseness_le_six (e : Expr) : e.looseness ≤ 6 := by
  cases e with
  | binary op _ _ => exact (Level.rank_lt_six op.level).le
  | _ => simp [looseness]

/-! ## The tokens of a tree -/

mutual

/-- The tokens of the rendering of a tree without resolved references. -/
def Expr.tokens : Expr → List Token
  | .num text => [.num text]
  | .symbol s => [.symbol s]
  | .event _ | .metric _ | .context _ => []
  | .neg operand => .operator .sub :: operand.tokens
  | .binary op lhs rhs => lhs.tokens ++ .operator op :: rhs.tokens
  | .call function arguments =>
    .symbol (.bare function) :: .leftParen :: (Expr.tokensList arguments ++ [.rightParen])
  | .cond chosen condition otherwise =>
    chosen.tokens ++ .ifWord :: (condition.tokens ++ .elseWord :: otherwise.tokens)
  | .paren inner => .leftParen :: (inner.tokens ++ [.rightParen])

def Expr.tokensList : List Expr → List Token
  | [] => []
  | [e] => e.tokens
  | e :: es => e.tokens ++ .comma :: Expr.tokensList es

end

theorem Expr.tokensList_cons {es : List Expr} (hes : es ≠ []) (e : Expr) :
    tokensList (e :: es) = e.tokens ++ .comma :: tokensList es := by
  cases es with
  | nil => exact absurd rfl hes
  | cons => rfl

/-! ## Trees of derivations -/

mutual

/-- A derivation adds nothing to its tree but the place of each operand. -/
theorem Derivation.tokens_tree {n : Nonterminal} (d : Derivation n) :
    d.tree.tokens = d.tokens := by
  match d with
  | .plain logic => exact logic.tokens_tree
  | .choice chosen condition otherwise =>
    rw [Derivation.tree, Expr.tokens, chosen.tokens_tree, condition.tokens_tree,
      otherwise.tokens_tree, Derivation.tokens]
  | .single operand => exact operand.tokens_tree
  | .chain front op last _ _ =>
    rw [Derivation.tree, Expr.tokens, front.tokens_tree, last.tokens_tree, Derivation.tokens]
  | .compare lhs op rhs _ =>
    rw [Derivation.tree, Expr.tokens, lhs.tokens_tree, rhs.tokens_tree, Derivation.tokens]
  | .minus operand =>
    rw [Derivation.tree, Expr.tokens, operand.tokens_tree, Derivation.tokens]
  | .primary operand => exact operand.tokens_tree
  | .number _ | .symbol _ | .emptyCall _ => rfl
  | .call function arguments =>
    rw [Derivation.tree, Expr.tokens, arguments.tokensList_trees, Derivation.tokens]
  | .parens inner =>
    rw [Derivation.tree, Expr.tokens, inner.tokens_tree, Derivation.tokens]

theorem ArgumentDerivation.tokensList_trees (ds : ArgumentDerivation) :
    Expr.tokensList ds.trees = ds.tokens := by
  match ds with
  | .last argument => exact argument.tokens_tree
  | .more argument others =>
    rw [ArgumentDerivation.trees, Expr.tokensList_cons others.trees_ne_nil,
      argument.tokens_tree, others.tokensList_trees, ArgumentDerivation.tokens]

end

mutual

theorem Derivation.isWritten_tree {n : Nonterminal} (d : Derivation n) :
    d.tree.IsWritten := by
  match d with
  | .plain logic => exact logic.isWritten_tree
  | .choice chosen condition otherwise =>
    exact List.forall_mem_append.2 ⟨chosen.isWritten_tree,
      List.forall_mem_append.2 ⟨condition.isWritten_tree, otherwise.isWritten_tree⟩⟩
  | .single operand => exact operand.isWritten_tree
  | .chain front _ last _ _ =>
    exact List.forall_mem_append.2 ⟨front.isWritten_tree, last.isWritten_tree⟩
  | .compare lhs _ rhs _ =>
    exact List.forall_mem_append.2 ⟨lhs.isWritten_tree, rhs.isWritten_tree⟩
  | .minus operand => exact operand.isWritten_tree
  | .primary operand => exact operand.isWritten_tree
  | .number _ | .symbol _ | .emptyCall _ =>
    exact List.forall_mem_singleton.2 rfl
  | .call _ arguments =>
    exact List.forall_mem_cons.2 ⟨rfl, arguments.isWritten_trees⟩
  | .parens inner => exact inner.isWritten_tree

theorem ArgumentDerivation.isWritten_trees (ds : ArgumentDerivation) :
    ∀ a ∈ Expr.atomsList ds.trees, a.isWritten = true := by
  match ds with
  | .last argument =>
    exact List.forall_mem_append.2 ⟨argument.isWritten_tree, List.forall_mem_nil _⟩
  | .more argument others =>
    exact List.forall_mem_append.2 ⟨argument.isWritten_tree, others.isWritten_trees⟩

end

mutual

theorem Derivation.levelled_tree {n : Nonterminal} (d : Derivation n) : d.tree.Levelled := by
  match d with
  | .plain logic => exact logic.levelled_tree
  | .choice chosen condition otherwise =>
    have hlogic := Level.rank_lt_six .logic
    have hchosen := chosen.looseness_tree_le.trans_lt hlogic
    have hcondition := condition.looseness_tree_le.trans_lt hlogic
    exact ⟨⟨chosen.levelled_tree, hchosen⟩, ⟨condition.levelled_tree, hcondition⟩,
      otherwise.levelled_tree⟩
  | .single operand => exact operand.levelled_tree
  | .chain front op last hop hchain =>
    have hfront := front.looseness_tree_le
    have hlast := last.looseness_tree_le
    have hlevel := Level.mem_operators_iff.1 hop
    refine ⟨⟨front.levelled_tree, ?_⟩, last.levelled_tree, ?_⟩
    · rwa [hlevel, Level.frontLooseness, if_pos (Level.chains_iff.2 hchain)]
    · rwa [hlevel]
  | .compare lhs op rhs hop =>
    have hlhs := lhs.looseness_tree_le
    have hrhs := rhs.looseness_tree_le
    have hlevel := Level.mem_operators_iff.1 hop
    refine ⟨⟨lhs.levelled_tree, ?_⟩, rhs.levelled_tree, ?_⟩
    · rw [hlevel]
      exact hlhs
    · rw [hlevel]
      exact hrhs
  | .minus operand => exact ⟨operand.levelled_tree, operand.looseness_tree_le⟩
  | .primary operand => exact operand.levelled_tree
  | .number _ | .symbol _ | .emptyCall _ => trivial
  | .call _ arguments => exact arguments.levelledList_trees
  | .parens inner => exact inner.levelled_tree

theorem ArgumentDerivation.levelledList_trees (ds : ArgumentDerivation) :
    Expr.LevelledList ds.trees := by
  match ds with
  | .last argument => exact ⟨argument.levelled_tree, trivial⟩
  | .more argument others => exact ⟨argument.levelled_tree, others.levelledList_trees⟩

end

/-! ## Derivations of levelled trees -/

/-- Every nonterminal but the last is one alternative of the next looser one. -/
theorem Derivation.exists_next {m : Nonterminal} (d : Derivation m)
    (hm : m.looseness < 6) :
    ∃ (m' : Nonterminal) (d' : Derivation m'), m'.looseness = m.looseness + 1 ∧
      d'.tree = d.tree := by
  match m with
  | .primary => exact ⟨.unary, .primary d, rfl, rfl⟩
  | .unary => exact ⟨.binary .multiplicative, .single d, rfl, rfl⟩
  | .binary .multiplicative => exact ⟨.binary .additive, .single d, rfl, rfl⟩
  | .binary .additive => exact ⟨.binary .comparison, .single d, rfl, rfl⟩
  | .binary .comparison => exact ⟨.binary .logic, .single d, rfl, rfl⟩
  | .binary .logic => exact ⟨.cond, .plain d, rfl, rfl⟩
  | .cond => exact absurd hm (by decide)

theorem Nonterminal.eq_of_looseness_eq {m n : Nonterminal} (h : m.looseness = n.looseness) :
    m = n := by
  rcases m with _ | ⟨_ | _ | _ | _⟩ | _ | _ <;> rcases n with _ | ⟨_ | _ | _ | _⟩ | _ | _ <;>
    first
    | rfl
    | exact absurd h (by decide)

theorem Nonterminal.looseness_le_six (n : Nonterminal) : n.looseness ≤ 6 := by
  cases n with
  | binary level => exact (Level.rank_lt_six level).le
  | _ => simp [looseness]

theorem Derivation.exists_widened {m n : Nonterminal} (d : Derivation m)
    (hle : m.looseness ≤ n.looseness) : ∃ d' : Derivation n, d'.tree = d.tree := by
  obtain ⟨gap, hgap⟩ := Nat.exists_eq_add_of_le hle
  induction gap generalizing m with
  | zero =>
    obtain rfl := Nonterminal.eq_of_looseness_eq hgap.symm
    exact ⟨d, rfl⟩
  | succ gap ih =>
    have hn := n.looseness_le_six
    obtain ⟨m', d', hm', htree'⟩ := d.exists_next (by omega)
    obtain ⟨d'', htree''⟩ := ih d' (by omega) (by omega)
    exact ⟨d'', htree''.trans htree'⟩

mutual

/-- A levelled tree without resolved references has a derivation of every nonterminal
that is not tighter than the tree. -/
theorem Expr.Levelled.exists_derivation {e : Expr} (hlevelled : e.Levelled)
    (hwritten : e.IsWritten) (n : Nonterminal) (hle : e.looseness ≤ n.looseness) :
    ∃ d : Derivation n, d.tree = e := by
  match e with
  | .num text => exact (Derivation.number text).exists_widened hle
  | .symbol s => exact (Derivation.symbol s).exists_widened hle
  | .event _ | .metric _ | .context _ =>
    exact absurd (hwritten _ List.mem_cons_self) Bool.false_ne_true
  | .neg operand =>
    obtain ⟨d, htree⟩ := hlevelled.1.exists_derivation hwritten .unary hlevelled.2
    have hd : (Derivation.minus d).tree = .neg operand := by rw [Derivation.tree, htree]
    exact hd ▸ (Derivation.minus d).exists_widened hle
  | .binary op lhs rhs =>
    obtain ⟨⟨hlhs, hlhsLe⟩, hrhs, hrhsLe⟩ := hlevelled
    obtain ⟨hwrittenLhs, hwrittenRhs⟩ := List.forall_mem_append.1 hwritten
    have hop : op ∈ op.level.operators := Level.mem_operators_iff.2 rfl
    by_cases hcomparison : op.level = .comparison
    · rw [hcomparison] at hop hlhsLe hrhsLe
      obtain ⟨front, hfront⟩ := hlhs.exists_derivation hwrittenLhs (.binary .additive) hlhsLe
      obtain ⟨last, hlast⟩ := hrhs.exists_derivation hwrittenRhs (.binary .additive) hrhsLe
      have hd : (Derivation.compare front op last hop).tree = .binary op lhs rhs := by
        rw [Derivation.tree, hfront, hlast]
      rw [Expr.looseness, hcomparison] at hle
      exact hd ▸ (Derivation.compare front op last hop).exists_widened hle
    · rw [Level.frontLooseness, if_pos (Level.chains_iff.2 hcomparison)] at hlhsLe
      obtain ⟨front, hfront⟩ := hlhs.exists_derivation hwrittenLhs (.binary op.level) hlhsLe
      obtain ⟨last, hlast⟩ := hrhs.exists_derivation hwrittenRhs op.level.operand hrhsLe
      have hd : (Derivation.chain front op last hop hcomparison).tree = .binary op lhs rhs := by
        rw [Derivation.tree, hfront, hlast]
      exact hd ▸ (Derivation.chain front op last hop hcomparison).exists_widened hle
  | .call function [] => exact (Derivation.emptyCall function).exists_widened hle
  | .call function (argument :: arguments) =>
    obtain ⟨ds, htrees⟩ := Expr.LevelledList.exists_argumentDerivation hlevelled
      (List.forall_mem_cons.1 hwritten).2 (List.cons_ne_nil _ _)
    have hd : (Derivation.call function ds).tree = .call function (argument :: arguments) := by
      rw [Derivation.tree, htrees]
    exact hd ▸ (Derivation.call function ds).exists_widened hle
  | .cond chosen condition otherwise =>
    obtain ⟨⟨hchosen, hchosenLt⟩, ⟨hcondition, hconditionLt⟩, hotherwise⟩ := hlevelled
    obtain ⟨hwrittenChosen, hwrittenRest⟩ := List.forall_mem_append.1 hwritten
    obtain ⟨hwrittenCondition, hwrittenOtherwise⟩ := List.forall_mem_append.1 hwrittenRest
    obtain ⟨d₁, h₁⟩ := hchosen.exists_derivation hwrittenChosen (.binary .logic)
      (Nat.le_of_lt_succ hchosenLt)
    obtain ⟨d₂, h₂⟩ := hcondition.exists_derivation hwrittenCondition (.binary .logic)
      (Nat.le_of_lt_succ hconditionLt)
    obtain ⟨d₃, h₃⟩ := hotherwise.exists_derivation hwrittenOtherwise .cond
      otherwise.looseness_le_six
    have hd : (Derivation.choice d₁ d₂ d₃).tree = .cond chosen condition otherwise := by
      rw [Derivation.tree, h₁, h₂, h₃]
    exact hd ▸ (Derivation.choice d₁ d₂ d₃).exists_widened hle
  | .paren inner =>
    have hinner : inner.Levelled := hlevelled
    obtain ⟨d, htree⟩ := hinner.exists_derivation hwritten .cond inner.looseness_le_six
    have hd : (Derivation.parens d).tree = .paren inner := by rw [Derivation.tree, htree]
    exact hd ▸ (Derivation.parens d).exists_widened hle

theorem Expr.LevelledList.exists_argumentDerivation {es : List Expr}
    (hlevelled : Expr.LevelledList es)
    (hwritten : ∀ a ∈ Expr.atomsList es, a.isWritten = true) (hne : es ≠ []) :
    ∃ ds : ArgumentDerivation, ds.trees = es := by
  match es with
  | [] => exact absurd rfl hne
  | [e] =>
    obtain ⟨hwrittenHead, -⟩ := List.forall_mem_append.1 hwritten
    obtain ⟨d, htree⟩ := hlevelled.1.exists_derivation hwrittenHead .cond e.looseness_le_six
    exact ⟨.last d, by rw [ArgumentDerivation.trees, htree]⟩
  | e :: e' :: es =>
    obtain ⟨hwrittenHead, hwrittenTail⟩ := List.forall_mem_append.1 hwritten
    obtain ⟨d, htree⟩ := hlevelled.1.exists_derivation hwrittenHead .cond e.looseness_le_six
    obtain ⟨ds, htrees⟩ := Expr.LevelledList.exists_argumentDerivation hlevelled.2
      hwrittenTail (List.cons_ne_nil _ _)
    exact ⟨.more d ds, by rw [ArgumentDerivation.trees, htree, htrees]⟩

end

/-! ## What the parser answers -/

/-- The parser answers with the levelled trees, each from its own tokens. -/
theorem parseTokens_eq_ok_iff_levelled {ts : List PlacedToken} {e : Expr} :
    parseTokens ts = .ok e ↔ e.Levelled ∧ e.IsWritten ∧ ts.map (·.token) = e.tokens := by
  constructor
  · intro h
    obtain ⟨d, htokens, rfl⟩ := exists_derivation_of_parseTokens h
    exact ⟨d.levelled_tree, d.isWritten_tree, (d.tokens_tree.trans htokens).symm⟩
  · rintro ⟨hlevelled, hwritten, htokens⟩
    obtain ⟨d, rfl⟩ := hlevelled.exists_derivation hwritten .cond e.looseness_le_six
    exact d.parseTokens_eq_ok (htokens.trans d.tokens_tree)

theorem parse_eq_ok_of_tokens {text : String} {e : Expr}
    (htokens : (tokenize text).map (List.map (·.token)) = .ok e.tokens)
    (hlevelled : e.Levelled) (hwritten : e.IsWritten) : parse text = .ok e := by
  cases htokenize : tokenize text with
  | error cause => simp [htokenize, Except.map] at htokens
  | ok placed =>
    rw [htokenize] at htokens
    injection htokens with htokens
    rw [parse, htokenize]
    exact parseTokens_eq_ok_iff_levelled.2 ⟨hlevelled, hwritten, htokens⟩

end TopdownMetrics.Formula

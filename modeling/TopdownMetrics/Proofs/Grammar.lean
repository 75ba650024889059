import TopdownMetrics.Formula.Parser
import Mathlib.Tactic

/-!
# Derivations of the formula grammar

The grammar is a family of types: a value of `Derivation n` is one way to derive
the nonterminal `n`.  It has a token list, `tokens`, and a formula tree, `tree`.
The productions list their operators and operands themselves; that the levels of
the parser are the same is proved (`Level.mem_operators_iff`, `reads_operand_iff`).

A chain of operators is derived from its front and its last operand, so it
associates to the left; a comparison has room for one operator only; what follows
`else` is a whole `cond`, so such branches nest to the right.  Only a bare name is
called.
-/

namespace TopdownMetrics.Formula

/-- The nonterminals of the grammar.  The binary levels are its `logic`, `compare`,
`add` and `mul`. -/
inductive Nonterminal where
  | cond
  | binary (level : Level)
  | unary
  | primary
  deriving DecidableEq

/-- The operators of each binary nonterminal. -/
def Level.operators : Level → List BinaryOp
  | .logic => [.and, .or]
  | .comparison => [.lt, .gt, .le, .ge, .eq, .ne]
  | .additive => [.add, .sub]
  | .multiplicative => [.mul, .div, .mod]

/-- What stands between the operators of each binary nonterminal. -/
def Level.operand : Level → Nonterminal
  | .logic => .binary .comparison
  | .comparison => .binary .additive
  | .additive => .binary .multiplicative
  | .multiplicative => .unary

mutual

inductive Derivation : Nonterminal → Type where
  /-- `cond := logic` -/
  | plain (logic : Derivation (.binary .logic)) : Derivation .cond
  /-- `cond := logic "if" logic "else" cond` -/
  | choice (chosen condition : Derivation (.binary .logic))
      (otherwise : Derivation .cond) : Derivation .cond
  /-- A level without an operator of its own. -/
  | single {level : Level} (operand : Derivation level.operand) :
      Derivation (.binary level)
  /-- `logic := logic ("&" | "|") compare`, `add := add ("+" | "-") mul` and
  `mul := mul ("*" | "/" | "%") unary` -/
  | chain {level : Level} (front : Derivation (.binary level)) (op : BinaryOp)
      (last : Derivation level.operand) (hop : op ∈ level.operators)
      (hchain : level ≠ .comparison) : Derivation (.binary level)
  /-- `compare := add ("<" | ">" | "<=" | ">=" | "==" | "!=") add` -/
  | compare (lhs : Derivation (.binary .additive)) (op : BinaryOp)
      (rhs : Derivation (.binary .additive)) (hop : op ∈ Level.operators .comparison) :
      Derivation (.binary .comparison)
  /-- `unary := "-" unary` -/
  | minus (operand : Derivation .unary) : Derivation .unary
  /-- `unary := primary` -/
  | primary (operand : Derivation .primary) : Derivation .unary
  | number (text : String) : Derivation .primary
  | symbol (s : Symbol) : Derivation .primary
  /-- A call without arguments. -/
  | emptyCall (function : String) : Derivation .primary
  | call (function : String) (arguments : ArgumentDerivation) : Derivation .primary
  /-- `primary := "(" cond ")"` -/
  | parens (inner : Derivation .cond) : Derivation .primary

/-- The derivations of one or more arguments, separated by commas. -/
inductive ArgumentDerivation : Type where
  | last (argument : Derivation .cond)
  | more (argument : Derivation .cond) (others : ArgumentDerivation)

end

mutual

/-- The token list that a derivation derives. -/
def Derivation.tokens {n : Nonterminal} : Derivation n → List Token
  | .plain logic => logic.tokens
  | .choice chosen condition otherwise =>
    chosen.tokens ++ .ifWord :: (condition.tokens ++ .elseWord :: otherwise.tokens)
  | .single operand => operand.tokens
  | .chain front op last _ _ => front.tokens ++ .operator op :: last.tokens
  | .compare lhs op rhs _ => lhs.tokens ++ .operator op :: rhs.tokens
  | .minus operand => .operator .sub :: operand.tokens
  | .primary operand => operand.tokens
  | .number text => [.num text]
  | .symbol s => [.symbol s]
  | .emptyCall function => [.symbol (.bare function), .leftParen, .rightParen]
  | .call function arguments =>
    .symbol (.bare function) :: .leftParen :: (arguments.tokens ++ [.rightParen])
  | .parens inner => .leftParen :: (inner.tokens ++ [.rightParen])

def ArgumentDerivation.tokens : ArgumentDerivation → List Token
  | .last argument => argument.tokens
  | .more argument others => argument.tokens ++ .comma :: others.tokens

end

mutual

/-- The formula tree of a derivation. -/
def Derivation.tree {n : Nonterminal} : Derivation n → Expr
  | .plain logic => logic.tree
  | .choice chosen condition otherwise =>
    .cond chosen.tree condition.tree otherwise.tree
  | .single operand => operand.tree
  | .chain front op last _ _ => .binary op front.tree last.tree
  | .compare lhs op rhs _ => .binary op lhs.tree rhs.tree
  | .minus operand => .neg operand.tree
  | .primary operand => operand.tree
  | .number text => .num text
  | .symbol s => .symbol s
  | .emptyCall function => .call function []
  | .call function arguments => .call function arguments.trees
  | .parens inner => .paren inner.tree

def ArgumentDerivation.trees : ArgumentDerivation → List Expr
  | .last argument => [argument.tree]
  | .more argument others => argument.tree :: others.trees

end

/-! ## The levels of the grammar and of the parser -/

theorem Level.mem_operators_iff {level : Level} {op : BinaryOp} :
    op ∈ level.operators ↔ op.level = level := by
  cases level <;> cases op <;> decide

theorem Level.chains_iff {level : Level} : level.chains = true ↔ level ≠ .comparison := by
  cases level <;> decide

/-! ## How loosely a tree binds -/

/-- The place of a nonterminal in the descent of the grammar. -/
def Nonterminal.looseness : Nonterminal → Nat
  | .primary => 0
  | .unary => 1
  | .binary level => level.rank + 1
  | .cond => 6

/-- The place of the tightest nonterminal that has the outermost node of a tree. -/
def Expr.looseness : Expr → Nat
  | .neg _ => 1
  | .binary op _ _ => op.level.rank + 1
  | .cond .. => 6
  | _ => 0

theorem Level.looseness_operand_lt (level : Level) :
    level.operand.looseness < level.rank + 1 := by
  cases level <;> decide

theorem Level.rank_lt_six (level : Level) : level.rank + 1 < 6 := by
  cases level <;> decide

/-- A derivation of a nonterminal has a tree that binds at least as tightly. -/
theorem Derivation.looseness_tree_le {n : Nonterminal} (d : Derivation n) :
    d.tree.looseness ≤ n.looseness := by
  match d with
  | .plain logic =>
    have h := logic.looseness_tree_le
    have hlogic := Level.rank_lt_six .logic
    simp only [tree, Nonterminal.looseness] at h ⊢
    omega
  | .choice .. => exact le_rfl
  | @Derivation.single level operand =>
    have h := operand.looseness_tree_le
    have hlt := level.looseness_operand_lt
    rw [tree, Nonterminal.looseness]
    omega
  | .chain front op last hop hchain =>
    simp [tree, Expr.looseness, Nonterminal.looseness, Level.mem_operators_iff.1 hop]
  | .compare lhs op rhs hop =>
    simp [tree, Expr.looseness, Nonterminal.looseness, Level.mem_operators_iff.1 hop]
  | .minus .. => exact le_rfl
  | .primary operand =>
    have h := operand.looseness_tree_le
    simp only [tree, Nonterminal.looseness] at h ⊢
    omega
  | .number .. | .symbol .. | .emptyCall .. | .call .. | .parens .. => exact le_rfl

theorem ArgumentDerivation.trees_ne_nil (arguments : ArgumentDerivation) :
    arguments.trees ≠ [] := by
  cases arguments <;> simp [trees]

/-! ## A tree has one derivation -/

theorem Derivation.tree_ne_cond {level : Level} (d : Derivation (.binary level))
    (chosen condition otherwise : Expr) : d.tree ≠ .cond chosen condition otherwise := by
  intro h
  have hle := d.looseness_tree_le
  have hlt := level.rank_lt_six
  rw [h] at hle
  simp only [Expr.looseness, Nonterminal.looseness] at hle
  omega

theorem Derivation.tree_ne_binary {level : Level} (d : Derivation level.operand)
    {op : BinaryOp} (hop : op ∈ level.operators) (lhs rhs : Expr) :
    d.tree ≠ .binary op lhs rhs := by
  intro h
  have hle := d.looseness_tree_le
  have hlt := level.looseness_operand_lt
  rw [h] at hle
  simp only [Expr.looseness, Level.mem_operators_iff.1 hop] at hle
  omega

theorem Derivation.tree_ne_neg (d : Derivation .primary) (operand : Expr) :
    d.tree ≠ .neg operand := by
  intro h
  have hle := d.looseness_tree_le
  rw [h] at hle
  simp [Expr.looseness, Nonterminal.looseness] at hle

mutual

theorem Derivation.tree_injective {n : Nonterminal} (d d' : Derivation n)
    (h : d.tree = d'.tree) : d = d' := by
  match d, d' with
  | .plain logic, .plain logic' =>
    rw [logic.tree_injective logic' h]
  | .plain logic, .choice .. => exact absurd h (logic.tree_ne_cond _ _ _)
  | .choice .., .plain logic' => exact absurd h.symm (logic'.tree_ne_cond _ _ _)
  | .choice chosen condition otherwise, .choice chosen' condition' otherwise' =>
    injection h with h₁ h₂ h₃
    rw [chosen.tree_injective chosen' h₁, condition.tree_injective condition' h₂,
      otherwise.tree_injective otherwise' h₃]
  | .single operand, .single operand' =>
    rw [operand.tree_injective operand' h]
  | .single operand, .chain _ _ _ hop _ => exact absurd h (operand.tree_ne_binary hop _ _)
  | .single operand, .compare _ _ _ hop => exact absurd h (operand.tree_ne_binary hop _ _)
  | .chain _ _ _ hop _, .single operand' =>
    exact absurd h.symm (operand'.tree_ne_binary hop _ _)
  | .compare _ _ _ hop, .single operand' =>
    exact absurd h.symm (operand'.tree_ne_binary hop _ _)
  | .chain front op last hop hchain, .chain front' op' last' hop' hchain' =>
    injection h with h₁ h₂ h₃
    subst h₁
    rw [front.tree_injective front' h₂, last.tree_injective last' h₃]
  | .chain _ _ _ _ hchain, .compare .. => exact absurd rfl hchain
  | .compare .., .chain _ _ _ _ hchain => exact absurd rfl hchain
  | .compare lhs op rhs hop, .compare lhs' op' rhs' hop' =>
    injection h with h₁ h₂ h₃
    subst h₁
    rw [lhs.tree_injective lhs' h₂, rhs.tree_injective rhs' h₃]
  | .minus operand, .minus operand' =>
    injection h with h
    rw [operand.tree_injective operand' h]
  | .minus .., .primary operand' => exact absurd h.symm (operand'.tree_ne_neg _)
  | .primary operand, .minus .. => exact absurd h (operand.tree_ne_neg _)
  | .primary operand, .primary operand' =>
    rw [operand.tree_injective operand' h]
  | .number text, d' =>
    cases d' <;> simp_all [Derivation.tree]
  | .symbol s, d' =>
    cases d' <;> simp_all [Derivation.tree]
  | .emptyCall function, d' =>
    cases d' with
    | call function' arguments' =>
      injection h with _ h
      exact absurd h.symm arguments'.trees_ne_nil
    | _ => simp_all [Derivation.tree]
  | .call function arguments, d' =>
    cases d' with
    | emptyCall function' =>
      injection h with _ h
      exact absurd h arguments.trees_ne_nil
    | call function' arguments' =>
      injection h with h₁ h₂
      rw [h₁, arguments.trees_injective arguments' h₂]
    | _ => simp_all [Derivation.tree]
  | .parens inner, d' =>
    cases d' with
    | parens inner' =>
      injection h with h
      rw [inner.tree_injective inner' h]
    | _ => simp_all [Derivation.tree]

theorem ArgumentDerivation.trees_injective (ds ds' : ArgumentDerivation)
    (h : ds.trees = ds'.trees) : ds = ds' := by
  match ds, ds' with
  | .last argument, .last argument' =>
    injection h with h
    rw [argument.tree_injective argument' h]
  | .last _, .more _ others' =>
    injection h with _ h
    exact absurd h.symm others'.trees_ne_nil
  | .more _ others, .last _ =>
    injection h with _ h
    exact absurd h others.trees_ne_nil
  | .more argument others, .more argument' others' =>
    injection h with h₁ h₂
    rw [argument.tree_injective argument' h₁, others.trees_injective others' h₂]

end

end TopdownMetrics.Formula

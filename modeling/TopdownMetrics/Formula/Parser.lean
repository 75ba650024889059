import TopdownMetrics.Formula.Lexer

/-!
# From tokens to a formula tree

The grammar, loosest binding first:

    cond     := logic ("if" logic "else" cond)?
    logic    := compare (("&" | "|") compare)*
    compare  := add (("<" | ">" | "<=" | ">=" | "==" | "!=") add)?
    add      := mul (("+" | "-") mul)*
    mul      := unary (("*" | "/" | "%") unary)*
    unary    := "-" unary | primary
    primary  := NUMBER | SYMBOL | NAME "(" arguments ")" | "(" cond ")"

The four binary levels share one definition, indexed by `Level`.  Each step
returns the tokens behind what it read together with a bound on their number;
the recursion ends because that number falls, and between two falls the grammar
only descends.
-/

namespace TopdownMetrics.Formula

/-- The precedence levels of binary operators, loosest first. -/
inductive Level where
  | logic
  | comparison
  | additive
  | multiplicative
  deriving DecidableEq, Repr

def BinaryOp.level : BinaryOp → Level
  | .and | .or => .logic
  | .lt | .gt | .le | .ge | .eq | .ne => .comparison
  | .add | .sub => .additive
  | .mul | .div | .mod => .multiplicative

def Level.tighter? : Level → Option Level
  | .logic => some .comparison
  | .comparison => some .additive
  | .additive => some .multiplicative
  | .multiplicative => none

/-- Whether operators of the level form chains; a comparison stands alone. -/
def Level.chains : Level → Bool
  | .comparison => false
  | _ => true

/-- The place of a level in the descent of the grammar. -/
def Level.rank : Level → Nat
  | .logic => 4
  | .comparison => 3
  | .additive => 2
  | .multiplicative => 1

theorem Level.rank_tighter {level tighter : Level} (h : level.tighter? = some tighter) :
    tighter.rank < level.rank := by
  cases level <;> cases h <;> decide

theorem Level.rank_pos (level : Level) : 0 < level.rank := by
  cases level <;> decide

/-- The operator of the given level that a token writes. -/
def Token.operatorAt? (level : Level) : Token → Option BinaryOp
  | .operator op => if op.level = level then some op else none
  | _ => none

/-- The name that a symbol can call; only a bare one without qualifiers has it. -/
def Symbol.callee? (s : Symbol) : Option String :=
  if s.sigil = .bare ∧ s.isQualified = false then some s.name else none

/-- What a parsing step read, and the fewer than `bound` tokens behind it. -/
structure Step (α : Type) (bound : Nat) where
  value : α
  rest : List PlacedToken
  within : rest.length < bound

def unexpected (t : PlacedToken) : SyntaxError :=
  .unexpectedToken t.token.describe t.offset

/-- The first token. -/
def next : (ts : List PlacedToken) → Except SyntaxError (Step PlacedToken ts.length)
  | [] => .error .unexpectedEnd
  | t :: rest => .ok ⟨t, rest, by simp⟩

/-- The first token, if it is the wanted one. -/
def accept? (wanted : Token) : (ts : List PlacedToken) → Option (Step Unit ts.length)
  | [] => none
  | t :: rest => if t.token = wanted then some ⟨(), rest, by simp⟩ else none

/-- The first token, if it is an operator of the level. -/
def acceptOperator? (level : Level) :
    (ts : List PlacedToken) → Option (Step BinaryOp ts.length)
  | [] => none
  | t :: rest => (t.token.operatorAt? level).map fun op => ⟨op, rest, by simp⟩

/-- The first token, which has to be the wanted one. -/
def expect (wanted : Token) (ts : List PlacedToken) :
    Except SyntaxError (Step Unit ts.length) := do
  let ⟨t, rest, within⟩ ← next ts
  if t.token = wanted then return ⟨(), rest, within⟩ else throw (unexpected t)

mutual

def parseCond (ts : List PlacedToken) : Except SyntaxError (Step Expr ts.length) := do
  let ⟨chosen, rest, within⟩ ← parseLevel .logic ts
  match accept? .ifWord rest with
  | none => return ⟨chosen, rest, within⟩
  | some ⟨_, afterIf, _⟩ =>
    let ⟨condition, beforeElse, _⟩ ← parseLevel .logic afterIf
    let ⟨_, afterElse, _⟩ ← expect .elseWord beforeElse
    let ⟨otherwise, rest, _⟩ ← parseCond afterElse
    return ⟨.cond chosen condition otherwise, rest, by omega⟩
  termination_by (ts.length, 12)
  decreasing_by
    · exact Prod.Lex.right _ (by decide)
    · exact Prod.Lex.left _ _ (by omega)
    · exact Prod.Lex.left _ _ (by omega)

/-- An operand of the level and the operators of the level behind it. -/
def parseLevel (level : Level) (ts : List PlacedToken) :
    Except SyntaxError (Step Expr ts.length) := do
  let ⟨first, rest, _⟩ ← parseOperand level ts
  let ⟨e, rest, _⟩ ← parseTail level first rest
  return ⟨e, rest, by omega⟩
  termination_by (ts.length, 2 * level.rank + 1)
  decreasing_by
    · exact Prod.Lex.right _ (by omega)
    · exact Prod.Lex.left _ _ (by omega)

def parseOperand (level : Level) (ts : List PlacedToken) :
    Except SyntaxError (Step Expr ts.length) :=
  match _h : level.tighter? with
  | some tighter => parseLevel tighter ts
  | none => parseUnary ts
  termination_by (ts.length, 2 * level.rank)
  decreasing_by
    · exact Prod.Lex.right _ (by have := Level.rank_tighter _h; omega)
    · exact Prod.Lex.right _ (by have := level.rank_pos; omega)

/-- The operators of the level with their right operands, applied to what stands
in front of them. -/
def parseTail (level : Level) (lhs : Expr) (ts : List PlacedToken) :
    Except SyntaxError (Step Expr (ts.length + 1)) := do
  match acceptOperator? level ts with
  | none => return ⟨lhs, ts, by omega⟩
  | some ⟨op, afterOp, _⟩ =>
    let ⟨rhs, rest, _⟩ ← parseOperand level afterOp
    if level.chains then
      let ⟨e, rest, _⟩ ← parseTail level (.binary op lhs rhs) rest
      return ⟨e, rest, by omega⟩
    else
      return ⟨.binary op lhs rhs, rest, by omega⟩
  termination_by (ts.length, 0)
  decreasing_by
    · exact Prod.Lex.left _ _ (by omega)
    · exact Prod.Lex.left _ _ (by omega)

def parseUnary (ts : List PlacedToken) : Except SyntaxError (Step Expr ts.length) := do
  match accept? (.operator .sub) ts with
  | none => parsePrimary ts
  | some ⟨_, afterMinus, _⟩ =>
    let ⟨operand, rest, _⟩ ← parseUnary afterMinus
    return ⟨.neg operand, rest, by omega⟩
  termination_by (ts.length, 1)
  decreasing_by
    · exact Prod.Lex.right _ (by decide)
    · exact Prod.Lex.left _ _ (by omega)

def parsePrimary (ts : List PlacedToken) : Except SyntaxError (Step Expr ts.length) := do
  let ⟨t, rest, within⟩ ← next ts
  match t.token with
  | .num text => return ⟨.num text, rest, within⟩
  | .leftParen =>
    let ⟨inner, beforeParen, _⟩ ← parseCond rest
    let ⟨_, rest, _⟩ ← expect .rightParen beforeParen
    return ⟨.paren inner, rest, by omega⟩
  | .symbol s =>
    match s.callee?, accept? .leftParen rest with
    | some function, some ⟨_, afterParen, _⟩ =>
      let ⟨arguments, rest, _⟩ ← parseArguments afterParen
      return ⟨.call function arguments, rest, by omega⟩
    | _, _ => return ⟨.symbol s, rest, within⟩
  | _ => throw (unexpected t)
  termination_by (ts.length, 0)
  decreasing_by
    · exact Prod.Lex.left _ _ (by omega)
    · exact Prod.Lex.left _ _ (by omega)

def parseArguments (ts : List PlacedToken) :
    Except SyntaxError (Step (List Expr) ts.length) := do
  match accept? .rightParen ts with
  | some ⟨_, rest, within⟩ => return ⟨[], rest, within⟩
  | none => parseArgumentList ts
  termination_by (ts.length, 14)
  decreasing_by
    · exact Prod.Lex.right _ (by decide)

/-- One or more arguments, separated by commas, and the closing parenthesis. -/
def parseArgumentList (ts : List PlacedToken) :
    Except SyntaxError (Step (List Expr) ts.length) := do
  let ⟨first, rest, _⟩ ← parseCond ts
  let ⟨t, rest, _⟩ ← next rest
  match t.token with
  | .comma =>
    let ⟨others, rest, _⟩ ← parseArgumentList rest
    return ⟨first :: others, rest, by omega⟩
  | .rightParen => return ⟨[first], rest, by omega⟩
  | _ => throw (unexpected t)
  termination_by (ts.length, 13)
  decreasing_by
    · exact Prod.Lex.right _ (by decide)
    · exact Prod.Lex.left _ _ (by omega)

end

def parseTokens (ts : List PlacedToken) : Except SyntaxError Expr := do
  let ⟨e, rest, _⟩ ← parseCond ts
  match rest with
  | [] => return e
  | extra :: _ => throw (unexpected extra)

def parse (text : String) : Except SyntaxError Expr := do
  parseTokens (← tokenize text)

end TopdownMetrics.Formula

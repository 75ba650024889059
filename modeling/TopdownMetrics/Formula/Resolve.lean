import TopdownMetrics.Formula.Parser
import TopdownMetrics.Formula.Simplify
import TopdownMetrics.Rules.Basic
import TopdownMetrics.Table.SymbolTable
import TopdownMetrics.Text.Blank

/-!
# Resolving references

A pass replaces every symbolic reference in a tree by one step of its definition and
simplifies the result.  Definitions may bring in new references, so passes are
repeated until none are left.  Definitions that refer to each other in a circle never
come to an end; they are recognised by the number of passes.
-/

namespace TopdownMetrics.Formula

/-- The number of passes after which a formula is given up. -/
def passLimit : Nat := 64

/-- Why a formula cannot be resolved. -/
inductive ResolveError where
  /-- The formula or a fragment it refers to does not parse. -/
  | parse (cause : SyntaxError)
  /-- `#name` is neither a constant nor a node nor an auxiliary value. -/
  | unknownAux (name : String)
  /-- The children of a node without children are wanted. -/
  | noChildren (parent : String)
  /-- References are left after all passes. -/
  | passLimit (passes : Nat)
  /-- An event has a modifier without a meaning. -/
  | unresolvedSymbol (symbol : String)
  deriving DecidableEq, Repr, Inhabited

def ResolveError.message : ResolveError → String
  | .parse cause => "Formula does not parse: " ++ cause.message
  | .unknownAux name => "Unknown auxiliary symbol '#" ++ name ++ "'"
  | .noChildren parent => "Node '" ++ parent ++ "' has no children to expand"
  | .passLimit passes =>
    "Formula did not settle after " ++ toString passes ++ " substitution passes"
  | .unresolvedSymbol symbol => "Unresolved symbol '" ++ symbol ++ "'"

/-- What a formula is resolved against. -/
structure Scope where
  table : SymbolTable
  rules : Rules
  /-- The rules of the architecture. -/
  arch : ArchRules
  /-- The fixups of the architecture and the common ones. -/
  fixups : List Fixup
  /-- The unit on which qualified events are counted. -/
  pmu : String

def Scope.ofArch (table : SymbolTable) (rules : Rules) (name pmu : String) : Scope where
  table := table
  rules := rules
  arch := rules.arch name
  fixups := rules.fixupsFor name
  pmu := pmu

/-- What a modifier of an event means. -/
inductive Qualification where
  | privilege (p : Privilege)
  /-- An escaped term. -/
  | term (text : String)
  deriving DecidableEq, Repr

def qualification? (modifier : String) : Option Qualification :=
  if modifier = "sup" ∨ modifier = "k" then some (.privilege .kernel)
  else if modifier = "user" ∨ modifier = "u" then some (.privilege .user)
  else if modifier = "i1" then some (.term "\\,inv")
  else if modifier = "e1" then some (.term "\\,edge")
  else
    match modifier.toList with
    | 'u' :: '0' :: 'x' :: ds =>
      if ds ≠ [] ∧ ds.all isHexDigit then some (.term ("\\,umask\\=0x" ++ String.ofList ds))
      else none
    | 'c' :: ds =>
      if ds ≠ [] ∧ ds.all Char.isDigit then some (.term ("\\,cmask\\=" ++ String.ofList ds))
      else none
    | _ => none

/-- Adds the meaning of a modifier to an event.  The last privilege counts. -/
def EventRef.qualify (e : EventRef) : Qualification → EventRef
  | .privilege p => { e with privilege := some p }
  | .term text => { e with qualifiers := e.qualifiers ++ [text] }

namespace Scope

def parseFragment (s : Scope) (text : String) : Except ResolveError Expr :=
  (Formula.parse (Fixup.applyAll s.fixups text)).mapError .parse

/-- The sum of references to the children of a node. -/
def childrenSum (s : Scope) (parent : String) : Except ResolveError Expr :=
  match Expr.sum? ((s.table.childrenOf parent).map fun c => .symbol (.bare c)) with
  | some e => .ok e
  | none => .error (.noChildren parent)

/-- The meaning of `#name`. -/
def hashReference (s : Scope) (name : String) : Except ResolveError Expr :=
  if s.rules.context.keep.contains name then
    .ok (.context name)
  else
    match s.rules.context.replacements.lookup name with
    | some text => ((Formula.parse text).map Expr.bracket).mapError .parse
    | none =>
      if name = "Memory" then
        .ok (.num (if s.arch.memory then "1" else "0"))
      else
        match s.table.nodes[name]?.or s.table.aux[name]? with
        | some fragment => (s.parseFragment fragment).map Expr.bracket
        | none => .error (.unknownAux name)

def qualifiedEvent (s : Scope) (symbol : Symbol) : Except ResolveError EventRef :=
  let start : EventRef := ⟨symbol.name, s.pmu, [], none, symbol.terms⟩
  match symbol.modifiers.mapM qualification? with
  | some qs => .ok (qs.foldl EventRef.qualify start)
  | none => .error (.unresolvedSymbol symbol.render)

/-- The meaning of a symbol without a mark.  Metrics that are ignored are replaced by
their formulas, and metrics that are not available by zero. -/
def bareReference (s : Scope) (symbol : Symbol) : Except ResolveError Expr :=
  if symbol.isQualified then
    (s.qualifiedEvent symbol).map .event
  else
    match s.table.info[symbol.name]? with
    | none => .ok (.event (.plain symbol.name))
    | some formula =>
      if s.rules.ignoredMetrics.contains symbol.name then
        (s.parseFragment formula).map Expr.bracket
      else if Text.trim formula = "#NA" then
        .ok (.num "0")
      else
        .ok (.metric (s.table.canonicalName symbol.name))

def step (s : Scope) (symbol : Symbol) : Except ResolveError Expr :=
  match symbol.sigil with
  | .aggregate => (s.childrenSum symbol.name).map fun children =>
      .call "max" [.symbol (.bare symbol.name), children]
  | .sum => (s.childrenSum symbol.name).map .paren
  | .hash => s.hashReference symbol.name
  | .bare => s.bareReference symbol

mutual

def substitute (s : Scope) : Expr → Except ResolveError Expr
  | .symbol symbol => s.step symbol
  | .neg operand => return .neg (← s.substitute operand)
  | .binary op lhs rhs => return .binary op (← s.substitute lhs) (← s.substitute rhs)
  | .call function arguments => return .call function (← s.substituteList arguments)
  | .cond chosen condition otherwise =>
    return .cond (← s.substitute chosen) (← s.substitute condition)
      (← s.substitute otherwise)
  | .paren inner => return .paren (← s.substitute inner)
  | e => return e

def substituteList (s : Scope) : List Expr → Except ResolveError (List Expr)
  | [] => return []
  | e :: es => return (← s.substitute e) :: (← s.substituteList es)

end

/-- Passes over the tree until no symbol is left, at most `passes` of them. -/
def settle (s : Scope) : (passes : Nat) → Expr → Except ResolveError Expr
  | 0, e => if e.hasSymbols then .error (.passLimit Formula.passLimit) else .ok e
  | passes + 1, e =>
    if e.hasSymbols then do
      let e ← s.substitute e
      s.settle passes e.simplified
    else
      .ok e

/-- The tree of a formula text with all references resolved. -/
def resolve (s : Scope) (formula : String) : Except ResolveError Expr := do
  let e ← s.parseFragment formula
  s.settle passLimit e.simplified

end Scope

/-- Adds the slots term to a formula that uses the topdown event family and does not
yet count slots. -/
def withCompanionSlots (slots : SlotsRule) (e : Expr) : Except SyntaxError Expr :=
  let text := e.render
  if Text.contains text slots.family && !Text.contains text slots.token then do
    let base := match e with
      | .cond .. => .paren e
      | e => e
    return .binary .add base (← Formula.parse slots.term)
  else
    .ok e

end TopdownMetrics.Formula

import TopdownMetrics.Number.Layout

/-!
# Formula trees

A formula is parsed once into an `Expr`.  Symbolic references stay `symbol`
leaves until resolution replaces them by events, metrics and runtime constants;
parentheses are nodes of their own, so that a tree is rendered exactly as it was
written.
-/

namespace TopdownMetrics.Formula

/-- The mark in front of a reference. -/
inductive Sigil where
  /-- No mark: an informational metric or an event. -/
  | bare
  /-- `#name`: a runtime constant, a topdown node or an auxiliary value. -/
  | hash
  /-- `##name`: the sum of a node's children. -/
  | sum
  /-- `##?name`: the larger of a node and the sum of its children. -/
  | aggregate
  deriving DecidableEq, Repr, Inhabited

def Sigil.text : Sigil → String
  | .bare => ""
  | .hash => "#"
  | .sum => "##"
  | .aggregate => "##?"

/-- A reference that still has to be resolved. -/
structure Symbol where
  sigil : Sigil
  name : String
  /-- The `:modifier` suffixes, such as `c1` or `sup`. -/
  modifiers : List String
  /-- The text between two `@`, taken as it stands. -/
  terms : Option String
  deriving DecidableEq, Repr, Inhabited

namespace Symbol

def bare (name : String) : Symbol :=
  ⟨.bare, name, [], none⟩

def isQualified (s : Symbol) : Bool :=
  !s.modifiers.isEmpty || s.terms.isSome

def render (s : Symbol) : String :=
  s.sigil.text ++ s.name ++ String.join (s.modifiers.map (":" ++ ·)) ++
    match s.terms with
    | some terms => "@" ++ terms ++ "@"
    | none => ""

end Symbol

/-- The privilege level in which an event counts. -/
inductive Privilege where
  | kernel
  | user
  deriving DecidableEq, Repr, Inhabited

def Privilege.text : Privilege → String
  | .kernel => "k"
  | .user => "u"

/-- A hardware event, possibly with the terms of a performance-monitoring unit. -/
structure EventRef where
  name : String
  /-- The unit that is named when qualifiers force the form `pmu@event@`. -/
  pmu : String
  /-- Escaped terms such as `\,cmask\=1`. -/
  qualifiers : List String
  privilege : Option Privilege
  /-- The raw term group of the source text. -/
  terms : Option String
  deriving DecidableEq, Repr, Inhabited

namespace EventRef

def plain (name : String) : EventRef :=
  ⟨name, "", [], none, none⟩

/-- A raw term group keeps its own unit name in front; otherwise qualifiers or a
privilege move the event behind the unit. -/
def render (e : EventRef) : String :=
  let qualifiers := String.join e.qualifiers
  let suffix := (e.privilege.map Privilege.text).getD ""
  match e.terms with
  | some terms => e.name ++ "@" ++ terms ++ qualifiers ++ "@" ++ suffix
  | none =>
    if e.qualifiers.isEmpty && e.privilege.isNone then e.name
    else e.pmu ++ "@" ++ e.name ++ qualifiers ++ "@" ++ suffix

end EventRef

inductive BinaryOp where
  | add | sub | mul | div | mod
  | lt | gt | le | ge | eq | ne
  | and | or
  deriving DecidableEq, Repr, Inhabited

def BinaryOp.text : BinaryOp → String
  | .add => "+"
  | .sub => "-"
  | .mul => "*"
  | .div => "/"
  | .mod => "%"
  | .lt => "<"
  | .gt => ">"
  | .le => "<="
  | .ge => ">="
  | .eq => "=="
  | .ne => "!="
  | .and => "&"
  | .or => "|"

inductive Expr where
  /-- A literal, kept as it was written. -/
  | num (text : String)
  /-- A reference that still has to be resolved. -/
  | symbol (s : Symbol)
  | event (e : EventRef)
  /-- A reference to another emitted metric. -/
  | metric (name : String)
  /-- A runtime constant such as `#SMT_on`, without its mark. -/
  | context (name : String)
  | neg (operand : Expr)
  | binary (op : BinaryOp) (lhs rhs : Expr)
  | call (function : String) (arguments : List Expr)
  /-- `chosen if condition else otherwise` -/
  | cond (chosen condition otherwise : Expr)
  | paren (inner : Expr)
  deriving Repr, Inhabited, BEq

namespace Expr

/-- The sum of the terms, associated to the left; nothing for no terms. -/
def sum? : List Expr → Option Expr
  | [] => none
  | first :: rest => some (rest.foldl (.binary .add) first)

/-- Trees that never need parentheses when they are substituted. -/
def isAtomic : Expr → Bool
  | .neg _ | .binary .. | .cond .. => false
  | _ => true

/-- The tree in parentheses, unless it is atomic. -/
def bracket (e : Expr) : Expr :=
  if e.isAtomic then e else .paren e

/-- The value of a decimal literal, also inside parentheses.  Hexadecimal
literals have none. -/
def number? : Expr → Option Binary64
  | .num text =>
    match text.toList with
    | '0' :: 'x' :: _ => none
    | _ => Binary64.ofText? text
  | .paren inner => inner.number?
  | _ => none

def isZero (e : Expr) : Bool :=
  e.number?.any Binary64.isZero

def isOne (e : Expr) : Bool :=
  e.number?.any Binary64.isOne

mutual

def hasSymbols : Expr → Bool
  | .symbol _ => true
  | .neg operand => operand.hasSymbols
  | .binary _ lhs rhs => lhs.hasSymbols || rhs.hasSymbols
  | .call _ arguments => hasSymbolsList arguments
  | .cond chosen condition otherwise =>
    chosen.hasSymbols || condition.hasSymbols || otherwise.hasSymbols
  | .paren inner => inner.hasSymbols
  | _ => false

def hasSymbolsList : List Expr → Bool
  | [] => false
  | e :: es => e.hasSymbols || hasSymbolsList es

end

mutual

/-- The metric leaves from left to right, with repetitions. -/
def metrics : Expr → List String
  | .metric name => [name]
  | .neg operand => operand.metrics
  | .binary _ lhs rhs => lhs.metrics ++ rhs.metrics
  | .call _ arguments => metricsList arguments
  | .cond chosen condition otherwise =>
    chosen.metrics ++ condition.metrics ++ otherwise.metrics
  | .paren inner => inner.metrics
  | _ => []

def metricsList : List Expr → List String
  | [] => []
  | e :: es => e.metrics ++ metricsList es

end

/-- The names of the referenced metrics in order of first appearance. -/
def metricRefs (e : Expr) : List String :=
  e.metrics.eraseDups

mutual

/-- The text of the tree.  Parentheses appear where the tree has them and nowhere
else. -/
def render : Expr → String
  | .num text => text
  | .symbol s => s.render
  | .event e => e.render
  | .metric name => name
  | .context name => "#" ++ name
  | .neg operand => "-" ++ operand.render
  | .binary op lhs rhs => lhs.render ++ " " ++ op.text ++ " " ++ rhs.render
  | .call function arguments => function ++ "(" ++ renderArguments arguments ++ ")"
  | .cond chosen condition otherwise =>
    chosen.render ++ " if " ++ condition.render ++ " else " ++ otherwise.render
  | .paren inner => "(" ++ inner.render ++ ")"

def renderArguments : List Expr → String
  | [] => ""
  | [e] => e.render
  | e :: es => e.render ++ ", " ++ renderArguments es

end

mutual

def size : Expr → Nat
  | .neg operand => operand.size + 1
  | .binary _ lhs rhs => lhs.size + rhs.size + 1
  | .call _ arguments => sizeList arguments + 1
  | .cond chosen condition otherwise =>
    chosen.size + condition.size + otherwise.size + 1
  | .paren inner => inner.size + 1
  | _ => 1

def sizeList : List Expr → Nat
  | [] => 0
  | e :: es => e.size + sizeList es

end

theorem one_le_size (e : Expr) : 1 ≤ e.size := by
  cases e <;> simp [size]

end Expr

end TopdownMetrics.Formula

import TopdownMetrics.Formula.Resolve
import TopdownMetrics.Proofs.ParserRun

/-!
# Resolution as rewriting

Simplification and substitution rewrite a tree at many places.  What they keep is
shown in one way: a relation between trees that is a `Congruence`, and that holds of
every fold and of every step of a definition, holds between the parsed formula and
the resolved tree.

Whether a linear fold is harmless depends on the coefficients that it subtracts.  The
functions `differences` list the pairs of coefficients that a run subtracts, so that a
congruence needs to hold of these folds only.
-/

namespace TopdownMetrics.Formula

/-- A relation that holds of trees as soon as it holds of their parts. -/
structure Congruence (R : Expr → Expr → Prop) : Prop where
  refl (e : Expr) : R e e
  trans {e₁ e₂ e₃ : Expr} : R e₁ e₂ → R e₂ e₃ → R e₁ e₃
  neg {e e' : Expr} : R e e' → R (.neg e) (.neg e')
  binary (op : BinaryOp) {lhs lhs' rhs rhs' : Expr} :
    R lhs lhs' → R rhs rhs' → R (.binary op lhs rhs) (.binary op lhs' rhs')
  call (function : String) {es es' : List Expr} :
    List.Forall₂ R es es' → R (.call function es) (.call function es')
  cond {chosen chosen' condition condition' otherwise otherwise' : Expr} :
    R chosen chosen' → R condition condition' → R otherwise otherwise' →
      R (.cond chosen condition otherwise) (.cond chosen' condition' otherwise')
  paren {e e' : Expr} : R e e' → R (.paren e) (.paren e')

namespace Expr

/-! ## What a fold does -/

/-- Two coefficients of the same reference, the second of which is subtracted from the
first. -/
structure Difference where
  minuend : Binary64
  subtrahend : Binary64
  deriving DecidableEq

/-- The coefficient that a linear fold writes. -/
def Difference.coefficient (d : Difference) : String :=
  formatNumber (d.minuend.sub d.subtrahend)

/-- The tree `(text * V)`. -/
def scaled (text : String) (r : Reference) : Expr :=
  .paren (.binary .mul (.num text) r.toExpr)

/-- The folds, with the differences they compute. -/
inductive Folds : Expr → List Difference → Expr → Prop where
  | chosen {chosen condition otherwise : Expr} (hone : condition.isOne = true) :
      Folds (.cond chosen condition otherwise) [] chosen
  | otherwise {chosen condition otherwise : Expr} (hzero : condition.isZero = true) :
      Folds (.cond chosen condition otherwise) [] otherwise
  | linear {text text' : String} {d : Difference} {r : Reference}
      (hminuend : (Expr.num text).number? = some d.minuend)
      (hsubtrahend : (Expr.num text').number? = some d.subtrahend) :
      Folds (.binary .sub (scaled text r) (scaled text' r)) [d]
        (.binary .mul (.num d.coefficient) r.toExpr)
  | linearTail {front : Expr} {text text' : String} {d : Difference} {r : Reference}
      (hminuend : (Expr.num text).number? = some d.minuend)
      (hsubtrahend : (Expr.num text').number? = some d.subtrahend) :
      Folds (.binary .sub (.binary .add front (scaled text r)) (scaled text' r)) [d]
        (.binary .add front (.binary .mul (.num d.coefficient) r.toExpr))
  | zeroRight {lhs rhs : Expr} (hzero : rhs.isZero = true) :
      Folds (.binary .add lhs rhs) [] lhs
  | zeroLeft {lhs rhs : Expr} (hzero : lhs.isZero = true) :
      Folds (.binary .add lhs rhs) [] rhs

theorem toExpr_of_reference? {e : Expr} {r : Reference} (h : e.reference? = some r) :
    e = r.toExpr := by
  cases e <;> cases h <;> rfl

theorem scaledTerm?_eq_some_iff {e : Expr} {a : Binary64} {r : Reference} :
    e.scaledTerm? = some (a, r) ↔
      ∃ text, e = scaled text r ∧ (Expr.num text).number? = some a := by
  constructor
  · intro h
    unfold scaledTerm? at h
    split at h
    · rename_i text v
      split at h
      · rename_i a' r' hnumber hreference
        cases h
        exact ⟨text, by rw [scaled, ← toExpr_of_reference? hreference], hnumber⟩
      · cases h
    · cases h
  · rintro ⟨text, rfl, hnumber⟩
    cases r <;> simp [scaled, scaledTerm?, hnumber, Reference.toExpr, reference?]

/-- The scaled term from which a linear fold subtracts: the tree itself, or the last
term of a sum. -/
def minuend? (e : Expr) : Option (Binary64 × Reference) :=
  match e.scaledTerm?, e with
  | some term, _ => some term
  | none, .binary .add _ last => last.scaledTerm?
  | none, _ => none

/-- The difference that a fold of the node computes. -/
def foldDifferences : Expr → List Difference
  | .binary .sub lhs rhs =>
    match lhs.minuend?, rhs.scaledTerm? with
    | some minuend, some subtrahend =>
      if minuend.2 = subtrahend.2 then [⟨minuend.1, subtrahend.1⟩] else []
    | _, _ => []
  | _ => []

theorem folds_of_foldConditional? {e f : Expr} (h : e.foldConditional? = some f) :
    e.Folds e.foldDifferences f := by
  unfold foldConditional? at h
  split at h
  · split at h
    · rename_i hone
      cases h
      exact .chosen hone
    · split at h
      · rename_i hzero
        cases h
        exact .otherwise hzero
      · cases h
  · cases h

theorem folds_of_dropZero? {e f : Expr} (h : e.dropZero? = some f) :
    e.Folds e.foldDifferences f := by
  unfold dropZero? at h
  split at h
  · split at h
    · rename_i hzero
      cases h
      exact .zeroRight hzero
    · split at h
      · rename_i hzero
        cases h
        exact .zeroLeft hzero
      · cases h
  · cases h

theorem difference?_eq_some_iff {a b : Binary64} {r r' : Reference} {f : Expr} :
    difference? (a, r) (b, r') = some f ↔
      r = r' ∧ f = .binary .mul (.num (Difference.coefficient ⟨a, b⟩)) r.toExpr := by
  unfold difference?
  split_ifs with hr
  · have hr : r = r' := hr
    simp [hr, Difference.coefficient, eq_comm]
  · have hr : r ≠ r' := hr
    simp [hr]

theorem folds_of_foldLinear? {e f : Expr} (h : e.foldLinear? = some f) :
    e.Folds e.foldDifferences f := by
  unfold foldLinear? at h
  split at h
  · rename_i lhs rhs
    split at h
    · cases h
    · rename_i subtrahend hrhs
      obtain ⟨b, r⟩ := subtrahend
      split at h
      · rename_i minuend hlhs
        obtain ⟨a, r'⟩ := minuend
        obtain ⟨rfl, rfl⟩ := difference?_eq_some_iff.1 h
        have hd : (Expr.binary .sub lhs rhs).foldDifferences = [⟨a, b⟩] := by
          simp [foldDifferences, minuend?, hlhs, hrhs]
        rw [hd]
        obtain ⟨text, rfl, ha⟩ := scaledTerm?_eq_some_iff.1 hlhs
        obtain ⟨text', rfl, hb⟩ := scaledTerm?_eq_some_iff.1 hrhs
        exact .linear ha hb
      · rename_i hlhs
        split at h
        · rename_i front last
          split at h
          · rename_i minuend hlast
            obtain ⟨a, r'⟩ := minuend
            obtain ⟨f, hf, rfl⟩ := Option.map_eq_some_iff.1 h
            obtain ⟨rfl, rfl⟩ := difference?_eq_some_iff.1 hf
            have hd : (Expr.binary .sub (.binary .add front last) rhs).foldDifferences =
                [⟨a, b⟩] := by
              simp [foldDifferences, minuend?, hlhs, hlast, hrhs]
            rw [hd]
            obtain ⟨text, rfl, ha⟩ := scaledTerm?_eq_some_iff.1 hlast
            obtain ⟨text', rfl, hb⟩ := scaledTerm?_eq_some_iff.1 hrhs
            exact .linearTail ha hb
          · cases h
        · cases h
  · cases h

/-- Everything that can happen when a node is folded. -/
theorem folds_of_fold? {e f : Expr} (h : e.fold? = some f) :
    e.Folds e.foldDifferences f := by
  rcases (Option.orElse_eq_some _ _ _).1 h with h | ⟨-, h⟩
  · exact folds_of_foldConditional? h
  · rcases (Option.orElse_eq_some _ _ _).1 h with h | ⟨-, h⟩
    · exact folds_of_foldLinear? h
    · exact folds_of_dropZero? h

/-! ## The differences that simplification computes -/

mutual

/-- The differences that one pass over the tree computes. -/
def passDifferences : Expr → List Difference
  | .neg operand => operand.passDifferences
  | .binary op lhs rhs =>
    lhs.passDifferences ++ (rhs.passDifferences ++
      (Expr.binary op lhs.simplifyOnce.1 rhs.simplifyOnce.1).foldDifferences)
  | .call _ arguments => passDifferencesList arguments
  | .cond chosen condition otherwise =>
    chosen.passDifferences ++ (condition.passDifferences ++ otherwise.passDifferences)
  | .paren inner => inner.passDifferences
  | _ => []

def passDifferencesList : List Expr → List Difference
  | [] => []
  | e :: es => e.passDifferences ++ passDifferencesList es

end

/-- The differences that `simplify` computes. -/
def differences (e : Expr) : List Difference :=
  match _h : e.simplifyOnce with
  | (e', true) => e.passDifferences ++ e'.differences
  | (_, false) => e.passDifferences
  termination_by e.size
  decreasing_by
    have := simplifyOnce_size e
    rw [_h] at this
    exact this

end Expr

/-! ## What a step of a definition does -/

theorem map_eq_ok_iff {ε α β : Type} {x : Except ε α} {f : α → β} {b : β} :
    x.map f = .ok b ↔ ∃ a, x = .ok a ∧ f a = b := by
  cases x <;> simp [Except.map]

theorem mapError_eq_ok_iff {ε ε' α : Type} {x : Except ε α} {f : ε → ε'} {a : α} :
    x.mapError f = .ok a ↔ x = .ok a := by
  cases x <;> simp [Except.mapError]

theorem map_eq_error_iff {ε α β : Type} {x : Except ε α} {f : α → β} {cause : ε} :
    x.map f = .error cause ↔ x = .error cause := by
  cases x <;> simp [Except.map]

theorem mapError_eq_error_iff {ε ε' α : Type} {x : Except ε α} {f : ε → ε'} {cause : ε'} :
    x.mapError f = .error cause ↔ ∃ inner, x = .error inner ∧ f inner = cause := by
  cases x <;> simp [Except.mapError]

namespace Scope

/-- The sum of references to a first child and further ones. -/
def sumOfChildren (first : String) (rest : List String) : Expr :=
  (rest.map fun child => .symbol (.bare child)).foldl (.binary .add) (.symbol (.bare first))

/-- The steps of the definitions of symbols. -/
inductive Steps (s : Scope) : Symbol → Expr → Prop where
  | kept {name : String} {modifiers : List String} {terms : Option String}
      (hkeep : name ∈ s.rules.context.keep) :
      s.Steps ⟨.hash, name, modifiers, terms⟩ (.context name)
  | replaced {name text : String} {modifiers : List String} {terms : Option String} {e : Expr}
      (hkeep : name ∉ s.rules.context.keep)
      (htext : s.rules.context.replacements.lookup name = some text)
      (hparse : parse text = .ok e) :
      s.Steps ⟨.hash, name, modifiers, terms⟩ e.bracket
  | memory {modifiers : List String} {terms : Option String}
      (hkeep : "Memory" ∉ s.rules.context.keep)
      (hnone : s.rules.context.replacements.lookup "Memory" = none) :
      s.Steps ⟨.hash, "Memory", modifiers, terms⟩ (.num (if s.arch.memory then "1" else "0"))
  | node {name text : String} {modifiers : List String} {terms : Option String} {e : Expr}
      (hkeep : name ∉ s.rules.context.keep)
      (hnone : s.rules.context.replacements.lookup name = none) (hname : name ≠ "Memory")
      (htext : s.table.nodes[name]? = some text) (hparse : s.parseFragment text = .ok e) :
      s.Steps ⟨.hash, name, modifiers, terms⟩ e.bracket
  | aux {name text : String} {modifiers : List String} {terms : Option String} {e : Expr}
      (hkeep : name ∉ s.rules.context.keep)
      (hnone : s.rules.context.replacements.lookup name = none) (hname : name ≠ "Memory")
      (hnode : s.table.nodes[name]? = none) (htext : s.table.aux[name]? = some text)
      (hparse : s.parseFragment text = .ok e) :
      s.Steps ⟨.hash, name, modifiers, terms⟩ e.bracket
  | sum {parent first : String} {rest modifiers : List String} {terms : Option String}
      (hchildren : s.table.childrenOf parent = first :: rest) :
      s.Steps ⟨.sum, parent, modifiers, terms⟩ (.paren (sumOfChildren first rest))
  | aggregate {parent first : String} {rest modifiers : List String} {terms : Option String}
      (hchildren : s.table.childrenOf parent = first :: rest) :
      s.Steps ⟨.aggregate, parent, modifiers, terms⟩
        (.call "max" [.symbol (.bare parent), sumOfChildren first rest])
  | ignored {name text : String} {e : Expr} (htext : s.table.info[name]? = some text)
      (hignored : name ∈ s.rules.ignoredMetrics) (hparse : s.parseFragment text = .ok e) :
      s.Steps (.bare name) e.bracket
  | unavailable {name text : String} (htext : s.table.info[name]? = some text)
      (hignored : name ∉ s.rules.ignoredMetrics) (hna : Text.trim text = "#NA") :
      s.Steps (.bare name) (.num "0")
  | metric {name text : String} (htext : s.table.info[name]? = some text)
      (hignored : name ∉ s.rules.ignoredMetrics) (hna : Text.trim text ≠ "#NA") :
      s.Steps (.bare name) (.metric (s.table.canonicalName name))
  | event {name : String} (hnone : s.table.info[name]? = none) :
      s.Steps (.bare name) (.event (.plain name))
  | qualified {name : String} {modifiers : List String} {terms : Option String}
      {qs : List Qualification} (hqualified : modifiers ≠ [] ∨ terms ≠ none)
      (hqs : modifiers.mapM qualification? = some qs) :
      s.Steps ⟨.bare, name, modifiers, terms⟩
        (.event (qs.foldl EventRef.qualify ⟨name, s.pmu, [], none, terms⟩))

variable {s : Scope}

theorem childrenSum_eq_ok_iff {parent : String} {e : Expr} :
    s.childrenSum parent = .ok e ↔
      ∃ first rest, s.table.childrenOf parent = first :: rest ∧ e = sumOfChildren first rest := by
  unfold childrenSum sumOfChildren
  cases s.table.childrenOf parent with
  | nil => simp [Expr.sum?]
  | cons first rest => simp [Expr.sum?, eq_comm]

theorem steps_of_hashReference {name : String} {e : Expr} (h : s.hashReference name = .ok e)
    (modifiers : List String) (terms : Option String) :
    s.Steps ⟨.hash, name, modifiers, terms⟩ e := by
  unfold hashReference at h
  split at h
  · rename_i hkeep
    cases h
    exact .kept (List.contains_iff_mem.1 hkeep)
  · rename_i hkeep
    have hkeep : name ∉ s.rules.context.keep := fun hmem => hkeep (List.contains_iff_mem.2 hmem)
    split at h
    · rename_i text htext
      obtain ⟨f, hparse, rfl⟩ := map_eq_ok_iff.1 (mapError_eq_ok_iff.1 h)
      exact .replaced hkeep htext hparse
    · rename_i hnone
      split at h
      · rename_i hname
        cases h
        subst hname
        exact .memory hkeep hnone
      · rename_i hname
        split at h
        · rename_i fragment hfragment
          obtain ⟨f, hparse, rfl⟩ := map_eq_ok_iff.1 h
          rcases Option.or_eq_some_iff.1 hfragment with hnode | ⟨hnode, haux⟩
          · exact .node hkeep hnone hname hnode hparse
          · exact .aux hkeep hnone hname hnode haux hparse
        · cases h

theorem steps_of_bareReference {name : String} {modifiers : List String} {terms : Option String}
    {e : Expr} (h : s.bareReference ⟨.bare, name, modifiers, terms⟩ = .ok e) :
    s.Steps ⟨.bare, name, modifiers, terms⟩ e := by
  unfold bareReference at h
  split at h
  · rename_i hqualified
    obtain ⟨event, hevent, rfl⟩ := map_eq_ok_iff.1 h
    unfold qualifiedEvent at hevent
    simp only at hevent
    split at hevent
    · rename_i qs hqs
      cases hevent
      refine .qualified ?_ hqs
      cases modifiers <;> cases terms <;> simp_all [Symbol.isQualified]
    · cases hevent
  · rename_i hqualified
    have hplain : modifiers = [] ∧ terms = none := by
      cases modifiers <;> cases terms <;> simp_all [Symbol.isQualified]
    obtain ⟨rfl, rfl⟩ := hplain
    simp only at h
    split at h
    · rename_i hnone
      cases h
      exact .event hnone
    · rename_i text htext
      split_ifs at h with hignored hna
      · obtain ⟨f, hparse, rfl⟩ := map_eq_ok_iff.1 h
        exact .ignored htext (List.contains_iff_mem.1 hignored) hparse
      · cases h
        exact .unavailable htext (fun hmem => hignored (List.contains_iff_mem.2 hmem)) hna
      · cases h
        exact .metric htext (fun hmem => hignored (List.contains_iff_mem.2 hmem)) hna

/-- Everything that one step of a definition can do. -/
theorem steps_of_step {symbol : Symbol} {e : Expr} (h : s.step symbol = .ok e) :
    s.Steps symbol e := by
  obtain ⟨sigil, name, modifiers, terms⟩ := symbol
  cases sigil with
  | bare => exact steps_of_bareReference h
  | hash => exact steps_of_hashReference h modifiers terms
  | sum =>
    obtain ⟨children, hsum, rfl⟩ := map_eq_ok_iff.1 h
    obtain ⟨first, rest, hchildren, rfl⟩ := childrenSum_eq_ok_iff.1 hsum
    exact .sum hchildren
  | aggregate =>
    obtain ⟨children, hsum, rfl⟩ := map_eq_ok_iff.1 h
    obtain ⟨first, rest, hchildren, rfl⟩ := childrenSum_eq_ok_iff.1 hsum
    exact .aggregate hchildren

theorem step_of_steps {symbol : Symbol} {e : Expr} (h : s.Steps symbol e) :
    s.step symbol = .ok e := by
  cases h with
  | kept hkeep => simp [step, hashReference, hkeep]
  | replaced hkeep htext hparse =>
    simp [step, hashReference, hkeep, htext, hparse, Except.map, Except.mapError]
  | memory hkeep hnone => simp [step, hashReference, hkeep, hnone]
  | node hkeep hnone hname htext hparse =>
    simp [step, hashReference, hkeep, hnone, hname, htext, hparse, Except.map]
  | aux hkeep hnone hname hnode htext hparse =>
    simp [step, hashReference, hkeep, hnone, hname, hnode, htext, hparse, Except.map]
  | sum hchildren => exact map_eq_ok_iff.2 ⟨_, childrenSum_eq_ok_iff.2 ⟨_, _, hchildren, rfl⟩, rfl⟩
  | aggregate hchildren =>
    exact map_eq_ok_iff.2 ⟨_, childrenSum_eq_ok_iff.2 ⟨_, _, hchildren, rfl⟩, rfl⟩
  | ignored htext hignored hparse =>
    simp [step, bareReference, Symbol.bare, Symbol.isQualified, htext, hignored, hparse, Except.map]
  | unavailable htext hignored hna =>
    simp [step, bareReference, Symbol.bare, Symbol.isQualified, htext, hignored, hna]
  | metric htext hignored hna =>
    simp [step, bareReference, Symbol.bare, Symbol.isQualified, htext, hignored, hna]
  | event hnone => simp [step, bareReference, Symbol.bare, Symbol.isQualified, hnone]
  | @qualified name modifiers terms qs hqualified hqs =>
    have hisQualified : Symbol.isQualified ⟨.bare, name, modifiers, terms⟩ = true := by
      cases modifiers <;> cases terms <;> simp_all [Symbol.isQualified]
    simp [step, bareReference, hisQualified, qualifiedEvent, hqs, Except.map]

theorem Steps.unique {symbol : Symbol} {e e' : Expr} (h : s.Steps symbol e)
    (h' : s.Steps symbol e') : e = e' :=
  Except.ok.inj ((step_of_steps h).symm.trans (step_of_steps h'))

/-! ## The differences of a whole resolution -/

/-- The differences that the passes of `settle` compute. -/
def settleDifferences (s : Scope) : (passes : Nat) → Expr → List Expr.Difference
  | 0, _ => []
  | passes + 1, e =>
    if e.hasSymbols then
      match s.substitute e with
      | .ok e => e.differences ++ s.settleDifferences passes e.simplified
      | .error _ => []
    else
      []

/-- The differences that the resolution of a formula text computes. -/
def differences (s : Scope) (formula : String) : List Expr.Difference :=
  match s.parseFragment formula with
  | .ok e => e.differences ++ s.settleDifferences passLimit e.simplified
  | .error _ => []

end Scope

/-! ## From folds and steps to whole runs -/

namespace Congruence

variable {R : Expr → Expr → Prop} {P : Expr.Difference → Prop}

theorem foldNode (hR : Congruence R)
    (hfold : ∀ {e f ds}, e.Folds ds f → (∀ d ∈ ds, P d) → R e f) (e : Expr)
    (hds : ∀ d ∈ e.foldDifferences, P d) : R e e.foldNode.1 := by
  unfold Expr.foldNode
  split
  · rename_i f hf
    exact hfold (Expr.folds_of_fold? hf) hds
  · exact hR.refl e

mutual

theorem simplifyOnce (hR : Congruence R)
    (hfold : ∀ {e f ds}, e.Folds ds f → (∀ d ∈ ds, P d) → R e f) (e : Expr)
    (hds : ∀ d ∈ e.passDifferences, P d) : R e e.simplifyOnce.1 := by
  match e with
  | .neg operand =>
    have hparts := hR.neg (hR.simplifyOnce hfold operand hds)
    exact hR.trans hparts (hR.foldNode hfold _ (by simp [Expr.foldDifferences]))
  | .binary op lhs rhs =>
    obtain ⟨hlhs, hrest⟩ := List.forall_mem_append.1 hds
    obtain ⟨hrhs, hnode⟩ := List.forall_mem_append.1 hrest
    have hparts := hR.binary op (hR.simplifyOnce hfold lhs hlhs) (hR.simplifyOnce hfold rhs hrhs)
    exact hR.trans hparts (hR.foldNode hfold _ hnode)
  | .call function arguments =>
    have hparts := hR.call function (hR.simplifyOnceList hfold arguments hds)
    exact hR.trans hparts (hR.foldNode hfold _ (by simp [Expr.foldDifferences]))
  | .cond chosen condition otherwise =>
    obtain ⟨hchosen, hrest⟩ := List.forall_mem_append.1 hds
    obtain ⟨hcondition, hotherwise⟩ := List.forall_mem_append.1 hrest
    have hparts := hR.cond (hR.simplifyOnce hfold chosen hchosen)
      (hR.simplifyOnce hfold condition hcondition) (hR.simplifyOnce hfold otherwise hotherwise)
    exact hR.trans hparts (hR.foldNode hfold _ (by simp [Expr.foldDifferences]))
  | .paren inner =>
    have hparts := hR.paren (hR.simplifyOnce hfold inner hds)
    exact hR.trans hparts (hR.foldNode hfold _ (by simp [Expr.foldDifferences]))
  | .num _ | .symbol _ | .event _ | .metric _ | .context _ =>
    exact hR.foldNode hfold _ (by simp [Expr.foldDifferences])

theorem simplifyOnceList (hR : Congruence R)
    (hfold : ∀ {e f ds}, e.Folds ds f → (∀ d ∈ ds, P d) → R e f) (es : List Expr)
    (hds : ∀ d ∈ Expr.passDifferencesList es, P d) :
    List.Forall₂ R es (Expr.simplifyOnceList es).1 := by
  match es with
  | [] => exact .nil
  | e :: es =>
    obtain ⟨he, hes⟩ := List.forall_mem_append.1 hds
    exact .cons (hR.simplifyOnce hfold e he) (hR.simplifyOnceList hfold es hes)

end

/-- A congruence that holds of the folds of a run relates a tree to its simplified
tree. -/
theorem simplified (hR : Congruence R)
    (hfold : ∀ {e f ds}, e.Folds ds f → (∀ d ∈ ds, P d) → R e f) (e : Expr)
    (hds : ∀ d ∈ e.differences, P d) : R e e.simplified := by
  unfold Expr.simplified
  fun_induction Expr.simplify e with
  | case1 e e' hpass ih =>
    rw [Expr.differences, hpass] at hds
    obtain ⟨hfirst, hrest⟩ := List.forall_mem_append.1 hds
    have hstep := hR.simplifyOnce hfold e hfirst
    rw [hpass] at hstep
    exact hR.trans hstep (ih hrest)
  | case2 e e' hpass =>
    rw [Expr.differences, hpass] at hds
    have hstep := hR.simplifyOnce hfold e hds
    rwa [hpass] at hstep

variable {s : Scope}

mutual

/-- A congruence that holds of one step of every definition relates a tree to the
result of a pass of substitutions. -/
theorem substitute (hR : Congruence R)
    (hstep : ∀ {symbol f}, s.Steps symbol f → R (.symbol symbol) f) {e f : Expr}
    (h : s.substitute e = .ok f) : R e f := by
  match e with
  | .symbol _ => exact hstep (Scope.steps_of_step h)
  | .neg operand =>
    obtain ⟨operand', hoperand, h⟩ := bind_eq_ok_iff.1 h
    cases h
    exact hR.neg (hR.substitute hstep hoperand)
  | .binary op lhs rhs =>
    obtain ⟨lhs', hlhs, h⟩ := bind_eq_ok_iff.1 h
    obtain ⟨rhs', hrhs, h⟩ := bind_eq_ok_iff.1 h
    cases h
    exact hR.binary op (hR.substitute hstep hlhs) (hR.substitute hstep hrhs)
  | .call function arguments =>
    obtain ⟨arguments', harguments, h⟩ := bind_eq_ok_iff.1 h
    cases h
    exact hR.call function (hR.substituteList hstep harguments)
  | .cond chosen condition otherwise =>
    obtain ⟨chosen', hchosen, h⟩ := bind_eq_ok_iff.1 h
    obtain ⟨condition', hcondition, h⟩ := bind_eq_ok_iff.1 h
    obtain ⟨otherwise', hotherwise, h⟩ := bind_eq_ok_iff.1 h
    cases h
    exact hR.cond (hR.substitute hstep hchosen) (hR.substitute hstep hcondition)
      (hR.substitute hstep hotherwise)
  | .paren inner =>
    obtain ⟨inner', hinner, h⟩ := bind_eq_ok_iff.1 h
    cases h
    exact hR.paren (hR.substitute hstep hinner)
  | .num _ | .event _ | .metric _ | .context _ =>
    cases h
    exact hR.refl _

theorem substituteList (hR : Congruence R)
    (hstep : ∀ {symbol f}, s.Steps symbol f → R (.symbol symbol) f) {es fs : List Expr}
    (h : s.substituteList es = .ok fs) : List.Forall₂ R es fs := by
  match es with
  | [] =>
    cases h
    exact .nil
  | e :: es =>
    obtain ⟨f, he, h⟩ := bind_eq_ok_iff.1 h
    obtain ⟨fs, hes, h⟩ := bind_eq_ok_iff.1 h
    cases h
    exact .cons (hR.substitute hstep he) (hR.substituteList hstep hes)

end

theorem settle (hR : Congruence R)
    (hfold : ∀ {e f ds}, e.Folds ds f → (∀ d ∈ ds, P d) → R e f)
    (hstep : ∀ {symbol f}, s.Steps symbol f → R (.symbol symbol) f) {passes : Nat}
    {e f : Expr} (h : s.settle passes e = .ok f)
    (hds : ∀ d ∈ s.settleDifferences passes e, P d) : R e f ∧ f.hasSymbols = false := by
  induction passes generalizing e with
  | zero =>
    unfold Scope.settle at h
    split at h
    · cases h
    · rename_i hsymbols
      cases h
      exact ⟨hR.refl _, Bool.eq_false_iff.2 hsymbols⟩
  | succ passes ih =>
    unfold Scope.settle at h
    split at h
    · rename_i hsymbols
      obtain ⟨e', hsubstitute, h⟩ := bind_eq_ok_iff.1 h
      rw [Scope.settleDifferences, if_pos hsymbols, hsubstitute] at hds
      obtain ⟨hfirst, hrest⟩ := List.forall_mem_append.1 hds
      obtain ⟨hlast, hdone⟩ := ih h hrest
      have hpass := hR.trans (hR.substitute hstep hsubstitute) (hR.simplified hfold e' hfirst)
      exact ⟨hR.trans hpass hlast, hdone⟩
    · rename_i hsymbols
      cases h
      exact ⟨hR.refl _, Bool.eq_false_iff.2 hsymbols⟩

/-- A congruence that holds of the folds of a run and of one step of every definition
relates the parsed formula to the resolved tree, which has no symbols left. -/
theorem resolve (hR : Congruence R)
    (hfold : ∀ {e f ds}, e.Folds ds f → (∀ d ∈ ds, P d) → R e f)
    (hstep : ∀ {symbol f}, s.Steps symbol f → R (.symbol symbol) f) {formula : String}
    {f : Expr} (h : s.resolve formula = .ok f) (hds : ∀ d ∈ s.differences formula, P d) :
    ∃ e, s.parseFragment formula = .ok e ∧ R e f ∧ f.hasSymbols = false := by
  obtain ⟨e, hparse, hsettle⟩ := bind_eq_ok_iff.1 h
  rw [Scope.differences, hparse] at hds
  obtain ⟨hfirst, hrest⟩ := List.forall_mem_append.1 hds
  obtain ⟨hlast, hdone⟩ := hR.settle hfold hstep hsettle hrest
  exact ⟨e, hparse, hR.trans (hR.simplified hfold e hfirst) hlast, hdone⟩

end Congruence

end TopdownMetrics.Formula

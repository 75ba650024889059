import TopdownMetrics.Proofs.Rewriting

/-!
# Evaluating a resolution

The parser recurses on a lexicographic measure and is not evaluated by reduction, but
everything else in a resolution is.  The equations below take a run apart at its
passes, so that it can be evaluated once its fragments are parsed; trees are compared
by a decision procedure.
-/

namespace TopdownMetrics.Formula

/-! ## Comparing trees -/

mutual

/-- Whether two trees are the same. -/
def Expr.same : Expr → Expr → Bool
  | .num text, .num text' => text == text'
  | .symbol s, .symbol s' => s == s'
  | .event e, .event e' => e == e'
  | .metric name, .metric name' => name == name'
  | .context name, .context name' => name == name'
  | .neg operand, .neg operand' => operand.same operand'
  | .binary op lhs rhs, .binary op' lhs' rhs' => op == op' && (lhs.same lhs' && rhs.same rhs')
  | .call function arguments, .call function' arguments' =>
    function == function' && Expr.sameList arguments arguments'
  | .cond chosen condition otherwise, .cond chosen' condition' otherwise' =>
    chosen.same chosen' && (condition.same condition' && otherwise.same otherwise')
  | .paren inner, .paren inner' => inner.same inner'
  | _, _ => false

def Expr.sameList : List Expr → List Expr → Bool
  | [], [] => true
  | e :: es, e' :: es' => e.same e' && Expr.sameList es es'
  | _, _ => false

end

mutual

theorem Expr.same_self (e : Expr) : e.same e = true := by
  cases e <;> simp [Expr.same, Expr.same_self, Expr.sameList_self]

theorem Expr.sameList_self (es : List Expr) : Expr.sameList es es = true := by
  cases es <;> simp [Expr.sameList, Expr.same_self, Expr.sameList_self]

end

mutual

theorem Expr.eq_of_same {e e' : Expr} (h : e.same e' = true) : e = e' := by
  cases e with
  | num text => cases e' <;> first | cases h | exact congrArg _ (beq_iff_eq.1 h)
  | symbol s => cases e' <;> first | cases h | exact congrArg _ (beq_iff_eq.1 h)
  | event event => cases e' <;> first | cases h | exact congrArg _ (beq_iff_eq.1 h)
  | metric name => cases e' <;> first | cases h | exact congrArg _ (beq_iff_eq.1 h)
  | context name => cases e' <;> first | cases h | exact congrArg _ (beq_iff_eq.1 h)
  | neg operand => cases e' <;> first | cases h | exact congrArg _ (Expr.eq_of_same h)
  | paren inner => cases e' <;> first | cases h | exact congrArg _ (Expr.eq_of_same h)
  | binary op lhs rhs =>
    cases e' with
    | binary op' lhs' rhs' =>
      obtain ⟨hop, hoperands⟩ := Bool.and_eq_true_iff.1 h
      obtain ⟨hlhs, hrhs⟩ := Bool.and_eq_true_iff.1 hoperands
      rw [beq_iff_eq.1 hop, Expr.eq_of_same hlhs, Expr.eq_of_same hrhs]
    | _ => cases h
  | call function arguments =>
    cases e' with
    | call function' arguments' =>
      obtain ⟨hfunction, harguments⟩ := Bool.and_eq_true_iff.1 h
      rw [beq_iff_eq.1 hfunction, Expr.eq_of_sameList harguments]
    | _ => cases h
  | cond chosen condition otherwise =>
    cases e' with
    | cond chosen' condition' otherwise' =>
      obtain ⟨hchosen, hrest⟩ := Bool.and_eq_true_iff.1 h
      obtain ⟨hcondition, hotherwise⟩ := Bool.and_eq_true_iff.1 hrest
      rw [Expr.eq_of_same hchosen, Expr.eq_of_same hcondition, Expr.eq_of_same hotherwise]
    | _ => cases h

theorem Expr.eq_of_sameList {es es' : List Expr} (h : Expr.sameList es es' = true) :
    es = es' := by
  match es, es' with
  | [], [] => rfl
  | [], _ :: _ => cases h
  | _ :: _, [] => cases h
  | e :: es, e' :: es' =>
    obtain ⟨he, hes⟩ := Bool.and_eq_true_iff.1 h
    rw [Expr.eq_of_same he, Expr.eq_of_sameList hes]

end

instance : DecidableEq Expr := fun e e' =>
  decidable_of_iff (e.same e' = true) ⟨Expr.eq_of_same, fun h => h ▸ e.same_self⟩

/-! ## The passes of a run -/

theorem Expr.simplified_symbol (s : Symbol) : (Expr.symbol s).simplified = .symbol s := by
  unfold simplified
  rw [simplify]
  rfl

theorem Expr.simplified_num (text : String) : (Expr.num text).simplified = .num text := by
  unfold simplified
  rw [simplify]
  rfl

theorem Expr.simplified_event (e : EventRef) : (Expr.event e).simplified = .event e := by
  unfold simplified
  rw [simplify]
  rfl

namespace Scope

variable {s : Scope}

theorem settle_of_done (s : Scope) {e : Expr} (he : e.hasSymbols = false) (passes : Nat) :
    s.settle passes e = .ok e ∧ s.settleDifferences passes e = [] := by
  cases passes <;> simp [settle, settleDifferences, he]

theorem settle_of_pass {e f g : Expr} (he : e.hasSymbols = true)
    (hsubstitute : s.substitute e = .ok f) (hsimplified : f.simplified = g) (passes : Nat) :
    s.settle (passes + 1) e = s.settle passes g ∧
      s.settleDifferences (passes + 1) e = f.differences ++ s.settleDifferences passes g := by
  subst hsimplified
  rw [settle, settleDifferences, if_pos he, if_pos he, hsubstitute]
  exact ⟨rfl, rfl⟩

theorem resolve_of_parse {formula : String} {e f : Expr}
    (hparse : s.parseFragment formula = .ok e) (hsimplified : e.simplified = f) :
    s.resolve formula = s.settle passLimit f ∧
      s.differences formula = e.differences ++ s.settleDifferences passLimit f := by
  subst hsimplified
  rw [resolve, differences, hparse]
  exact ⟨rfl, rfl⟩

end Scope

end TopdownMetrics.Formula

import TopdownMetrics.Formula.Simplify
import Mathlib.Tactic

/-!
# Simplified trees are in normal form

A pass that reports a change makes the tree smaller, and a pass that reports none leaves the
tree as it is and has tried every fold at every node.  So the passes come to an end, what they
leave has no fold left in it, and the report is true: nothing that is folded comes back.
-/

namespace TopdownMetrics.Formula.Expr

/-! ## Normal forms -/

mutual

/-- The nodes of a tree, each in front of those below it. -/
def nodes : Expr → List Expr
  | .neg operand => .neg operand :: operand.nodes
  | .binary op lhs rhs => .binary op lhs rhs :: (lhs.nodes ++ rhs.nodes)
  | .call function arguments => .call function arguments :: nodesList arguments
  | .cond chosen condition otherwise =>
    .cond chosen condition otherwise :: (chosen.nodes ++ (condition.nodes ++ otherwise.nodes))
  | .paren inner => .paren inner :: inner.nodes
  | e => [e]

def nodesList : List Expr → List Expr
  | [] => []
  | e :: es => e.nodes ++ nodesList es

end

/-- Nowhere in the tree is there anything to fold. -/
structure IsNormal (e : Expr) : Prop where
  /-- No conditional has a literal one or zero as its condition. -/
  condition {chosen condition otherwise : Expr}
    (h : .cond chosen condition otherwise ∈ e.nodes) :
    condition.isOne = false ∧ condition.isZero = false
  /-- No sum has a literal zero as an operand. -/
  sum {lhs rhs : Expr} (h : .binary .add lhs rhs ∈ e.nodes) :
    lhs.isZero = false ∧ rhs.isZero = false
  /-- No difference scales one reference twice. -/
  difference {lhs rhs : Expr} (h : .binary .sub lhs rhs ∈ e.nodes) :
    (Expr.binary .sub lhs rhs).foldLinear? = none

theorem fold?_eq_none_iff {e : Expr} :
    e.fold? = none ↔
      e.foldConditional? = none ∧ e.foldLinear? = none ∧ e.dropZero? = none := by
  simp [fold?, Option.orElse_eq_orElse]

theorem foldConditional?_eq_none_iff {chosen condition otherwise : Expr} :
    (Expr.cond chosen condition otherwise).foldConditional? = none ↔
      condition.isOne = false ∧ condition.isZero = false := by
  rw [foldConditional?]
  split_ifs with hone hzero <;> simp [*]

theorem dropZero?_eq_none_iff {lhs rhs : Expr} :
    (Expr.binary .add lhs rhs).dropZero? = none ↔ lhs.isZero = false ∧ rhs.isZero = false := by
  rw [dropZero?]
  split_ifs with hrhs hlhs <;> simp [*]

theorem isNormal_of_nodes {e : Expr} (h : ∀ node ∈ e.nodes, node.fold? = none) :
    e.IsNormal where
  condition hnode := foldConditional?_eq_none_iff.1 (fold?_eq_none_iff.1 (h _ hnode)).1
  sum hnode := dropZero?_eq_none_iff.1 (fold?_eq_none_iff.1 (h _ hnode)).2.2
  difference hnode := (fold?_eq_none_iff.1 (h _ hnode)).2.1

/-! ## One pass -/

theorem foldNode_of_unchanged {e : Expr} (h : e.foldNode.2 = false) :
    e.fold? = none ∧ e.foldNode.1 = e := by
  unfold foldNode at h ⊢
  split at h
  · cases h
  · rename_i hnone
    exact ⟨hnone, rfl⟩

mutual

/-- A pass that reports no change has found every node as it should be. -/
theorem simplifyOnce_of_unchanged (e : Expr) (h : e.simplifyOnce.2 = false) :
    e.simplifyOnce.1 = e ∧ ∀ node ∈ e.nodes, node.fold? = none := by
  match e with
  | .neg operand =>
    simp only [simplifyOnce, Bool.or_eq_false_iff] at h ⊢
    obtain ⟨hoperand, hbelow⟩ := simplifyOnce_of_unchanged operand h.2
    rw [hoperand] at h ⊢
    obtain ⟨hnode, hsame⟩ := foldNode_of_unchanged h.1
    exact ⟨hsame, List.forall_mem_cons.2 ⟨hnode, hbelow⟩⟩
  | .binary op lhs rhs =>
    simp only [simplifyOnce, Bool.or_eq_false_iff] at h ⊢
    obtain ⟨hlhs, hbelowLhs⟩ := simplifyOnce_of_unchanged lhs h.1.2
    obtain ⟨hrhs, hbelowRhs⟩ := simplifyOnce_of_unchanged rhs h.2
    rw [hlhs, hrhs] at h ⊢
    obtain ⟨hnode, hsame⟩ := foldNode_of_unchanged h.1.1
    exact ⟨hsame,
      List.forall_mem_cons.2 ⟨hnode, List.forall_mem_append.2 ⟨hbelowLhs, hbelowRhs⟩⟩⟩
  | .call function arguments =>
    simp only [simplifyOnce, Bool.or_eq_false_iff] at h ⊢
    obtain ⟨harguments, hbelow⟩ := simplifyOnceList_of_unchanged arguments h.2
    rw [harguments] at h ⊢
    obtain ⟨hnode, hsame⟩ := foldNode_of_unchanged h.1
    exact ⟨hsame, List.forall_mem_cons.2 ⟨hnode, hbelow⟩⟩
  | .cond chosen condition otherwise =>
    simp only [simplifyOnce, Bool.or_eq_false_iff] at h ⊢
    obtain ⟨hchosen, hbelowChosen⟩ := simplifyOnce_of_unchanged chosen h.1.1.2
    obtain ⟨hcondition, hbelowCondition⟩ := simplifyOnce_of_unchanged condition h.1.2
    obtain ⟨hotherwise, hbelowOtherwise⟩ := simplifyOnce_of_unchanged otherwise h.2
    rw [hchosen, hcondition, hotherwise] at h ⊢
    obtain ⟨hnode, hsame⟩ := foldNode_of_unchanged h.1.1.1
    exact ⟨hsame, List.forall_mem_cons.2 ⟨hnode, List.forall_mem_append.2
      ⟨hbelowChosen, List.forall_mem_append.2 ⟨hbelowCondition, hbelowOtherwise⟩⟩⟩⟩
  | .paren inner =>
    simp only [simplifyOnce, Bool.or_eq_false_iff] at h ⊢
    obtain ⟨hinner, hbelow⟩ := simplifyOnce_of_unchanged inner h.2
    rw [hinner] at h ⊢
    obtain ⟨hnode, hsame⟩ := foldNode_of_unchanged h.1
    exact ⟨hsame, List.forall_mem_cons.2 ⟨hnode, hbelow⟩⟩
  | .num _ | .symbol _ | .event _ | .metric _ | .context _ =>
    obtain ⟨hnode, hsame⟩ := foldNode_of_unchanged h
    exact ⟨hsame, List.forall_mem_singleton.2 hnode⟩

theorem simplifyOnceList_of_unchanged (es : List Expr) (h : (simplifyOnceList es).2 = false) :
    (simplifyOnceList es).1 = es ∧ ∀ node ∈ nodesList es, node.fold? = none := by
  match es with
  | [] => exact ⟨rfl, List.forall_mem_nil _⟩
  | e :: es =>
    simp only [simplifyOnceList, Bool.or_eq_false_iff] at h ⊢
    obtain ⟨he, hbelow⟩ := simplifyOnce_of_unchanged e h.1
    obtain ⟨hes, hbelowRest⟩ := simplifyOnceList_of_unchanged es h.2
    rw [he, hes]
    exact ⟨rfl, List.forall_mem_append.2 ⟨hbelow, hbelowRest⟩⟩

end

/-! ## The run -/

/-- The tree after one more pass. -/
def pass (e : Expr) : Expr :=
  e.simplifyOnce.1

/-- The run ends after `passes` passes that change something, with one that does not. -/
structure SettlesAfter (e : Expr) (passes : ℕ) : Prop where
  changing {k : ℕ} (hk : k < passes) : (pass^[k] e).simplifyOnce.2 = true
  last : (pass^[passes] e).simplifyOnce.2 = false

theorem SettlesAfter.of_pass {e : Expr} {passes : ℕ} (hchanged : e.simplifyOnce.2 = true)
    (h : e.pass.SettlesAfter passes) : e.SettlesAfter (passes + 1) where
  changing {k} hk := by
    cases k with
    | zero => exact hchanged
    | succ k =>
      rw [Function.iterate_succ_apply]
      exact h.changing (Nat.lt_of_succ_lt_succ hk)
  last := by
    rw [Function.iterate_succ_apply]
    exact h.last

/-- Each pass that changes something takes at least one node away, and one node stays. -/
theorem exists_settlesAfter (e : Expr) :
    ∃ passes < e.size, e.SettlesAfter passes ∧
      e.simplify = (pass^[passes] e, decide (passes ≠ 0)) := by
  fun_induction simplify e with
  | case1 e e' hpass ih =>
    obtain ⟨passes, hlt, hsettles, hrun⟩ := ih
    have hsize := simplifyOnce_size e
    have he' : e.pass = e' := by rw [pass, hpass]
    simp only [hpass, Bool.toNat_true] at hsize
    refine ⟨passes + 1, by omega, .of_pass (by rw [hpass]) (he' ▸ hsettles), ?_⟩
    rw [hrun, Function.iterate_succ_apply, he']
    simp
  | case2 e e' hpass =>
    have hunchanged : e.simplifyOnce.2 = false := by rw [hpass]
    obtain ⟨hsame, -⟩ := simplifyOnce_of_unchanged e hunchanged
    rw [hpass] at hsame
    obtain rfl : e' = e := hsame
    exact ⟨0, e'.one_le_size, ⟨fun hk => absurd hk (Nat.not_lt_zero _), hunchanged⟩, rfl⟩

theorem simplify_of_unchanged {e : Expr} (h : e.simplifyOnce.2 = false) :
    e.simplify = (e, false) := by
  obtain ⟨hsame, -⟩ := simplifyOnce_of_unchanged e h
  rw [simplify]
  split
  · rename_i e' hpass
    rw [hpass] at h
    cases h
  · rename_i e' hpass
    rw [hpass] at hsame
    exact congrArg (·, false) hsame

theorem size_iterate_pass {e : Expr} {passes : ℕ} (h : e.SettlesAfter passes) {k : ℕ}
    (hk : k ≤ passes) : (pass^[k] e).size + k ≤ e.size := by
  induction k with
  | zero => exact le_rfl
  | succ k ih =>
    have hsize := simplifyOnce_size (pass^[k] e)
    rw [h.changing hk, Bool.toNat_true] at hsize
    rw [Function.iterate_succ_apply', pass]
    have hbefore := ih (Nat.le_of_succ_le hk)
    omega

/-- Simplification ends in a normal form.  The passes come to an end before there are as many
as the tree has nodes; a change is reported if and only if the tree is another one; and
simplifying again changes nothing and reports nothing. -/
theorem simplify_reaches_normal_form (e : Expr) :
    (∃ passes < e.size, e.SettlesAfter passes ∧ e.simplify.1 = pass^[passes] e) ∧
      (e.simplify.2 = true ↔ e.simplify.1 ≠ e) ∧
      e.simplify.1.simplify = (e.simplify.1, false) ∧
      e.simplify.1.IsNormal := by
  obtain ⟨passes, hlt, hsettles, hrun⟩ := exists_settlesAfter e
  have htree : e.simplify.1 = pass^[passes] e := by rw [hrun]
  have hreport : e.simplify.2 = true ↔ e.simplify.1 ≠ e := by
    rw [hrun, decide_eq_true_iff]
    constructor
    · intro hchanged hsame
      have hsize := size_iterate_pass hsettles le_rfl
      simp only at hsame
      rw [hsame] at hsize
      omega
    · rintro hdiffers rfl
      exact hdiffers rfl
  rw [htree] at hreport ⊢
  obtain ⟨-, hnodes⟩ := simplifyOnce_of_unchanged _ hsettles.last
  exact ⟨⟨passes, hlt, hsettles, rfl⟩, hreport, simplify_of_unchanged hsettles.last,
    isNormal_of_nodes hnodes⟩

end TopdownMetrics.Formula.Expr

import Mathlib.Data.ENat.Lattice
import Mathlib.Order.CompletePartialOrder
import Mathlib.Order.FixedPoints
import TopdownMetrics.Proofs.ResolvedRendering

/-!
# The pass limit and the depth of definitions

A pass takes one step at every symbol of the tree, so what is left is introduced by
definitions one deeper, whatever simplification deletes in between.  Hence each pass lowers the
largest depth of the symbols in the tree, and definitions of a depth up to the limit are
finished when the passes end.
-/

namespace TopdownMetrics.Formula

/-! ## The symbols of a tree -/

namespace Expr

mutual

theorem hasSymbols_eq_true_iff (e : Expr) :
    e.hasSymbols = true ↔ ∃ s, Atom.symbol s ∈ e.atoms := by
  match e with
  | .symbol s => exact iff_of_true rfl ⟨s, List.mem_singleton_self _⟩
  | .neg operand => exact operand.hasSymbols_eq_true_iff
  | .binary _ lhs rhs =>
    rw [hasSymbols, Bool.or_eq_true, lhs.hasSymbols_eq_true_iff, rhs.hasSymbols_eq_true_iff]
    simp only [atoms, List.mem_append, exists_or]
  | .call _ arguments =>
    rw [hasSymbols, hasSymbolsList_eq_true_iff arguments]
    simp only [atoms, List.mem_cons, reduceCtorEq, false_or]
  | .cond chosen condition otherwise =>
    rw [hasSymbols, Bool.or_eq_true, Bool.or_eq_true, chosen.hasSymbols_eq_true_iff,
      condition.hasSymbols_eq_true_iff, otherwise.hasSymbols_eq_true_iff]
    simp only [atoms, List.mem_append, exists_or, or_assoc]
  | .paren inner => exact inner.hasSymbols_eq_true_iff
  | .num _ | .event _ | .metric _ | .context _ => simp [hasSymbols, atoms]

theorem hasSymbolsList_eq_true_iff (es : List Expr) :
    hasSymbolsList es = true ↔ ∃ s, Atom.symbol s ∈ atomsList es := by
  match es with
  | [] => simp [hasSymbolsList, atomsList]
  | e :: es =>
    rw [hasSymbolsList, Bool.or_eq_true, e.hasSymbols_eq_true_iff,
      hasSymbolsList_eq_true_iff es]
    simp only [atomsList, List.mem_append, exists_or]

end

/-- Simplification deletes symbols and never makes any. -/
theorem mem_atoms_of_simplified {e : Expr} {s : Symbol}
    (h : Atom.symbol s ∈ e.simplified.atoms) : Atom.symbol s ∈ e.atoms := by
  by_contra hnot
  have hothers : ∀ a ∈ e.atoms, a ≠ Atom.symbol s := fun a ha heq => hnot (heq ▸ ha)
  have hkept := (congruence_atoms (· ≠ Atom.symbol s)).simplified
    (P := fun _ => True) (fun hfolds _ => forall_atoms_of_folds hfolds fun _ _ => nofun) e
    (fun _ _ => trivial) hothers
  exact hkept _ h rfl

end Expr

namespace Scope

variable {s : Scope}

/-! ## Depth -/

/-- One step at the first symbol leaves the second one in the tree. -/
def Introduces (s : Scope) (symbol next : Symbol) : Prop :=
  ∃ e, s.step symbol = .ok e ∧ Atom.symbol next ∈ e.atoms

/-- Adds one step in front of what a step introduces. -/
noncomputable def deepen (s : Scope) : (Symbol → ℕ∞) →o (Symbol → ℕ∞) where
  toFun depth symbol := 1 + ⨆ next, ⨆ _ : s.Introduces symbol next, depth next
  monotone' _ _ h _ := by
    dsimp only
    gcongr
    exact h _

/-- One more than the largest depth of the symbols that a step introduces. -/
noncomputable def depth (s : Scope) : Symbol → ℕ∞ :=
  s.deepen.lfp

theorem depth_eq (s : Scope) (symbol : Symbol) :
    s.depth symbol = 1 + ⨆ next, ⨆ _ : s.Introduces symbol next, s.depth next :=
  (congrFun s.deepen.map_lfp symbol).symm

theorem one_le_depth (s : Scope) (symbol : Symbol) : 1 ≤ s.depth symbol := by
  rw [depth_eq]
  exact le_self_add

theorem depth_le_succ_iff {symbol : Symbol} {n : ℕ} :
    s.depth symbol ≤ (n + 1 : ℕ) ↔ ∀ next, s.Introduces symbol next → s.depth next ≤ n := by
  rw [depth_eq, Nat.cast_succ, add_comm, ENat.add_le_add_iff_right ENat.one_ne_top, iSup₂_le_iff]

theorem depth_le_of_step {symbol : Symbol} {e : Expr} {n : ℕ} (h : s.step symbol = .ok e)
    (he : ∀ next, Atom.symbol next ∈ e.atoms → s.depth next ≤ n) :
    s.depth symbol ≤ (n + 1 : ℕ) := by
  refine depth_le_succ_iff.2 ?_
  rintro next ⟨e', hstep, hnext⟩
  obtain rfl : e = e' := Except.ok.inj (h.symm.trans hstep)
  exact he next hnext

theorem depth_add_one_le {symbol next : Symbol} (h : s.Introduces symbol next) :
    s.depth next + 1 ≤ s.depth symbol := by
  rw [s.depth_eq symbol, add_comm]
  gcongr
  exact le_iSup₂ (f := fun next (_ : s.Introduces symbol next) => s.depth next) next h

/-- Definitions that lead back to where they start are infinitely deep. -/
theorem depth_eq_top_of_cycle {symbol : Symbol}
    (h : Relation.TransGen s.Introduces symbol symbol) : s.depth symbol = ⊤ := by
  have hdeeper {symbol next : Symbol} (h : Relation.TransGen s.Introduces symbol next) :
      s.depth next + 1 ≤ s.depth symbol := by
    induction h with
    | single h => exact depth_add_one_le h
    | tail _ h ih => exact (depth_add_one_le h).trans (le_self_add.trans ih)
  by_contra hfinite
  exact lt_irrefl _ ((ENat.add_one_le_iff hfinite).1 (hdeeper h))

/-! ## One pass -/

mutual

/-- Every symbol behind a pass is introduced by a symbol in front of it. -/
theorem exists_introduces_of_substitute {e f : Expr} (h : s.substitute e = .ok f)
    {next : Symbol} (hnext : Atom.symbol next ∈ f.atoms) :
    ∃ symbol, Atom.symbol symbol ∈ e.atoms ∧ s.Introduces symbol next := by
  match e with
  | .symbol symbol => exact ⟨symbol, List.mem_singleton_self _, f, h, hnext⟩
  | .neg operand =>
    obtain ⟨operand', hoperand, h⟩ := bind_eq_ok_iff.1 h
    cases h
    exact exists_introduces_of_substitute (e := operand) hoperand hnext
  | .binary op lhs rhs =>
    obtain ⟨lhs', hlhs, h⟩ := bind_eq_ok_iff.1 h
    obtain ⟨rhs', hrhs, h⟩ := bind_eq_ok_iff.1 h
    cases h
    rcases List.mem_append.1 hnext with hnext | hnext
    · obtain ⟨symbol, hmem, hintroduces⟩ := exists_introduces_of_substitute hlhs hnext
      exact ⟨symbol, List.mem_append_left _ hmem, hintroduces⟩
    · obtain ⟨symbol, hmem, hintroduces⟩ := exists_introduces_of_substitute hrhs hnext
      exact ⟨symbol, List.mem_append_right _ hmem, hintroduces⟩
  | .call function arguments =>
    obtain ⟨arguments', harguments, h⟩ := bind_eq_ok_iff.1 h
    cases h
    rcases List.mem_cons.1 hnext with hcallee | hnext
    · cases hcallee
    · obtain ⟨symbol, hmem, hintroduces⟩ := exists_introduces_of_substituteList harguments hnext
      exact ⟨symbol, List.mem_cons_of_mem _ hmem, hintroduces⟩
  | .cond chosen condition otherwise =>
    obtain ⟨chosen', hchosen, h⟩ := bind_eq_ok_iff.1 h
    obtain ⟨condition', hcondition, h⟩ := bind_eq_ok_iff.1 h
    obtain ⟨otherwise', hotherwise, h⟩ := bind_eq_ok_iff.1 h
    cases h
    rcases List.mem_append.1 hnext with hnext | hrest
    · obtain ⟨symbol, hmem, hintroduces⟩ := exists_introduces_of_substitute hchosen hnext
      exact ⟨symbol, List.mem_append_left _ hmem, hintroduces⟩
    · rcases List.mem_append.1 hrest with hnext | hnext
      · obtain ⟨symbol, hmem, hintroduces⟩ := exists_introduces_of_substitute hcondition hnext
        exact ⟨symbol, List.mem_append_right _ (List.mem_append_left _ hmem), hintroduces⟩
      · obtain ⟨symbol, hmem, hintroduces⟩ := exists_introduces_of_substitute hotherwise hnext
        exact ⟨symbol, List.mem_append_right _ (List.mem_append_right _ hmem), hintroduces⟩
  | .paren inner =>
    obtain ⟨inner', hinner, h⟩ := bind_eq_ok_iff.1 h
    cases h
    exact exists_introduces_of_substitute (e := inner) hinner hnext
  | .num _ | .event _ | .metric _ | .context _ =>
    cases h
    cases List.mem_singleton.1 hnext

theorem exists_introduces_of_substituteList {es fs : List Expr}
    (h : s.substituteList es = .ok fs) {next : Symbol}
    (hnext : Atom.symbol next ∈ Expr.atomsList fs) :
    ∃ symbol, Atom.symbol symbol ∈ Expr.atomsList es ∧ s.Introduces symbol next := by
  match es with
  | [] =>
    cases h
    cases hnext
  | e :: es =>
    obtain ⟨f, he, h⟩ := bind_eq_ok_iff.1 h
    obtain ⟨fs, hes, h⟩ := bind_eq_ok_iff.1 h
    cases h
    rcases List.mem_append.1 hnext with hnext | hnext
    · obtain ⟨symbol, hmem, hintroduces⟩ := exists_introduces_of_substitute he hnext
      exact ⟨symbol, List.mem_append_left _ hmem, hintroduces⟩
    · obtain ⟨symbol, hmem, hintroduces⟩ := exists_introduces_of_substituteList hes hnext
      exact ⟨symbol, List.mem_append_right _ hmem, hintroduces⟩

end

theorem depth_le_of_pass {e f : Expr} {passes : ℕ} (h : s.substitute e = .ok f)
    (he : ∀ symbol, Atom.symbol symbol ∈ e.atoms → s.depth symbol ≤ (passes + 1 : ℕ)) :
    ∀ symbol, Atom.symbol symbol ∈ f.simplified.atoms → s.depth symbol ≤ passes := by
  intro next hnext
  obtain ⟨symbol, hsymbol, hintroduces⟩ :=
    exists_introduces_of_substitute h (Expr.mem_atoms_of_simplified hnext)
  exact depth_le_succ_iff.1 (he symbol hsymbol) next hintroduces

/-! ## Only the end of the passes reports the limit -/

theorem parseFragment_ne_passLimit (s : Scope) (text : String) (passes : ℕ) :
    s.parseFragment text ≠ .error (.passLimit passes) := by
  intro h
  obtain ⟨cause, -, hcause⟩ := mapError_eq_error_iff.1 h
  cases hcause

theorem childrenSum_ne_passLimit (s : Scope) (parent : String) (passes : ℕ) :
    s.childrenSum parent ≠ .error (.passLimit passes) := by
  unfold childrenSum
  split
  · exact nofun
  · exact nofun

theorem step_ne_passLimit (s : Scope) (symbol : Symbol) (passes : ℕ) :
    s.step symbol ≠ .error (.passLimit passes) := by
  intro h
  obtain ⟨sigil, name, modifiers, terms⟩ := symbol
  cases sigil with
  | aggregate => exact s.childrenSum_ne_passLimit name passes (map_eq_error_iff.1 h)
  | sum => exact s.childrenSum_ne_passLimit name passes (map_eq_error_iff.1 h)
  | hash =>
    have h : s.hashReference name = .error (.passLimit passes) := h
    unfold hashReference at h
    split at h
    · cases h
    · split at h
      · obtain ⟨cause, -, hcause⟩ := mapError_eq_error_iff.1 h
        cases hcause
      · split at h
        · cases h
        · split at h
          · exact s.parseFragment_ne_passLimit _ passes (map_eq_error_iff.1 h)
          · cases h
  | bare =>
    have h : s.bareReference ⟨.bare, name, modifiers, terms⟩ = .error (.passLimit passes) := h
    unfold bareReference at h
    split at h
    · have hevent := map_eq_error_iff.1 h
      unfold qualifiedEvent at hevent
      dsimp only at hevent
      split at hevent
      · cases hevent
      · cases hevent
    · split at h
      · cases h
      · split_ifs at h
        exact s.parseFragment_ne_passLimit _ passes (map_eq_error_iff.1 h)

mutual

theorem substitute_ne_passLimit (s : Scope) (e : Expr) (passes : ℕ) :
    s.substitute e ≠ .error (.passLimit passes) := by
  intro h
  match e with
  | .symbol symbol => exact s.step_ne_passLimit symbol passes h
  | .neg operand =>
    rcases bind_eq_error_iff.1 h with h | ⟨_, -, h⟩
    · exact s.substitute_ne_passLimit operand passes h
    · cases h
  | .binary _ lhs rhs =>
    rcases bind_eq_error_iff.1 h with h | ⟨_, -, h⟩
    · exact s.substitute_ne_passLimit lhs passes h
    · rcases bind_eq_error_iff.1 h with h | ⟨_, -, h⟩
      · exact s.substitute_ne_passLimit rhs passes h
      · cases h
  | .call _ arguments =>
    rcases bind_eq_error_iff.1 h with h | ⟨_, -, h⟩
    · exact s.substituteList_ne_passLimit arguments passes h
    · cases h
  | .cond chosen condition otherwise =>
    rcases bind_eq_error_iff.1 h with h | ⟨_, -, h⟩
    · exact s.substitute_ne_passLimit chosen passes h
    · rcases bind_eq_error_iff.1 h with h | ⟨_, -, h⟩
      · exact s.substitute_ne_passLimit condition passes h
      · rcases bind_eq_error_iff.1 h with h | ⟨_, -, h⟩
        · exact s.substitute_ne_passLimit otherwise passes h
        · cases h
  | .paren inner =>
    rcases bind_eq_error_iff.1 h with h | ⟨_, -, h⟩
    · exact s.substitute_ne_passLimit inner passes h
    · cases h
  | .num _ | .event _ | .metric _ | .context _ => cases h

theorem substituteList_ne_passLimit (s : Scope) (es : List Expr) (passes : ℕ) :
    s.substituteList es ≠ .error (.passLimit passes) := by
  intro h
  match es with
  | [] => cases h
  | e :: es =>
    rcases bind_eq_error_iff.1 h with h | ⟨_, -, h⟩
    · exact s.substitute_ne_passLimit e passes h
    · rcases bind_eq_error_iff.1 h with h | ⟨_, -, h⟩
      · exact s.substituteList_ne_passLimit es passes h
      · cases h

end

/-! ## The run -/

/-- The invariant is that no symbol is deeper than the passes that are left. -/
theorem settle_ne_passLimit {passes : ℕ} {e : Expr}
    (h : ∀ symbol, Atom.symbol symbol ∈ e.atoms → s.depth symbol ≤ passes) (reported : ℕ) :
    s.settle passes e ≠ .error (.passLimit reported) := by
  induction passes generalizing e with
  | zero =>
    have hnone : e.hasSymbols = false := by
      rw [← Bool.not_eq_true, Expr.hasSymbols_eq_true_iff]
      rintro ⟨symbol, hsymbol⟩
      exact absurd ((s.one_le_depth symbol).trans (h symbol hsymbol)) (by simp)
    rw [(s.settle_of_done hnone 0).1]
    exact nofun
  | succ passes ih =>
    unfold settle
    split
    · intro hlimit
      rcases bind_eq_error_iff.1 hlimit with hsubstitute | ⟨f, hsubstitute, hlimit⟩
      · exact s.substitute_ne_passLimit e reported hsubstitute
      · exact ih (depth_le_of_pass hsubstitute h) hlimit
    · exact nofun

theorem hasSymbols_of_resolve {formula : String} {e : Expr} (h : s.resolve formula = .ok e) :
    e.hasSymbols = false := by
  obtain ⟨-, -, -, hdone⟩ := (congruence_atoms fun _ => True).resolve (P := fun _ => True)
    (fun _ _ _ _ _ => trivial) (fun _ _ _ _ => trivial) h fun _ _ => trivial
  exact hdone

/-- Every resolution ends with a tree without symbols or with an error, and the error is not
the pass limit unless a symbol of the formula is deeper than the limit. -/
theorem resolve_ends (s : Scope) (formula : String) :
    ((∃ e, s.resolve formula = .ok e ∧ e.hasSymbols = false) ∨
        ∃ cause, s.resolve formula = .error cause) ∧
      ((∀ source, s.parseFragment formula = .ok source → ∀ symbol,
          Atom.symbol symbol ∈ source.atoms → s.depth symbol ≤ passLimit) →
        (∃ e, s.resolve formula = .ok e ∧ e.hasSymbols = false) ∨
          ∃ cause, s.resolve formula = .error cause ∧ ∀ passes, cause ≠ .passLimit passes) := by
  cases hresolve : s.resolve formula with
  | ok e =>
    have hdone := hasSymbols_of_resolve hresolve
    exact ⟨.inl ⟨e, rfl, hdone⟩, fun _ => .inl ⟨e, rfl, hdone⟩⟩
  | error cause =>
    refine ⟨.inr ⟨cause, rfl⟩, fun hdepth => .inr ⟨cause, rfl, ?_⟩⟩
    rintro passes rfl
    rcases bind_eq_error_iff.1 hresolve with hparse | ⟨source, hparse, hsettle⟩
    · exact s.parseFragment_ne_passLimit formula passes hparse
    · refine settle_ne_passLimit (fun symbol hsymbol => ?_) passes hsettle
      exact hdepth source hparse symbol (Expr.mem_atoms_of_simplified hsymbol)

/-- A node over an auxiliary value over a number. -/
def nestedScope : Scope where
  table := ((({} : SymbolTable).addNode "Core" "Work / #Slots").addAux "#Slots"
    "#Width * Clocks").addAux "#Width" "4"
  rules := default
  arch := .undeclared
  fixups := []
  pmu := "cpu"

def nestedFormula : String :=
  "#Core - #Width"

theorem parseFragment_nestedFormula :
    nestedScope.parseFragment nestedFormula =
      .ok (.binary .sub (.symbol ⟨.hash, "Core", [], none⟩)
        (.symbol ⟨.hash, "Width", [], none⟩)) :=
  parseFragment_of_render rfl rfl (by decide) (by decide)

theorem step_nestedScope_width :
    nestedScope.step ⟨.hash, "Width", [], none⟩ = .ok (.num "4") := by
  have hparse : nestedScope.parseFragment "4" = .ok (.num "4") :=
    parseFragment_of_render rfl rfl (by decide) (by decide)
  exact congrArg (Except.map Expr.bracket) hparse

theorem step_nestedScope_slots :
    nestedScope.step ⟨.hash, "Slots", [], none⟩ =
      .ok (.paren (.binary .mul (.symbol ⟨.hash, "Width", [], none⟩)
        (.symbol (.bare "Clocks")))) := by
  have hparse : nestedScope.parseFragment "#Width * Clocks" =
      .ok (.binary .mul (.symbol ⟨.hash, "Width", [], none⟩) (.symbol (.bare "Clocks"))) :=
    parseFragment_of_render rfl rfl (by decide) (by decide)
  exact congrArg (Except.map Expr.bracket) hparse

theorem step_nestedScope_core :
    nestedScope.step ⟨.hash, "Core", [], none⟩ =
      .ok (.paren (.binary .div (.symbol (.bare "Work"))
        (.symbol ⟨.hash, "Slots", [], none⟩))) := by
  have hparse : nestedScope.parseFragment "Work / #Slots" =
      .ok (.binary .div (.symbol (.bare "Work")) (.symbol ⟨.hash, "Slots", [], none⟩)) :=
    parseFragment_of_render rfl rfl (by decide) (by decide)
  exact congrArg (Except.map Expr.bracket) hparse

theorem depth_nestedFormula {source : Expr}
    (hsource : nestedScope.parseFragment nestedFormula = .ok source) (symbol : Symbol)
    (hsymbol : Atom.symbol symbol ∈ source.atoms) : nestedScope.depth symbol ≤ (3 : ℕ) := by
  have hwork : nestedScope.depth (.bare "Work") ≤ (1 : ℕ) :=
    depth_le_of_step (e := .event (.plain "Work")) rfl (by simp [Expr.atoms])
  have hclocks : nestedScope.depth (.bare "Clocks") ≤ (1 : ℕ) :=
    depth_le_of_step (e := .event (.plain "Clocks")) rfl (by simp [Expr.atoms])
  have hwidth : nestedScope.depth ⟨.hash, "Width", [], none⟩ ≤ (1 : ℕ) :=
    depth_le_of_step step_nestedScope_width (by simp [Expr.atoms])
  have hslots : nestedScope.depth ⟨.hash, "Slots", [], none⟩ ≤ (2 : ℕ) := by
    refine depth_le_of_step step_nestedScope_slots ?_
    simp only [Expr.atoms, List.mem_append, List.mem_singleton, Atom.symbol.injEq]
    rintro next (rfl | rfl)
    · exact hwidth
    · exact hclocks
  have hcore : nestedScope.depth ⟨.hash, "Core", [], none⟩ ≤ (3 : ℕ) := by
    refine depth_le_of_step step_nestedScope_core ?_
    simp only [Expr.atoms, List.mem_append, List.mem_singleton, Atom.symbol.injEq]
    rintro next (rfl | rfl)
    · exact hwork.trans (Nat.cast_le.2 (by decide))
    · exact hslots
  cases parseFragment_nestedFormula.symm.trans hsource
  simp only [Expr.atoms, List.mem_append, List.mem_singleton, Atom.symbol.injEq] at hsymbol
  rcases hsymbol with rfl | rfl
  · exact hcore
  · exact hwidth.trans (Nat.cast_le.2 (by decide))

theorem nestedFormula_ends :
    (∀ source, nestedScope.parseFragment nestedFormula = .ok source → ∀ symbol,
        Atom.symbol symbol ∈ source.atoms → nestedScope.depth symbol ≤ passLimit) ∧
      ((∃ e, nestedScope.resolve nestedFormula = .ok e ∧ e.hasSymbols = false) ∨
        ∃ cause, nestedScope.resolve nestedFormula = .error cause ∧
          ∀ passes, cause ≠ .passLimit passes) := by
  have hdepth : ∀ source, nestedScope.parseFragment nestedFormula = .ok source → ∀ symbol,
      Atom.symbol symbol ∈ source.atoms → nestedScope.depth symbol ≤ passLimit :=
    fun _ hsource symbol hsymbol =>
      (depth_nestedFormula hsource symbol hsymbol).trans (Nat.cast_le.2 (by decide))
  exact ⟨hdepth, (resolve_ends nestedScope nestedFormula).2 hdepth⟩

end Scope

end TopdownMetrics.Formula

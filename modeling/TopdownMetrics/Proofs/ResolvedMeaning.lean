import TopdownMetrics.Proofs.Evaluation
import TopdownMetrics.Proofs.Meaning
import TopdownMetrics.Proofs.Precedence

/-!
# Resolution preserves meaning

`Scope.Means` says what a symbol stands for by reading the definitions of the table,
however deep they go, without substituting anything.  One step of a definition keeps
this meaning, and so does every fold, so a resolved tree has the one value for which
the formula text stands.
-/

namespace TopdownMetrics.Formula

/-! ## Reading the table -/

/-- What a symbol stands for.  Only a name without a mark and without qualifiers is
looked up as a metric, and only `#name` has fragments. -/
inductive Scope.Means (s : Scope) (ι : Interpretation) : Symbol → ℚ → Prop where
  /-- A constant that is kept. -/
  | kept {name : String} {modifiers : List String} {terms : Option String}
      (hkeep : name ∈ s.rules.context.keep) :
      s.Means ι ⟨.hash, name, modifiers, terms⟩ (ι.constant name)
  /-- A constant with a replacement text, to which no fixups are applied. -/
  | replaced {name text : String} {modifiers : List String} {terms : Option String} {e : Expr}
      {x : ℚ} (hkeep : name ∉ s.rules.context.keep)
      (htext : s.rules.context.replacements.lookup name = some text)
      (hparse : parse text = .ok e) (h : Denotes ι (s.Means ι) e x) :
      s.Means ι ⟨.hash, name, modifiers, terms⟩ x
  | memory {modifiers : List String} {terms : Option String}
      (hkeep : "Memory" ∉ s.rules.context.keep)
      (hnone : s.rules.context.replacements.lookup "Memory" = none) :
      s.Means ι ⟨.hash, "Memory", modifiers, terms⟩ (if s.arch.memory then 1 else 0)
  | node {name text : String} {modifiers : List String} {terms : Option String} {e : Expr}
      {x : ℚ} (hkeep : name ∉ s.rules.context.keep)
      (hnone : s.rules.context.replacements.lookup name = none) (hname : name ≠ "Memory")
      (htext : s.table.nodes[name]? = some text) (hparse : s.parseFragment text = .ok e)
      (h : Denotes ι (s.Means ι) e x) :
      s.Means ι ⟨.hash, name, modifiers, terms⟩ x
  /-- An auxiliary fragment, which a node of the same name would hide. -/
  | aux {name text : String} {modifiers : List String} {terms : Option String} {e : Expr}
      {x : ℚ} (hkeep : name ∉ s.rules.context.keep)
      (hnone : s.rules.context.replacements.lookup name = none) (hname : name ≠ "Memory")
      (hnode : s.table.nodes[name]? = none) (htext : s.table.aux[name]? = some text)
      (hparse : s.parseFragment text = .ok e) (h : Denotes ι (s.Means ι) e x) :
      s.Means ι ⟨.hash, name, modifiers, terms⟩ x
  /-- The sum over the children of a node. -/
  | sum {parent : String} {modifiers : List String} {terms : Option String} {xs : List ℚ}
      (hne : s.table.childrenOf parent ≠ [])
      (h : List.Forall₂ (fun child => s.Means ι (.bare child)) (s.table.childrenOf parent) xs) :
      s.Means ι ⟨.sum, parent, modifiers, terms⟩ xs.sum
  /-- The larger of a node and the sum over its children. -/
  | aggregate {parent : String} {modifiers : List String} {terms : Option String} {x : ℚ}
      {xs : List ℚ} (hnode : s.Means ι (.bare parent) x)
      (hne : s.table.childrenOf parent ≠ [])
      (h : List.Forall₂ (fun child => s.Means ι (.bare child)) (s.table.childrenOf parent) xs) :
      s.Means ι ⟨.aggregate, parent, modifiers, terms⟩ (max x xs.sum)
  /-- An ignored metric stands for its formula. -/
  | ignored {name text : String} {e : Expr} {x : ℚ} (htext : s.table.info[name]? = some text)
      (hignored : name ∈ s.rules.ignoredMetrics) (hparse : s.parseFragment text = .ok e)
      (h : Denotes ι (s.Means ι) e x) :
      s.Means ι (.bare name) x
  | unavailable {name text : String} (htext : s.table.info[name]? = some text)
      (hignored : name ∉ s.rules.ignoredMetrics) (hna : Text.trim text = "#NA") :
      s.Means ι (.bare name) 0
  | metric {name text : String} (htext : s.table.info[name]? = some text)
      (hignored : name ∉ s.rules.ignoredMetrics) (hna : Text.trim text ≠ "#NA") :
      s.Means ι (.bare name) (ι.metric (s.table.canonicalName name))
  | event {name : String} (hnone : s.table.info[name]? = none) :
      s.Means ι (.bare name) (ι.event (.plain name))
  /-- A name with qualifiers is the event with the meanings of its modifiers. -/
  | qualified {name : String} {modifiers : List String} {terms : Option String}
      {qs : List Qualification} (hqualified : modifiers ≠ [] ∨ terms ≠ none)
      (hqs : modifiers.mapM qualification? = some qs) :
      s.Means ι ⟨.bare, name, modifiers, terms⟩
        (ι.event (qs.foldl EventRef.qualify ⟨name, s.pmu, [], none, terms⟩))

section

variable {s : Scope} {ι : Interpretation}

/-! ## Sums over children -/

theorem denotes_foldl_add_iff {meaning : Symbol → ℚ → Prop} (first : Expr) (rest : List Expr)
    (x : ℚ) :
    Denotes ι meaning (rest.foldl (.binary .add) first) x ↔
      ∃ y ys, Denotes ι meaning first y ∧ List.Forall₂ (Denotes ι meaning) rest ys ∧
        x = y + ys.sum := by
  induction rest generalizing first with
  | nil => simp
  | cons e es ih =>
    rw [List.foldl_cons, ih]
    constructor
    · rintro ⟨y, ys, hfirst, hys, rfl⟩
      obtain ⟨y₁, y₂, hy₁, hy₂, rfl⟩ := denotes_binary_iff.1 hfirst
      exact ⟨y₁, y₂ :: ys, hy₁, .cons hy₂ hys, by simp [Interpretation.apply, add_assoc]⟩
    · rintro ⟨y₁, ys, hy₁, hys, rfl⟩
      cases hys with
      | @cons _ y₂ _ ys hy₂ hys =>
        refine ⟨y₁ + y₂, ys, .binary hy₁ hy₂, hys, ?_⟩
        rw [List.sum_cons, add_assoc]

theorem denotes_sumOfChildren_iff (first : String) (rest : List String) (x : ℚ) :
    Denotes ι (s.Means ι) (Scope.sumOfChildren first rest) x ↔
      ∃ xs, List.Forall₂ (fun child => s.Means ι (.bare child)) (first :: rest) xs ∧
        x = xs.sum := by
  have hmeans (child : String) (y : ℚ) :
      Denotes ι (s.Means ι) (.symbol (.bare child)) y ↔ s.Means ι (.bare child) y :=
    denotes_symbol_iff
  rw [Scope.sumOfChildren, denotes_foldl_add_iff]
  simp only [List.forall₂_map_left_iff, hmeans]
  constructor
  · rintro ⟨y, ys, hy, hys, rfl⟩
    exact ⟨y :: ys, .cons hy hys, List.sum_cons.symm⟩
  · rintro ⟨xs, hxs, rfl⟩
    cases hxs with
    | cons hy hys => exact ⟨_, _, hy, hys, List.sum_cons⟩

/-! ## One step of a definition -/

theorem number_zero : ι.number "0" = 0 :=
  number_of_number? (b := .finite false 0) (by decide) rfl

theorem number_one : ι.number "1" = 1 :=
  number_of_number? (b := .finite false 1) (by decide +kernel) rfl

theorem number_memory (memory : Bool) :
    ι.number (if memory then "1" else "0") = if memory then 1 else 0 := by
  cases memory with
  | false => exact number_zero
  | true => exact number_one

theorem exists_steps_of_means {symbol : Symbol} {x : ℚ} (h : s.Means ι symbol x) :
    ∃ e, s.Steps symbol e ∧ Denotes ι (s.Means ι) e x := by
  cases h with
  | kept hkeep => exact ⟨_, .kept hkeep, .context _⟩
  | replaced hkeep htext hparse h =>
    exact ⟨_, .replaced hkeep htext hparse, denotes_bracket_iff.2 h⟩
  | memory hkeep hnone =>
    refine ⟨_, .memory hkeep hnone, ?_⟩
    rw [denotes_num_iff, number_memory]
  | node hkeep hnone hname htext hparse h =>
    exact ⟨_, .node hkeep hnone hname htext hparse, denotes_bracket_iff.2 h⟩
  | aux hkeep hnone hname hnode htext hparse h =>
    exact ⟨_, .aux hkeep hnone hname hnode htext hparse, denotes_bracket_iff.2 h⟩
  | sum hne h =>
    obtain ⟨first, rest, hchildren⟩ := List.exists_cons_of_ne_nil hne
    have hsum := (denotes_sumOfChildren_iff _ _ _).2 ⟨_, hchildren ▸ h, rfl⟩
    exact ⟨_, .sum hchildren, .paren hsum⟩
  | aggregate hnode hne h =>
    obtain ⟨first, rest, hchildren⟩ := List.exists_cons_of_ne_nil hne
    have hsum := (denotes_sumOfChildren_iff _ _ _).2 ⟨_, hchildren ▸ h, rfl⟩
    refine ⟨_, .aggregate hchildren, ?_⟩
    rw [← ι.call_max]
    exact .call (.cons (.symbol hnode) (.cons hsum .nil))
  | ignored htext hignored hparse h =>
    exact ⟨_, .ignored htext hignored hparse, denotes_bracket_iff.2 h⟩
  | unavailable htext hignored hna =>
    refine ⟨_, .unavailable htext hignored hna, ?_⟩
    rw [denotes_num_iff, number_zero]
  | metric htext hignored hna => exact ⟨_, .metric htext hignored hna, .metric _⟩
  | event hnone => exact ⟨_, .event hnone, .event _⟩
  | qualified hqualified hqs => exact ⟨_, .qualified hqualified hqs, .event _⟩

theorem means_of_steps {symbol : Symbol} {e : Expr} (hsteps : s.Steps symbol e) {x : ℚ}
    (h : Denotes ι (s.Means ι) e x) : s.Means ι symbol x := by
  cases hsteps with
  | kept hkeep =>
    obtain rfl := (denotes_toExpr_iff (r := .context _)).1 h
    exact .kept hkeep
  | replaced hkeep htext hparse =>
    exact .replaced hkeep htext hparse (denotes_bracket_iff.1 h)
  | memory hkeep hnone =>
    rw [denotes_num_iff, number_memory] at h
    exact h ▸ .memory hkeep hnone
  | node hkeep hnone hname htext hparse =>
    exact .node hkeep hnone hname htext hparse (denotes_bracket_iff.1 h)
  | aux hkeep hnone hname hnode htext hparse =>
    exact .aux hkeep hnone hname hnode htext hparse (denotes_bracket_iff.1 h)
  | sum hchildren =>
    rw [denotes_paren_iff, denotes_sumOfChildren_iff, ← hchildren] at h
    obtain ⟨xs, hxs, rfl⟩ := h
    exact .sum (by simp [hchildren]) hxs
  | aggregate hchildren =>
    obtain ⟨zs, hzs, rfl⟩ := denotes_call_iff.1 h
    obtain ⟨y, zs₁, hnode, hzs₁, rfl⟩ := List.forall₂_cons_left_iff.1 hzs
    obtain ⟨z, zs₂, hsum, hzs₂, rfl⟩ := List.forall₂_cons_left_iff.1 hzs₁
    obtain rfl := List.forall₂_nil_left_iff.1 hzs₂
    obtain ⟨xs, hxs, rfl⟩ := (denotes_sumOfChildren_iff _ _ _).1 hsum
    rw [ι.call_max]
    exact .aggregate (denotes_symbol_iff.1 hnode) (by simp [hchildren]) (hchildren ▸ hxs)
  | ignored htext hignored hparse =>
    exact .ignored htext hignored hparse (denotes_bracket_iff.1 h)
  | unavailable htext hignored hna =>
    rw [denotes_num_iff, number_zero] at h
    exact h ▸ .unavailable htext hignored hna
  | metric htext hignored hna =>
    obtain rfl := (denotes_toExpr_iff (r := .metric _)).1 h
    exact .metric htext hignored hna
  | event hnone =>
    obtain rfl := (denotes_toExpr_iff (r := .event _)).1 h
    exact .event hnone
  | qualified hqualified hqs =>
    obtain rfl := (denotes_toExpr_iff (r := .event _)).1 h
    exact .qualified hqualified hqs

/-- A symbol stands for what one step of its definition stands for. -/
theorem means_iff_of_steps {symbol : Symbol} {e : Expr} (hsteps : s.Steps symbol e) (x : ℚ) :
    s.Means ι symbol x ↔ Denotes ι (s.Means ι) e x := by
  constructor
  · intro h
    obtain ⟨e', hsteps', hdenotes⟩ := exists_steps_of_means h
    exact hsteps.unique hsteps' ▸ hdenotes
  · exact means_of_steps hsteps

end

/-! ## Whole formulas -/

/-- Resolution preserves meaning.  If a formula text resolves and all coefficients were
subtracted exactly, the text parses, and what it stands for, read against the table, is
the value of the resolved tree and nothing else. -/
theorem denotes_iff_value_of_resolve {s : Scope} {formula : String} {e : Expr}
    (h : s.resolve formula = .ok e) (hexact : ∀ d ∈ s.differences formula, d.Exact)
    (ι : Interpretation) (symbols : Symbol → ℚ) :
    ∃ source, s.parseFragment formula = .ok source ∧
      ∀ x, Denotes ι (s.Means ι) source x ↔ x = e.value ι symbols := by
  have hstep : ∀ {symbol : Symbol} {f : Expr}, s.Steps symbol f →
      SameMeaning ι (s.Means ι) (.symbol symbol) f := by
    intro symbol f hsteps x
    rw [denotes_symbol_iff, means_iff_of_steps hsteps]
  obtain ⟨source, hparse, hsame, hsymbols⟩ :=
    congruence_sameMeaning.resolve sameMeaning_of_folds hstep h hexact
  exact ⟨source, hparse, fun x => (hsame x).trans (denotes_iff_value symbols hsymbols)⟩

/-- A node with one child, a fragment that needs a fixup, and a fragment that refers to
itself. -/
def cyclicScope : Scope where
  table := ((((({} : SymbolTable).addNode "Core" "#Work / Slots").addNode "Ports" "Ports_Used").addChild
    "Core" "Ports").addAux "#Work" "(3 * CPU_CLK) - (1 * CPU_CLK)").addAux "#Loop" "#Loop + 1"
  rules := default
  arch := .undeclared
  fixups := [⟨"CPU_CLK", "Clocks"⟩]
  pmu := "cpu"

/-- A formula in which the fragment that refers to itself is not chosen. -/
def cyclicFormula : String :=
  "#Work + ##?Core if #Memory else #Loop"

def cyclicSource : Expr :=
  .cond
    (.binary .add (.symbol ⟨.hash, "Work", [], none⟩) (.symbol ⟨.aggregate, "Core", [], none⟩))
    (.symbol ⟨.hash, "Memory", [], none⟩)
    (.symbol ⟨.hash, "Loop", [], none⟩)

/-- The tree of the fragment `#Work`, with fixups applied. -/
def cyclicWork : Expr :=
  .binary .sub (.paren (.binary .mul (.num "3") (.symbol (.bare "Clocks"))))
    (.paren (.binary .mul (.num "1") (.symbol (.bare "Clocks"))))

/-- Two clocks are left of three. -/
def cyclicResult : Expr :=
  .binary .add (.paren (.binary .mul (.num "2") (.event (.plain "Clocks"))))
    (.call "max" [.metric "tma_core", .metric "tma_ports"])

theorem parseFragment_cyclicScope :
    cyclicScope.parseFragment cyclicFormula = .ok cyclicSource ∧
      cyclicScope.parseFragment "(3 * CPU_CLK) - (1 * CPU_CLK)" = .ok cyclicWork ∧
      cyclicScope.parseFragment "#Loop + 1" =
        .ok (.binary .add (.symbol ⟨.hash, "Loop", [], none⟩) (.num "1")) := by
  refine ⟨mapError_eq_ok_iff.2 ?_, mapError_eq_ok_iff.2 ?_, mapError_eq_ok_iff.2 ?_⟩
  · exact parse_eq_ok_of_tokens (by decide +kernel) (by decide) (by decide)
  · exact parse_eq_ok_of_tokens (by decide +kernel) (by decide) (by decide)
  · exact parse_eq_ok_of_tokens (by decide +kernel) (by decide) (by decide)

theorem step_cyclicScope_work :
    cyclicScope.step ⟨.hash, "Work", [], none⟩ = .ok (.paren cyclicWork) :=
  congrArg (Except.map Expr.bracket) parseFragment_cyclicScope.2.1

theorem step_cyclicScope_loop :
    cyclicScope.step ⟨.hash, "Loop", [], none⟩ =
      .ok (.paren (.binary .add (.symbol ⟨.hash, "Loop", [], none⟩) (.num "1"))) :=
  congrArg (Except.map Expr.bracket) parseFragment_cyclicScope.2.2

/-- One pass chooses the branch and reads the fragment and the children. -/
def cyclicInlined : Expr :=
  .binary .add (.paren cyclicWork)
    (.call "max" [.symbol (.bare "Core"), .symbol (.bare "Ports")])

theorem resolve_cyclicFormula :
    cyclicScope.resolve cyclicFormula = .ok cyclicResult ∧
      cyclicScope.differences cyclicFormula = [⟨.finite false 3, .finite false 1⟩] := by
  have hmemory : cyclicScope.step ⟨.hash, "Memory", [], none⟩ = .ok (.num "1") := rfl
  have haggregate : cyclicScope.step ⟨.aggregate, "Core", [], none⟩ =
      .ok (.call "max" [.symbol (.bare "Core"), .symbol (.bare "Ports")]) := rfl
  have hfirst : cyclicScope.substitute cyclicSource = .ok
      (.cond cyclicInlined (.num "1")
        (.paren (.binary .add (.symbol ⟨.hash, "Loop", [], none⟩) (.num "1")))) := by
    simp only [cyclicSource, Scope.substitute, step_cyclicScope_work, step_cyclicScope_loop,
      hmemory, haggregate]
    rfl
  have hsecond : cyclicScope.substitute cyclicInlined = .ok
      (.binary .add
        (.paren (.binary .sub (.paren (.binary .mul (.num "3") (.event (.plain "Clocks"))))
          (.paren (.binary .mul (.num "1") (.event (.plain "Clocks"))))))
        (.call "max" [.metric "tma_core", .metric "tma_ports"])) := rfl
  have hsource : cyclicSource.simplified = cyclicSource := by decide +kernel
  have hafterFirst := Scope.settle_of_pass (by decide) hfirst
    (show _ = cyclicInlined by decide +kernel) 63
  have hafterSecond := Scope.settle_of_pass (by decide) hsecond
    (show _ = cyclicResult by decide +kernel) 62
  have hdone := cyclicScope.settle_of_done (show cyclicResult.hasSymbols = false by decide) 62
  obtain ⟨hresolve, hdifferences⟩ := Scope.resolve_of_parse parseFragment_cyclicScope.1 hsource
  constructor
  · exact hresolve.trans (hafterFirst.1.trans (hafterSecond.1.trans hdone.1))
  · rw [hdifferences, show passLimit = 63 + 1 from rfl, hafterFirst.2, hafterSecond.2, hdone.2]
    decide +kernel

/-- Ten clocks, and metrics that differ. -/
def cyclicInterpretation : Interpretation where
  event _ := 10
  metric name := if name = "tma_core" then 1 else 3
  constant _ := 0
  literal _ := 0
  overZero _ := 0
  operation _ _ _ := 0
  call _ xs :=
    match xs with
    | [x, y] => max x y
    | _ => 0
  call_max _ _ := rfl

theorem denotes_cyclicFormula :
    ∃ source, cyclicScope.parseFragment cyclicFormula = .ok source ∧
      ∀ x, Denotes cyclicInterpretation (cyclicScope.Means cyclicInterpretation) source x ↔
        x = 23 := by
  have hexact : ∀ d ∈ cyclicScope.differences cyclicFormula, d.Exact := by
    rw [resolve_cyclicFormula.2]
    exact List.forall_mem_singleton.2 ⟨3, 1, rfl, rfl, by decide +kernel⟩
  have hvalue : cyclicResult.value cyclicInterpretation (fun _ => 0) = 23 := by decide +kernel
  exact hvalue ▸ denotes_iff_value_of_resolve resolve_cyclicFormula.1 hexact _ _

end TopdownMetrics.Formula

import TopdownMetrics.Proofs.InlinedNodes
import TopdownMetrics.Rules.Builtin

/-!
# The companion slots term

Whether the slots term is missing is decided on the text of a formula, and the term is added to
its tree.  The text of the sum ends with that of the term, so the token is found in it and the
term is never added twice.

The sum is printed without parentheses of its own.  Only a conditional is given some, so behind
a comparison or a logical operator the term is read as part of the last operand.
-/

namespace TopdownMetrics

open Formula

namespace Text

theorem occursIn_iff {pattern cs : List Char} :
    occursIn pattern cs = true ↔ pattern <:+: cs := by
  induction cs with
  | nil => rw [occursIn, List.isEmpty_iff, List.infix_nil]
  | cons c cs ih =>
    rw [occursIn, Bool.or_eq_true, List.isPrefixOf_iff_prefix, ih, List.infix_cons_iff]

theorem contains_append {text pattern : String} (before : String)
    (h : contains text pattern = true) : contains (before ++ text) pattern = true := by
  unfold contains at h ⊢
  rw [occursIn_iff] at h ⊢
  rw [String.toList_append]
  exact h.trans (List.suffix_append _ _).isInfix

end Text

/-- The text uses an event of the family and does not count slots. -/
def SlotsRule.IsMissingIn (slots : SlotsRule) (text : String) : Prop :=
  Text.contains text slots.family = true ∧ Text.contains text slots.token = false

namespace Formula

/-! ## The sum -/

/-- The tree as the first operand of the sum. -/
def Expr.addend : Expr → Expr
  | .cond chosen condition otherwise => .paren (.cond chosen condition otherwise)
  | e => e

/-- Everything that can happen when the slots term is looked for. -/
theorem withCompanionSlots_eq_ok_iff {slots : SlotsRule} {e t : Expr} :
    withCompanionSlots slots e = .ok t ↔
      (¬ slots.IsMissingIn e.render ∧ t = e) ∨
        (slots.IsMissingIn e.render ∧
          ∃ term, parse slots.term = .ok term ∧ t = .binary .add e.addend term) := by
  have haddend : (match e with
      | .cond .. => e.paren
      | e => e) = e.addend := by
    cases e <;> rfl
  unfold withCompanionSlots SlotsRule.IsMissingIn
  dsimp only
  rw [← haddend]
  split
  · rename_i hmissing
    rw [Bool.and_eq_true, Bool.not_eq_true'] at hmissing
    rw [bind_eq_ok_iff]
    simp only [hmissing, and_self, not_true_eq_false, false_and, false_or, true_and]
    refine exists_congr fun term => and_congr_right fun _ => ?_
    exact ⟨fun h => (Except.ok.inj h).symm, fun h => congrArg _ h.symm⟩
  · rename_i hmissing
    rw [Bool.and_eq_true, Bool.not_eq_true'] at hmissing
    simp only [hmissing, not_false_eq_true, true_and, false_and, or_false, Except.ok.injEq]
    exact eq_comm

theorem withCompanionSlots_of_missing {slots : SlotsRule} {e term : Expr}
    (hmissing : slots.IsMissingIn e.render) (hterm : parse slots.term = .ok term) :
    withCompanionSlots slots e = .ok (.binary .add e.addend term) :=
  withCompanionSlots_eq_ok_iff.2 (.inr ⟨hmissing, term, hterm, rfl⟩)

theorem withCompanionSlots_of_not_missing {slots : SlotsRule} {e : Expr}
    (h : ¬ slots.IsMissingIn e.render) : withCompanionSlots slots e = .ok e :=
  withCompanionSlots_eq_ok_iff.2 (.inl ⟨h, rfl⟩)

theorem contains_render_sum {term : Expr} {token : String}
    (h : Text.contains term.render token = true) (e : Expr) :
    Text.contains (Expr.binary .add e term).render token = true := by
  rw [Expr.render]
  exact Text.contains_append _ h

/-- What the slots term was looked for in never needs it again. -/
theorem not_isMissingIn_of_withCompanionSlots {slots : SlotsRule} {term e t : Expr}
    (hterm : parse slots.term = .ok term) (htoken : Text.contains term.render slots.token = true)
    (h : withCompanionSlots slots e = .ok t) : ¬ slots.IsMissingIn t.render := by
  rcases withCompanionSlots_eq_ok_iff.1 h with ⟨hpresent, rfl⟩ | ⟨-, term', hterm', rfl⟩
  · exact hpresent
  · obtain rfl := Except.ok.inj (hterm.symm.trans hterm')
    rintro ⟨-, hlacks⟩
    rw [contains_render_sum htoken] at hlacks
    cases hlacks

theorem parse_builtin_slots : parse Rules.builtin.slots.term = .ok zeroSlots :=
  parse_eq_ok_of_tokens (by decide +kernel) (by decide) (by decide)

/-- The slots term is added exactly where the family occurs and the token does not.  What comes
out has no need of it any more, so it is added once; and the term of the built-in rules changes
no value. -/
theorem withCompanionSlots_adds_once {slots : SlotsRule} {term : Expr}
    (hterm : parse slots.term = .ok term) (htoken : Text.contains term.render slots.token = true)
    (e : Expr) :
    ∃ t, withCompanionSlots slots e = .ok t ∧
      (Text.contains e.render slots.family = false ∨ Text.contains e.render slots.token = true →
        t = e) ∧
      (Text.contains e.render slots.family = true → Text.contains e.render slots.token = false →
        t = .binary .add e.addend term) ∧
      (Text.contains t.render slots.family = false ∨
        Text.contains t.render slots.token = true) ∧
      withCompanionSlots slots t = .ok t ∧
      (slots = Rules.builtin.slots →
        ∀ (ι : Interpretation) (symbols : Symbol → ℚ), t.value ι symbols = e.value ι symbols) := by
  have hpresent_iff (text : String) : ¬ slots.IsMissingIn text ↔
      Text.contains text slots.family = false ∨ Text.contains text slots.token = true := by
    rw [SlotsRule.IsMissingIn, not_and_or, Bool.not_eq_true, Bool.not_eq_false]
  have hsum : ∃ t, withCompanionSlots slots e = .ok t ∧
      (¬ slots.IsMissingIn e.render → t = e) ∧
      (slots.IsMissingIn e.render → t = .binary .add e.addend term) := by
    by_cases hmissing : slots.IsMissingIn e.render
    · exact ⟨_, withCompanionSlots_of_missing hmissing hterm,
        fun hpresent => absurd hmissing hpresent, fun _ => rfl⟩
    · exact ⟨e, withCompanionSlots_of_not_missing hmissing, fun _ => rfl,
        fun h => absurd h hmissing⟩
  obtain ⟨t, ht, hkept, hadded⟩ := hsum
  have hdone := not_isMissingIn_of_withCompanionSlots hterm htoken ht
  refine ⟨t, ht, fun h => hkept ((hpresent_iff _).2 h), fun hfamily hlacks =>
    hadded ⟨hfamily, hlacks⟩, (hpresent_iff _).1 hdone,
    withCompanionSlots_of_not_missing hdone, ?_⟩
  rintro rfl ι symbols
  exact value_withCompanionSlots ht (isNeutral_of_parse parse_builtin_slots ι symbols)

/-- The tree of `topdown\-retiring if #SMT_on else 0`. -/
def retiringOnSmt : Expr :=
  .cond (.symbol (.bare "topdown\\-retiring")) (.symbol ⟨.hash, "SMT_on", [], none⟩) (.num "0")

theorem withCompanionSlots_retiringOnSmt :
    parse Rules.builtin.slots.term = .ok zeroSlots ∧
      Text.contains zeroSlots.render Rules.builtin.slots.token = true ∧
      withCompanionSlots Rules.builtin.slots retiringOnSmt =
        .ok (.binary .add (.paren retiringOnSmt) zeroSlots) ∧
      withCompanionSlots Rules.builtin.slots (.binary .add (.paren retiringOnSmt) zeroSlots) =
        .ok (.binary .add (.paren retiringOnSmt) zeroSlots) ∧
      ∀ (ι : Interpretation) (symbols : Symbol → ℚ),
        (Expr.binary .add (.paren retiringOnSmt) zeroSlots).value ι symbols =
          retiringOnSmt.value ι symbols := by
  have htoken : Text.contains zeroSlots.render Rules.builtin.slots.token = true := rfl
  obtain ⟨t, ht, -, hadded, -, hagain, hvalue⟩ :=
    withCompanionSlots_adds_once parse_builtin_slots htoken retiringOnSmt
  obtain rfl := hadded rfl rfl
  exact ⟨parse_builtin_slots, htoken, ht, hagain, hvalue rfl⟩

/-! ## Where the term is read -/

/-- A comparison or a logical operator stands at the top. -/
def Expr.isCondition : Expr → Bool
  | .binary op _ _ => op.level == .comparison || op.level == .logic
  | _ => false

/-- The tree with the term added to the last operand that is no such operator itself. -/
def Expr.addToLast : Expr → (term : Expr) → Expr
  | .binary op lhs rhs, term =>
    if (Expr.binary op lhs rhs).isCondition then .binary op lhs (rhs.addToLast term)
    else .binary .add (.binary op lhs rhs) term
  | e, term => .binary .add e term

theorem Expr.looseness_le_three_iff {e : Expr} (hle : e.looseness ≤ 5) :
    e.looseness ≤ 3 ↔ e.isCondition = false := by
  cases e with
  | binary op lhs rhs =>
    show op.level.rank + 1 ≤ 3 ↔ (op.level == .comparison || op.level == .logic) = false
    cases op <;> decide
  | cond _ _ _ => exact absurd hle (by simp [looseness])
  | num _ | symbol _ | event _ | metric _ | context _ | neg _ | call _ _ | paren _ =>
    exact iff_of_true (by simp [looseness]) rfl

theorem Expr.addToLast_of_not_isCondition {e : Expr} (h : e.isCondition = false) (term : Expr) :
    e.addToLast term = .binary .add e term := by
  cases e with
  | binary op lhs rhs => rw [addToLast, if_neg (Bool.eq_false_iff.1 h)]
  | _ => rfl

theorem Expr.render_addToLast (e term : Expr) :
    (e.addToLast term).render = (Expr.binary .add e term).render := by
  match e with
  | .binary op lhs rhs =>
    rw [addToLast]
    split_ifs
    · rw [render, rhs.render_addToLast term]
      simp only [render, String.append_assoc]
    · rfl
  | .num _ | .symbol _ | .event _ | .metric _ | .context _ | .neg _ | .call _ _ | .cond _ _ _
  | .paren _ => rfl

theorem Expr.atoms_addToLast (e term : Expr) :
    (e.addToLast term).atoms = e.atoms ++ term.atoms := by
  match e with
  | .binary op lhs rhs =>
    rw [addToLast]
    split_ifs
    · rw [atoms, rhs.atoms_addToLast term, atoms, List.append_assoc]
    · rfl
  | .num _ | .symbol _ | .event _ | .metric _ | .context _ | .neg _ | .call _ _ | .cond _ _ _
  | .paren _ => rfl

/-- Below a comparison or a logical operator there is room for a sum. -/
theorem Expr.Levelled.addToLast {e term : Expr} (he : e.Levelled) (hle : e.looseness ≤ 5)
    (hterm : term.Levelled) (htermLe : term.looseness ≤ 2) :
    (e.addToLast term).Levelled ∧ (e.addToLast term).looseness = max e.looseness 3 := by
  by_cases hcondition : e.isCondition = true
  · match e with
    | .binary op lhs rhs =>
      obtain ⟨hlhs, hrhs, hrhsLe⟩ := he
      have hroom : 3 ≤ op.level.operand.looseness ∧ op.level.operand.looseness ≤ 5 ∧
          3 ≤ op.level.rank + 1 := by
        clear hrhsLe hlhs
        cases op <;> first | decide | cases hcondition
      obtain ⟨hsum, hsumLe⟩ := hrhs.addToLast (hrhsLe.trans hroom.2.1) hterm htermLe
      rw [Expr.addToLast, if_pos hcondition]
      refine ⟨⟨hlhs, hsum, ?_⟩, (max_eq_left hroom.2.2).symm⟩
      rw [hsumLe]
      exact max_le hrhsLe hroom.1
    | .num _ | .symbol _ | .event _ | .metric _ | .context _ | .neg _ | .call _ _ | .cond _ _ _
    | .paren _ => cases hcondition
  · rw [Bool.not_eq_true] at hcondition
    have htight := (Expr.looseness_le_three_iff hle).2 hcondition
    rw [Expr.addToLast_of_not_isCondition hcondition, max_eq_right htight]
    exact ⟨⟨⟨he, htight⟩, hterm, htermLe⟩, rfl⟩

theorem Expr.Levelled.addend {e : Expr} (he : e.Levelled) :
    e.addend.Levelled ∧ e.addend.looseness ≤ 5 := by
  cases e with
  | binary op _ _ => exact ⟨he, Nat.le_of_lt_succ (Level.rank_lt_six op.level)⟩
  | cond _ _ _ => exact ⟨he, Nat.zero_le _⟩
  | num _ | symbol _ | event _ | metric _ | context _ | neg _ | call _ _ | paren _ =>
    exact ⟨he, by simp [Expr.addend, Expr.looseness]⟩

theorem Expr.atoms_addend (e : Expr) : e.addend.atoms = e.atoms := by
  cases e <;> rfl

theorem Expr.isCondition_addend (e : Expr) : e.addend.isCondition = e.isCondition := by
  cases e <;> rfl

/-- The sum has the same text as the tree with the term at its last operand. -/
theorem parse_render_sum {e term : Expr} (he : e.Levelled) (hatoms : ∀ a ∈ e.atoms, a.Spelled)
    (hterm : term.Levelled) (htermAtoms : ∀ a ∈ term.atoms, a.Spelled)
    (htermLe : term.looseness ≤ 2) :
    parse (Expr.binary .add e.addend term).render = .ok (e.addend.addToLast term) := by
  obtain ⟨haddend, hle⟩ := he.addend
  rw [← Expr.render_addToLast]
  refine (haddend.addToLast hle hterm htermLe).1.parse_render ?_
  rw [Expr.atoms_addToLast, Expr.atoms_addend]
  exact List.forall_mem_append.2 ⟨hatoms, htermAtoms⟩

/-- The printed tree is read back if and only if nothing was added, or the term is no looser
than a product and the operator at the top is neither a comparison nor a logical one.  Below
such an operator the term is read as part of the last operand. -/
theorem parse_render_withCompanionSlots {slots : SlotsRule} {text : String} {e term t : Expr}
    (hparse : parse text = .ok e) (hterm : parse slots.term = .ok term)
    (h : withCompanionSlots slots e = .ok t) :
    (parse t.render = .ok t ↔ t = e ∨ e.isCondition = false ∧ term.looseness ≤ 2) ∧
      (t ≠ e → term.looseness ≤ 2 → parse t.render = .ok (e.addend.addToLast term)) := by
  obtain ⟨he, hatoms⟩ := levelled_and_spelled_of_parse hparse
  obtain ⟨htermLevelled, htermAtoms⟩ := levelled_and_spelled_of_parse hterm
  have hsame : parse e.render = .ok e := (parse_render_of_parse hparse).2
  rcases withCompanionSlots_eq_ok_iff.1 h with ⟨-, rfl⟩ | ⟨-, term', hterm', rfl⟩
  · exact ⟨iff_of_true hsame (.inl rfl), fun hne => absurd rfl hne⟩
  · obtain rfl := Except.ok.inj (hterm.symm.trans hterm')
    have hread := parse_render_sum he hatoms htermLevelled htermAtoms
    refine ⟨⟨fun hround => .inr ?_, ?_⟩, fun _ => hread⟩
    · obtain ⟨⟨⟨-, hle⟩, -, htermLe⟩, -⟩ := levelled_and_spelled_of_parse hround
      have hcondition := (Expr.looseness_le_three_iff he.addend.2).1 hle
      exact ⟨e.isCondition_addend ▸ hcondition, htermLe⟩
    · rintro (heq | ⟨hcondition, htermLe⟩)
      · rw [heq, hsame]
      · rw [hread htermLe, Expr.addToLast_of_not_isCondition]
        rw [Expr.isCondition_addend, hcondition]

/-- The tree of `topdown\-be\-bound / (topdown\-fe\-bound + topdown\-retiring)`. -/
def backendShare : Expr :=
  .binary .div (.symbol (.bare "topdown\\-be\\-bound"))
    (.paren (.binary .add (.symbol (.bare "topdown\\-fe\\-bound"))
      (.symbol (.bare "topdown\\-retiring"))))

theorem parse_render_backendShare :
    parse backendShare.render = .ok backendShare ∧
      withCompanionSlots Rules.builtin.slots backendShare =
        .ok (.binary .add backendShare zeroSlots) ∧
      parse (Expr.binary .add backendShare zeroSlots).render =
        .ok (.binary .add backendShare zeroSlots) := by
  have hparse : parse backendShare.render = .ok backendShare :=
    Expr.Levelled.parse_render (by decide) (by decide)
  have hslots : withCompanionSlots Rules.builtin.slots backendShare =
      .ok (.binary .add backendShare zeroSlots) :=
    withCompanionSlots_of_missing ⟨rfl, rfl⟩ parse_builtin_slots
  have hround := (parse_render_withCompanionSlots hparse parse_builtin_slots hslots).1
  exact ⟨hparse, hslots, hround.2 (.inr ⟨rfl, le_rfl⟩)⟩

/-- The tree of `topdown\-retiring < 1`. -/
def retiringBelowOne : Expr :=
  .binary .lt (.symbol (.bare "topdown\\-retiring")) (.num "1")

/-- The slots are added to the bound and not to the comparison. -/
theorem parse_render_retiringBelowOne :
    parse "topdown\\-retiring < 1" = .ok retiringBelowOne ∧
      withCompanionSlots Rules.builtin.slots retiringBelowOne =
        .ok (.binary .add retiringBelowOne zeroSlots) ∧
      parse (Expr.binary .add retiringBelowOne zeroSlots).render =
        .ok (.binary .lt (.symbol (.bare "topdown\\-retiring"))
          (.binary .add (.num "1") zeroSlots)) ∧
      parse (Expr.binary .add retiringBelowOne zeroSlots).render ≠
        .ok (.binary .add retiringBelowOne zeroSlots) := by
  have hparse : parse "topdown\\-retiring < 1" = .ok retiringBelowOne := by
    have hrender : retiringBelowOne.render = "topdown\\-retiring < 1" := rfl
    rw [← hrender]
    exact Expr.Levelled.parse_render (by decide) (by decide)
  have hread : parse (Expr.binary .add retiringBelowOne zeroSlots).render =
      .ok (.binary .lt (.symbol (.bare "topdown\\-retiring"))
        (.binary .add (.num "1") zeroSlots)) :=
    parse_render_sum (e := retiringBelowOne) (by decide) (by decide) (by decide) (by decide) le_rfl
  refine ⟨hparse, withCompanionSlots_of_missing ⟨rfl, rfl⟩ parse_builtin_slots, hread, ?_⟩
  rw [hread]
  exact nofun

end Formula

end TopdownMetrics

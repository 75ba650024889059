import TopdownMetrics.Proofs.Evaluation
import TopdownMetrics.Proofs.FilledTable
import TopdownMetrics.Proofs.Rendering
import TopdownMetrics.Proofs.Rewriting

/-!
# Resolved trees are printed with the precedence that they have

Definitions are substituted at arbitrary places, and nothing puts parentheses into the
rendering afterwards.  Two invariants are kept by every fold and every step of a
definition: the tree stays levelled and binds at least as tightly as before, and all
its atoms have texts that can be read.  So the rendering of a resolved tree is read as
the tree itself, with every leaf replaced by what its own text is read as.
-/

namespace TopdownMetrics.Formula

/-! ## What leaves are read as -/

/-- A decimal without an exponent. -/
def IsPlainDecimal (cs : List Char) : Prop :=
  isDecimalNumeral cs = true ∧ cs.all (fun c => c.isDigit || c == '.') = true
  deriving Decidable

/-- The characters behind an optional leading minus. -/
def withoutMinus : List Char → List Char
  | '-' :: cs => cs
  | cs => cs

/-- A plain decimal with an optional leading minus. -/
def IsSignedDecimal (text : String) : Prop :=
  IsPlainDecimal (withoutMinus text.toList)
  deriving Decidable

/-- The symbol as which the text of an event without a privilege is read. -/
def EventRef.reading (e : EventRef) : Symbol :=
  match e.terms with
  | some terms => ⟨.bare, e.name, [], some (terms ++ String.join e.qualifiers)⟩
  | none =>
    if e.qualifiers.isEmpty then .bare e.name
    else ⟨.bare, e.pmu, [], some (e.name ++ String.join e.qualifiers)⟩

mutual

/-- The tree with each leaf replaced by what its text is read as. -/
def Expr.reading : Expr → Expr
  | .num text =>
    match text.toList with
    | '-' :: cs => .neg (.num (String.ofList cs))
    | _ => .num text
  | .symbol s => .symbol s
  | .event e => .symbol e.reading
  | .metric name => .symbol (.bare name)
  | .context name => .symbol ⟨.hash, name, [], none⟩
  | .neg operand => .neg operand.reading
  | .binary op lhs rhs => .binary op lhs.reading rhs.reading
  | .call function arguments => .call function (Expr.readings arguments)
  | .cond chosen condition otherwise =>
    .cond chosen.reading condition.reading otherwise.reading
  | .paren inner => .paren inner.reading

def Expr.readings : List Expr → List Expr
  | [] => []
  | e :: es => e.reading :: Expr.readings es

end

/-! ## Texts of leaves -/

theorem EventRef.render_reading {e : EventRef} (h : e.privilege = none) :
    e.reading.render = e.render := by
  obtain ⟨name, pmu, qualifiers, privilege, terms⟩ := e
  subst h
  cases terms with
  | some terms =>
    simp [reading, render, Symbol.render, Sigil.text, String.join, String.append_assoc]
  | none =>
    cases qualifiers with
    | nil => simp [reading, render, Symbol.render, Symbol.bare, Sigil.text, String.join]
    | cons q qs => simp [reading, render, Symbol.render, Sigil.text, String.append_assoc]

mutual

theorem Expr.render_reading (e : Expr)
    (hprivilege : ∀ ev, Atom.event ev ∈ e.atoms → ev.privilege = none) :
    e.reading.render = e.render := by
  match e with
  | .num text =>
    rw [Expr.reading]
    split
    · rename_i cs htext
      apply String.toList_injective
      simp [Expr.render, htext]
    · rfl
  | .symbol _ => rfl
  | .event ev => exact ev.render_reading (hprivilege ev List.mem_cons_self)
  | .metric name =>
    simp [Expr.reading, Expr.render, Symbol.render, Symbol.bare, Sigil.text, String.join]
  | .context name => simp [Expr.reading, Expr.render, Symbol.render, Sigil.text, String.join]
  | .neg operand =>
    rw [Expr.reading, Expr.render, operand.render_reading hprivilege, Expr.render]
  | .binary op lhs rhs =>
    have hlhs := lhs.render_reading fun ev h => hprivilege ev (List.mem_append_left _ h)
    have hrhs := rhs.render_reading fun ev h => hprivilege ev (List.mem_append_right _ h)
    rw [Expr.reading, Expr.render, hlhs, hrhs, Expr.render]
  | .call function arguments =>
    have harguments := Expr.renderArguments_readings arguments fun ev h =>
      hprivilege ev (List.mem_cons_of_mem _ h)
    rw [Expr.reading, Expr.render, harguments, Expr.render]
  | .cond chosen condition otherwise =>
    have hchosen := chosen.render_reading fun ev h =>
      hprivilege ev (List.mem_append_left _ h)
    have hcondition := condition.render_reading fun ev h =>
      hprivilege ev (List.mem_append_right _ (List.mem_append_left _ h))
    have hotherwise := otherwise.render_reading fun ev h =>
      hprivilege ev (List.mem_append_right _ (List.mem_append_right _ h))
    rw [Expr.reading, Expr.render, hchosen, hcondition, hotherwise, Expr.render]
  | .paren inner =>
    rw [Expr.reading, Expr.render, inner.render_reading hprivilege, Expr.render]

theorem Expr.renderArguments_readings (es : List Expr)
    (hprivilege : ∀ ev, Atom.event ev ∈ Expr.atomsList es → ev.privilege = none) :
    Expr.renderArguments (Expr.readings es) = Expr.renderArguments es := by
  match es with
  | [] => rfl
  | [e] => exact e.render_reading fun ev h => hprivilege ev (List.mem_append_left _ h)
  | e :: e' :: es =>
    have he := e.render_reading fun ev h => hprivilege ev (List.mem_append_left _ h)
    have hes := Expr.renderArguments_readings (e' :: es) fun ev h =>
      hprivilege ev (List.mem_append_right _ h)
    change e.reading.render ++ ", " ++ Expr.renderArguments (Expr.readings (e' :: es)) =
      e.render ++ ", " ++ Expr.renderArguments (e' :: es)
    rw [he, hes]

end

/-- A negative coefficient is read as a negation, and every other leaf as a leaf. -/
theorem Expr.looseness_reading_le (e : Expr) : e.reading.looseness ≤ max e.looseness 1 := by
  cases e with
  | num text =>
    rw [Expr.reading]
    split
    · exact le_max_right _ _
    · exact le_max_left _ _
  | symbol _ | event _ | metric _ | context _ => exact Nat.zero_le _
  | neg _ | binary _ _ _ | call _ _ | cond _ _ _ | paren _ => exact le_max_left _ _

mutual

/-- A negation can stand wherever a leaf can, so the reading is levelled as well. -/
theorem Expr.Levelled.reading {e : Expr} (h : e.Levelled) : e.reading.Levelled := by
  match e with
  | .num text =>
    rw [Expr.reading]
    split
    · exact ⟨trivial, Nat.zero_le _⟩
    · trivial
  | .symbol _ | .event _ | .metric _ | .context _ => trivial
  | .neg operand =>
    have hle := operand.looseness_reading_le
    have hoperand := h.2
    exact ⟨h.1.reading, by omega⟩
  | .binary op lhs rhs =>
    obtain ⟨⟨hlhs, hlhsLe⟩, hrhs, hrhsLe⟩ := h
    have hle := lhs.looseness_reading_le
    have hle' := rhs.looseness_reading_le
    have hfront : 1 ≤ op.level.frontLooseness := by cases op <;> decide
    have hoperand : 1 ≤ op.level.operand.looseness := by cases op <;> decide
    exact ⟨⟨hlhs.reading, by omega⟩, hrhs.reading, by omega⟩
  | .call _ arguments =>
    have harguments : Expr.LevelledList arguments := h
    exact harguments.readings
  | .cond chosen condition otherwise =>
    obtain ⟨⟨hchosen, hchosenLt⟩, ⟨hcondition, hconditionLt⟩, hotherwise⟩ := h
    have hle := chosen.looseness_reading_le
    have hle' := condition.looseness_reading_le
    exact ⟨⟨hchosen.reading, by omega⟩, ⟨hcondition.reading, by omega⟩, hotherwise.reading⟩
  | .paren inner =>
    have hinner : inner.Levelled := h
    exact hinner.reading

theorem Expr.LevelledList.readings {es : List Expr} (h : Expr.LevelledList es) :
    Expr.LevelledList (Expr.readings es) := by
  match es with
  | [] => trivial
  | e :: es => exact ⟨h.1.reading, h.2.readings⟩

end

/-! ## Readable atoms -/

/-- The text of the atom is read as a token, or as a minus and a number. -/
def Atom.IsReadable : Atom → Prop
  | .num text => (Token.num text).Spelled ∨ IsSignedDecimal text
  | .symbol s => s.Spelled
  | .event e => e.reading.Spelled
  | .metric name => IsName name.toList
  | .context name => IsWord name.toList
  | .callee function => IsName function.toList

theorem Atom.isReadable_of_spelled {a : Atom} (h : a.Spelled) : a.IsReadable := by
  cases a with
  | num text => exact .inl h
  | symbol _ | callee _ => exact h
  | event _ | metric _ | context _ => exact h.elim

theorem IsPlainDecimal.spelled {cs : List Char} (h : IsPlainDecimal cs) :
    (Token.num (String.ofList cs)).Spelled := by
  obtain ⟨hnumeral, hchars⟩ := h
  have hne : cs ≠ [] := by
    rintro rfl
    cases hnumeral
  have hword : WordChars cs := by
    clear hnumeral hne
    induction cs with
    | nil => exact .nil
    | cons c cs ih =>
      obtain ⟨hc, hcs⟩ := Bool.and_eq_true_iff.1 hchars
      refine .char ?_ (ih hcs)
      rcases Bool.or_eq_true_iff.1 hc with hdigit | hpoint
      · simp [isWordChar, Char.isAlphanum, hdigit]
      · exact beq_iff_eq.1 hpoint ▸ by decide
  refine ⟨⟨by simpa using hne, by simpa using takeWord_eq_self_iff.2 hword⟩, ?_⟩
  simp [isNumeral, hnumeral]

/-- A readable number is read as a number, behind a minus if there is one. -/
theorem Expr.spelled_reading_num {text : String} (h : (Atom.num text).IsReadable) :
    ∀ a ∈ (Expr.num text).reading.atoms, a.Spelled := by
  rw [Expr.reading]
  split
  · rename_i cs htext
    refine List.forall_mem_singleton.2 ?_
    rcases h with hspelled | hsigned
    · -- no word starts with a minus
      obtain ⟨-, hword⟩ := hspelled.1
      rw [htext, takeWord_of_not (by decide) (by decide)] at hword
      cases hword
    · rw [IsSignedDecimal, htext] at hsigned
      exact IsPlainDecimal.spelled hsigned
  · rename_i hminus
    refine List.forall_mem_singleton.2 ?_
    rcases h with hspelled | hsigned
    · exact hspelled
    · have hwithout : withoutMinus text.toList = text.toList := by
        unfold withoutMinus
        split
        · rename_i cs htext
          exact absurd htext (hminus cs)
        · rfl
      rw [IsSignedDecimal, hwithout] at hsigned
      have hspelled := hsigned.spelled
      rwa [String.ofList_toList] at hspelled

mutual

theorem Expr.spelled_reading {e : Expr} (h : ∀ a ∈ e.atoms, a.IsReadable) :
    ∀ a ∈ e.reading.atoms, a.Spelled := by
  match e with
  | .num _ => exact Expr.spelled_reading_num (h _ List.mem_cons_self)
  | .symbol _ => exact List.forall_mem_singleton.2 (h _ List.mem_cons_self)
  | .event _ => exact List.forall_mem_singleton.2 (h _ List.mem_cons_self)
  | .metric _ =>
    exact List.forall_mem_singleton.2 (Symbol.spelled_bare (h _ List.mem_cons_self))
  | .context name =>
    have hword : IsWord name.toList := h _ List.mem_cons_self
    exact List.forall_mem_singleton.2 ⟨hword, by simp, by simp, by simp⟩
  | .neg operand => exact Expr.spelled_reading (e := operand) h
  | .binary _ lhs rhs =>
    obtain ⟨hlhs, hrhs⟩ := List.forall_mem_append.1 h
    exact List.forall_mem_append.2 ⟨Expr.spelled_reading hlhs, Expr.spelled_reading hrhs⟩
  | .call _ arguments =>
    obtain ⟨hfunction, harguments⟩ := List.forall_mem_cons.1 h
    exact List.forall_mem_cons.2 ⟨hfunction, Expr.spelled_readings harguments⟩
  | .cond chosen condition otherwise =>
    obtain ⟨hchosen, hrest⟩ := List.forall_mem_append.1 h
    obtain ⟨hcondition, hotherwise⟩ := List.forall_mem_append.1 hrest
    exact List.forall_mem_append.2 ⟨Expr.spelled_reading hchosen,
      List.forall_mem_append.2 ⟨Expr.spelled_reading hcondition, Expr.spelled_reading hotherwise⟩⟩
  | .paren inner => exact Expr.spelled_reading (e := inner) h

theorem Expr.spelled_readings {es : List Expr} (h : ∀ a ∈ Expr.atomsList es, a.IsReadable) :
    ∀ a ∈ Expr.atomsList (Expr.readings es), a.Spelled := by
  match es with
  | [] => exact List.forall_mem_nil _
  | e :: es =>
    obtain ⟨he, hes⟩ := List.forall_mem_append.1 h
    exact List.forall_mem_append.2 ⟨Expr.spelled_reading he, Expr.spelled_readings hes⟩

end

/-! ## Levels are kept -/

/-- A tree that is put in the place of another one has to be levelled and to bind at
least as tightly. -/
theorem congruence_levelled :
    Congruence fun e f => e.Levelled → f.Levelled ∧ f.looseness ≤ e.looseness where
  refl _ h := ⟨h, le_rfl⟩
  trans h h' he := by
    obtain ⟨he', hle⟩ := h he
    obtain ⟨he'', hle'⟩ := h' he'
    exact ⟨he'', hle'.trans hle⟩
  neg h he := by
    obtain ⟨he', hle⟩ := h he.1
    exact ⟨⟨he', hle.trans he.2⟩, le_rfl⟩
  binary _ := by
    intro _ _ _ _ h h' he
    obtain ⟨⟨hlhs, hlhsLe⟩, hrhs, hrhsLe⟩ := he
    obtain ⟨hlhs', hle⟩ := h hlhs
    obtain ⟨hrhs', hle'⟩ := h' hrhs
    exact ⟨⟨⟨hlhs', hle.trans hlhsLe⟩, hrhs', hle'.trans hrhsLe⟩, le_rfl⟩
  call _ := by
    intro es es' h he
    refine ⟨?_, le_rfl⟩
    have hes : Expr.LevelledList es := he
    change Expr.LevelledList es'
    clear he
    induction h with
    | nil => trivial
    | cons h _ ih => exact ⟨(h hes.1).1, ih hes.2⟩
  cond h h' h'' he := by
    obtain ⟨⟨hchosen, hchosenLt⟩, ⟨hcondition, hconditionLt⟩, hotherwise⟩ := he
    obtain ⟨hchosen', hle⟩ := h hchosen
    obtain ⟨hcondition', hle'⟩ := h' hcondition
    exact ⟨⟨⟨hchosen', hle.trans_lt hchosenLt⟩, ⟨hcondition', hle'.trans_lt hconditionLt⟩,
      (h'' hotherwise).1⟩, le_rfl⟩
  paren h he := ⟨(h he).1, le_rfl⟩

theorem Expr.levelled_scale (text : String) (r : Expr.Reference) :
    (Expr.binary .mul (.num text) r.toExpr).Levelled := by
  cases r <;> exact ⟨⟨trivial, Nat.zero_le _⟩, trivial, Nat.zero_le _⟩

/-- A fold never puts a looser operator in the place of a tighter one. -/
theorem levelled_of_folds {e f : Expr} {ds : List Expr.Difference} (h : e.Folds ds f)
    (he : e.Levelled) : f.Levelled ∧ f.looseness ≤ e.looseness := by
  cases h with
  | chosen _ => exact ⟨he.1.1, he.1.2.le⟩
  | otherwise _ => exact ⟨he.2.2, Expr.looseness_le_six _⟩
  | linear _ _ => exact ⟨Expr.levelled_scale _ _, (show 2 ≤ 3 by decide)⟩
  | linearTail _ _ =>
    obtain ⟨⟨hsum, -⟩, -⟩ := he
    exact ⟨⟨hsum.1, Expr.levelled_scale _ _, (show 2 ≤ 2 from le_rfl)⟩, le_rfl⟩
  | zeroRight _ => exact ⟨he.1.1, he.1.2⟩
  | zeroLeft _ => exact ⟨he.2.1, he.2.2.trans (show 2 ≤ 3 by decide)⟩

theorem Expr.levelled_bracket {e : Expr} (h : e.Levelled) :
    e.bracket.Levelled ∧ e.bracket.looseness = 0 := by
  unfold Expr.bracket
  split_ifs with hatomic
  · refine ⟨h, ?_⟩
    cases e <;> first | rfl | cases hatomic
  · exact ⟨h, rfl⟩

theorem Expr.levelled_foldl_add (es : List Expr) {first : Expr} (hfirst : first.Levelled)
    (hle : first.looseness ≤ 3) (hes : ∀ e ∈ es, e.Levelled ∧ e.looseness = 0) :
    (es.foldl (.binary .add) first).Levelled := by
  induction es generalizing first with
  | nil => exact hfirst
  | cons e es ih =>
    obtain ⟨⟨he, hzero⟩, hes⟩ := List.forall_mem_cons.1 hes
    exact ih ⟨⟨hfirst, hle⟩, he, hzero ▸ Nat.zero_le _⟩ (show 3 ≤ 3 from le_rfl) hes

theorem Scope.levelled_sumOfChildren (first : String) (rest : List String) :
    (Scope.sumOfChildren first rest).Levelled := by
  refine Expr.levelled_foldl_add _ trivial (Nat.zero_le _) ?_
  intro e he
  obtain ⟨child, -, rfl⟩ := List.mem_map.1 he
  exact ⟨trivial, rfl⟩

theorem Scope.levelled_and_spelled_of_parseFragment {s : Scope} {text : String} {e : Expr}
    (h : s.parseFragment text = .ok e) : e.Levelled ∧ ∀ a ∈ e.atoms, a.Spelled :=
  levelled_and_spelled_of_parse (mapError_eq_ok_iff.1 h)

theorem Scope.parseFragment_of_render {s : Scope} {text : String} {e : Expr}
    (hfixups : Fixup.applyAll s.fixups text = text) (hrender : e.render = text)
    (hlevelled : e.Levelled) (hspelled : ∀ a ∈ e.atoms, a.Spelled) :
    s.parseFragment text = .ok e := by
  unfold parseFragment
  rw [hfixups]
  subst hrender
  exact mapError_eq_ok_iff.2 (hlevelled.parse_render hspelled)

/-- What a symbol is replaced by is levelled and needs no parentheses anywhere. -/
theorem levelled_of_steps {s : Scope} {symbol : Symbol} {f : Expr} (h : s.Steps symbol f) :
    f.Levelled ∧ f.looseness = 0 := by
  cases h with
  | replaced _ _ hparse => exact Expr.levelled_bracket (levelled_and_spelled_of_parse hparse).1
  | node _ _ _ _ hparse =>
    exact Expr.levelled_bracket (Scope.levelled_and_spelled_of_parseFragment hparse).1
  | aux _ _ _ _ _ hparse =>
    exact Expr.levelled_bracket (Scope.levelled_and_spelled_of_parseFragment hparse).1
  | ignored _ _ hparse =>
    exact Expr.levelled_bracket (Scope.levelled_and_spelled_of_parseFragment hparse).1
  | sum _ => exact ⟨Scope.levelled_sumOfChildren _ _, rfl⟩
  | aggregate _ => exact ⟨⟨trivial, Scope.levelled_sumOfChildren _ _, trivial⟩, rfl⟩
  | kept _ | memory _ _ | unavailable _ _ _ | metric _ _ _ | event _ | qualified _ _ =>
    exact ⟨trivial, rfl⟩

/-! ## Atoms stay readable -/

theorem congruence_atoms (P : Atom → Prop) :
    Congruence fun e f => (∀ a ∈ e.atoms, P a) → ∀ a ∈ f.atoms, P a where
  refl _ h := h
  trans h h' he := h' (h he)
  neg h he := h he
  binary _ := by
    intro _ _ _ _ h h' he
    obtain ⟨hlhs, hrhs⟩ := List.forall_mem_append.1 he
    exact List.forall_mem_append.2 ⟨h hlhs, h' hrhs⟩
  call _ := by
    intro es es' h he
    obtain ⟨hfunction, hes⟩ := List.forall_mem_cons.1 he
    refine List.forall_mem_cons.2 ⟨hfunction, ?_⟩
    clear he
    induction h with
    | nil => exact hes
    | cons h _ ih =>
      obtain ⟨hhead, htail⟩ := List.forall_mem_append.1 hes
      exact List.forall_mem_append.2 ⟨h hhead, ih htail⟩
  cond h h' h'' he := by
    obtain ⟨hchosen, hrest⟩ := List.forall_mem_append.1 he
    obtain ⟨hcondition, hotherwise⟩ := List.forall_mem_append.1 hrest
    exact List.forall_mem_append.2 ⟨h hchosen,
      List.forall_mem_append.2 ⟨h' hcondition, h'' hotherwise⟩⟩
  paren h he := h he

/-- A linear fold adds its coefficient to the atoms; no other fold adds any. -/
theorem forall_atoms_of_folds {P : Atom → Prop} {e f : Expr} {ds : List Expr.Difference}
    (h : e.Folds ds f) (hds : ∀ d ∈ ds, P (.num d.coefficient)) (he : ∀ a ∈ e.atoms, P a) :
    ∀ a ∈ f.atoms, P a := by
  cases h with
  | chosen _ => exact (List.forall_mem_append.1 he).1
  | otherwise _ => exact (List.forall_mem_append.1 (List.forall_mem_append.1 he).2).2
  | linear _ _ =>
    have hcoefficient := hds _ List.mem_cons_self
    have hreference := (List.forall_mem_append.1 (List.forall_mem_append.1 he).1).2
    exact List.forall_mem_append.2 ⟨List.forall_mem_singleton.2 hcoefficient, hreference⟩
  | linearTail _ _ =>
    have hcoefficient := hds _ List.mem_cons_self
    obtain ⟨hfront, hlast⟩ := List.forall_mem_append.1 (List.forall_mem_append.1 he).1
    have hreference := (List.forall_mem_append.1 hlast).2
    exact List.forall_mem_append.2 ⟨hfront, List.forall_mem_append.2
      ⟨List.forall_mem_singleton.2 hcoefficient, hreference⟩⟩
  | zeroRight _ => exact (List.forall_mem_append.1 he).1
  | zeroLeft _ => exact (List.forall_mem_append.1 he).2

theorem readable_of_folds {e f : Expr} {ds : List Expr.Difference} (h : e.Folds ds f)
    (hds : ∀ d ∈ ds, IsSignedDecimal d.coefficient) (he : ∀ a ∈ e.atoms, a.IsReadable) :
    ∀ a ∈ f.atoms, a.IsReadable :=
  forall_atoms_of_folds h (fun d hd => .inr (hds d hd)) he

theorem Expr.atoms_bracket (e : Expr) : e.bracket.atoms = e.atoms := by
  unfold Expr.bracket
  split_ifs <;> rfl

theorem Expr.atoms_foldl_add (es : List Expr) (first : Expr) :
    (es.foldl (.binary .add) first).atoms = first.atoms ++ Expr.atomsList es := by
  induction es generalizing first with
  | nil => simp [Expr.atomsList]
  | cons e es ih => simp [ih, Expr.atoms, Expr.atomsList]

theorem Scope.atoms_sumOfChildren (first : String) (rest : List String) :
    (Scope.sumOfChildren first rest).atoms =
      (first :: rest).map fun child => .symbol (.bare child) := by
  have hrest (names : List String) :
      Expr.atomsList (names.map fun child => .symbol (.bare child)) =
        names.map fun child => .symbol (.bare child) := by
    induction names with
    | nil => rfl
    | cons name names ih => rw [List.map_cons, Expr.atomsList, ih]; rfl
  rw [Scope.sumOfChildren, Expr.atoms_foldl_add, hrest]
  rfl

/-! ## Qualified events -/

/-- The escaped terms of modifiers cannot end the term group that they are put in. -/
theorem not_mem_of_qualification? {modifier text : String}
    (h : qualification? modifier = some (.term text)) : '@' ∉ text.toList := by
  unfold qualification? at h
  split_ifs at h
  · cases h
  · cases h
  · cases h
    decide
  · cases h
    decide
  · split at h
    · split_ifs at h with hds
      cases h
      have hdigits := List.all_eq_true.1 hds.2
      simp only [String.toList_append, String.toList_ofList, List.mem_append, not_or]
      exact ⟨by decide, fun hmem => absurd (hdigits _ hmem) (by decide)⟩
    · split_ifs at h with hds
      cases h
      have hdigits := List.all_eq_true.1 hds.2
      simp only [String.toList_append, String.toList_ofList, List.mem_append, not_or]
      exact ⟨by decide, fun hmem => absurd (hdigits _ hmem) (by decide)⟩
    · cases h

theorem EventRef.foldl_qualify (qs : List Qualification) (e : EventRef) :
    (qs.foldl EventRef.qualify e).name = e.name ∧ (qs.foldl EventRef.qualify e).pmu = e.pmu ∧
      (qs.foldl EventRef.qualify e).terms = e.terms ∧
      ∀ q ∈ (qs.foldl EventRef.qualify e).qualifiers, q ∈ e.qualifiers ∨ .term q ∈ qs := by
  induction qs generalizing e with
  | nil => exact ⟨rfl, rfl, rfl, fun q hq => .inl hq⟩
  | cons q qs ih =>
    obtain ⟨hname, hpmu, hterms, hqualifiers⟩ := ih (e.qualify q)
    refine ⟨hname.trans ?_, hpmu.trans ?_, hterms.trans ?_, fun text htext => ?_⟩
    · cases q <;> rfl
    · cases q <;> rfl
    · cases q <;> rfl
    · rcases hqualifiers text htext with hmem | hmem
      · cases q with
        | privilege _ => exact .inl hmem
        | term _ =>
          rcases List.mem_append.1 hmem with hmem | hmem
          · exact .inl hmem
          · exact .inr (List.mem_singleton.1 hmem ▸ List.mem_cons_self)
      · exact .inr (List.mem_cons_of_mem _ hmem)

theorem WordChars.at_notMem {cs : List Char} (h : WordChars cs) : '@' ∉ cs := by
  induction h with
  | nil => exact List.not_mem_nil
  | char hc _ ih =>
    refine List.not_mem_cons_of_ne_of_not_mem ?_ ih
    rintro rfl
    cases hc
  | hyphen _ ih => simpa using ih

theorem not_mem_toList_join {c : Char} {texts : List String}
    (h : ∀ text ∈ texts, c ∉ text.toList) : c ∉ (String.join texts).toList := by
  simpa [String.toList_join] using h

/-- An event is readable if its name and its unit are names and no qualifier ends the
term group. -/
theorem EventRef.spelled_reading {e : EventRef} (hname : IsName e.name.toList)
    (hpmu : e.qualifiers ≠ [] → IsName e.pmu.toList)
    (hterms : ∀ terms ∈ e.terms, '@' ∉ terms.toList)
    (hqualifiers : ∀ q ∈ e.qualifiers, '@' ∉ q.toList) : e.reading.Spelled := by
  have hjoin := not_mem_toList_join hqualifiers
  unfold EventRef.reading
  split
  · rename_i terms hsome
    refine ⟨hname.1, fun _ => hname, by simp, ?_⟩
    have hnotMem := hterms terms hsome
    simp only [Option.mem_some_iff, forall_eq', String.toList_append, List.mem_append, not_or]
    exact ⟨hnotMem, hjoin⟩
  · split_ifs with hempty
    · exact Symbol.spelled_bare hname
    · have hpmu := hpmu fun hnil => hempty (hnil ▸ rfl)
      refine ⟨hpmu.1, fun _ => hpmu, by simp, ?_⟩
      have hnotMem := hname.1.wordChars.at_notMem
      simp only [Option.mem_some_iff, forall_eq', String.toList_append, List.mem_append, not_or]
      exact ⟨hnotMem, hjoin⟩

theorem exists_modifier_of_mem {modifiers : List String} {qs : List Qualification}
    (hqs : modifiers.mapM qualification? = some qs) {q : Qualification} (hq : q ∈ qs) :
    ∃ modifier ∈ modifiers, qualification? modifier = some q := by
  induction modifiers generalizing qs with
  | nil =>
    cases hqs
    cases hq
  | cons modifier modifiers ih =>
    rw [List.mapM_cons] at hqs
    obtain ⟨q', hq', hrest⟩ := Option.bind_eq_some_iff.1 hqs
    obtain ⟨qs', hqs', hcons⟩ := Option.bind_eq_some_iff.1 hrest
    cases hcons
    rcases List.mem_cons.1 hq with rfl | hmem
    · exact ⟨modifier, List.mem_cons_self, hq'⟩
    · obtain ⟨modifier', hmodifier', hq⟩ := ih hqs' hmem
      exact ⟨modifier', List.mem_cons_of_mem _ hmodifier', hq⟩

theorem spelled_reading_of_qualifications {modifiers : List String} {qs : List Qualification}
    (hqs : modifiers.mapM qualification? = some qs) {e : EventRef} (hname : IsName e.name.toList)
    (hpmu : IsName e.pmu.toList) (hterms : ∀ terms ∈ e.terms, '@' ∉ terms.toList)
    (hqualifiers : ∀ q ∈ e.qualifiers, '@' ∉ q.toList) :
    (qs.foldl EventRef.qualify e).reading.Spelled := by
  obtain ⟨hname', hpmu', hterms', hqualifiers'⟩ := EventRef.foldl_qualify qs e
  refine EventRef.spelled_reading (hname' ▸ hname) (fun _ => hpmu' ▸ hpmu) (hterms' ▸ hterms) ?_
  intro q hq
  rcases hqualifiers' q hq with hmem | hmem
  · exact hqualifiers q hmem
  · obtain ⟨modifier, -, hmodifier⟩ := exists_modifier_of_mem hqs hmem
    exact not_mem_of_qualification? hmodifier

/-! ## The round trip -/

/-- The atoms that a step brings in are readable: they come from parsed text, from names
in the table, or from the symbol itself. -/
theorem readable_of_steps {s : Scope} (htable : s.table.Filled) (hpmu : IsName s.pmu.toList)
    {symbol : Symbol} {f : Expr} (h : s.Steps symbol f) (hsymbol : symbol.Spelled) :
    ∀ a ∈ f.atoms, a.IsReadable := by
  have hbracket {e : Expr} (he : ∀ a ∈ e.atoms, a.Spelled) :
      ∀ a ∈ e.bracket.atoms, a.IsReadable := by
    rw [Expr.atoms_bracket]
    exact fun a ha => Atom.isReadable_of_spelled (he a ha)
  have hsum {parent first : String} {rest : List String}
      (hchildren : s.table.childrenOf parent = first :: rest) :
      ∀ a ∈ (Scope.sumOfChildren first rest).atoms, a.IsReadable := by
    rw [Scope.atoms_sumOfChildren, ← hchildren]
    refine List.forall_mem_map.2 fun child hchild => ?_
    exact Symbol.spelled_bare (htable.isName_of_mem_childrenOf hchild).2
  cases h with
  | kept _ => exact List.forall_mem_singleton.2 hsymbol.word
  | replaced _ _ hparse => exact hbracket (levelled_and_spelled_of_parse hparse).2
  | node _ _ _ _ hparse =>
    exact hbracket (Scope.levelled_and_spelled_of_parseFragment hparse).2
  | aux _ _ _ _ _ hparse =>
    exact hbracket (Scope.levelled_and_spelled_of_parseFragment hparse).2
  | ignored _ _ hparse => exact hbracket (Scope.levelled_and_spelled_of_parseFragment hparse).2
  | memory _ _ =>
    refine List.forall_mem_singleton.2 (.inr ?_)
    split_ifs <;> decide
  | unavailable _ _ _ => exact List.forall_mem_singleton.2 (.inr (by decide))
  | sum hchildren => exact hsum hchildren
  | @aggregate parent first _ _ _ hchildren =>
    have hfirst : first ∈ s.table.childrenOf parent := hchildren ▸ List.mem_cons_self
    have hparent := (htable.isName_of_mem_childrenOf hfirst).1
    refine List.forall_mem_cons.2 ⟨(by decide : IsName _), List.forall_mem_append.2 ⟨?_, ?_⟩⟩
    · exact List.forall_mem_singleton.2 (Symbol.spelled_bare hparent)
    · exact List.forall_mem_append.2 ⟨hsum hchildren, List.forall_mem_nil _⟩
  | metric _ _ _ =>
    exact List.forall_mem_singleton.2 (htable.isName_canonicalName (hsymbol.name rfl))
  | event _ =>
    exact List.forall_mem_singleton.2 (Symbol.spelled_bare (hsymbol.name rfl))
  | qualified _ hqs =>
    exact List.forall_mem_singleton.2 (spelled_reading_of_qualifications hqs (hsymbol.name rfl)
      hpmu hsymbol.terms (List.forall_mem_nil _))

theorem levelled_and_readable_of_resolve {s : Scope} {formula : String} {e : Expr}
    (htable : s.table.Filled) (hpmu : IsName s.pmu.toList) (h : s.resolve formula = .ok e)
    (hcoefficients : ∀ d ∈ s.differences formula, IsSignedDecimal d.coefficient) :
    e.Levelled ∧ ∀ a ∈ e.atoms, a.IsReadable := by
  have hstepLevelled {symbol : Symbol} {f : Expr} (hsteps : s.Steps symbol f) :
      (Expr.symbol symbol).Levelled → f.Levelled ∧ f.looseness ≤ 0 := by
    obtain ⟨hf, hzero⟩ := levelled_of_steps hsteps
    exact fun _ => ⟨hf, hzero.le⟩
  have hstepReadable {symbol : Symbol} {f : Expr} (hsteps : s.Steps symbol f)
      (hatoms : ∀ a ∈ (Expr.symbol symbol).atoms, a.IsReadable) : ∀ a ∈ f.atoms, a.IsReadable :=
    readable_of_steps htable hpmu hsteps (hatoms _ List.mem_cons_self)
  obtain ⟨source, hparse, hlevelled, -⟩ :=
    congruence_levelled.resolve (fun hfolds _ => levelled_of_folds hfolds) hstepLevelled h
      hcoefficients
  obtain ⟨source', hparse', hreadable, -⟩ :=
    (congruence_atoms Atom.IsReadable).resolve readable_of_folds hstepReadable h hcoefficients
  obtain rfl : source = source' := Except.ok.inj (hparse.symm.trans hparse')
  obtain ⟨hsource, hspelled⟩ := Scope.levelled_and_spelled_of_parseFragment hparse
  exact ⟨(hlevelled hsource).1,
    hreadable fun a ha => Atom.isReadable_of_spelled (hspelled a ha)⟩

/-- The rendering of a resolved formula parses to the resolved tree, where each leaf is
what its own text is read as. -/
theorem parse_render_of_resolve {s : Scope} {formula : String} {e : Expr}
    (htable : s.table.Filled) (hpmu : IsName s.pmu.toList) (h : s.resolve formula = .ok e)
    (hprivilege : ∀ ev, Atom.event ev ∈ e.atoms → ev.privilege = none)
    (hcoefficients : ∀ d ∈ s.differences formula, IsSignedDecimal d.coefficient) :
    parse e.render = .ok e.reading := by
  obtain ⟨hlevelled, hreadable⟩ :=
    levelled_and_readable_of_resolve htable hpmu h hcoefficients
  rw [← e.render_reading hprivilege]
  exact hlevelled.reading.parse_render (Expr.spelled_reading hreadable)

/-- A node with one child, a fragment whose coefficient turns out negative, and a constant
that is kept. -/
def hybridScope : Scope where
  table := ((({} : SymbolTable).addNode "Core" "Ports / Slots").addChild "Core" "Ports").addAux
    "#Stalls" "(1 * Clocks) - (3 * Clocks)"
  rules := { (default : Rules) with context := ⟨["SMT_on"], []⟩ }
  arch := .undeclared
  fixups := []
  pmu := "cpu_core"

theorem filled_hybridScope : hybridScope.table.Filled := by
  dsimp only [hybridScope]
  refine .aux (.child (.node .empty ?_ _) ?_ ?_) _ _
  · decide
  · decide
  · decide

/-- A formula that is resolved to every kind of leaf. -/
def hybridFormula : String :=
  "#Stalls / Uops:c1:u0x0f + ##?Core * #SMT_on - L3:e1@event\\=0x3c@"

def hybridSource : Expr :=
  .binary .sub
    (.binary .add
      (.binary .div (.symbol ⟨.hash, "Stalls", [], none⟩)
        (.symbol ⟨.bare, "Uops", ["c1", "u0x0f"], none⟩))
      (.binary .mul (.symbol ⟨.aggregate, "Core", [], none⟩)
        (.symbol ⟨.hash, "SMT_on", [], none⟩)))
    (.symbol ⟨.bare, "L3", ["e1"], some "event\\=0x3c"⟩)

/-- The tree of the fragment `#Stalls`, over a tree for `Clocks`. -/
def hybridStalls (clocks : Expr) : Expr :=
  .binary .sub (.paren (.binary .mul (.num "1") clocks)) (.paren (.binary .mul (.num "3") clocks))

/-- What the passes make of the formula, over trees for what is not settled by the first
one. -/
def hybridTree (stalls core ports : Expr) : Expr :=
  .binary .sub
    (.binary .add
      (.binary .div (.paren stalls)
        (.event ⟨"Uops", "cpu_core", ["\\,cmask\\=1", "\\,umask\\=0x0f"], none, none⟩))
      (.binary .mul (.call "max" [core, ports]) (.context "SMT_on")))
    (.event ⟨"L3", "cpu_core", ["\\,edge"], none, some "event\\=0x3c"⟩)

/-- Its text starts with `(-2 * Clocks) / cpu_core@Uops\,cmask\=1\,umask\=0x0f@`. -/
def hybridResult : Expr :=
  hybridTree (.binary .mul (.num "-2") (.event (.plain "Clocks"))) (.metric "tma_core")
    (.event (.plain "Ports"))

theorem step_hybridScope_stalls :
    hybridScope.step ⟨.hash, "Stalls", [], none⟩ =
      .ok (.paren (hybridStalls (.symbol (.bare "Clocks")))) := by
  have hparse : hybridScope.parseFragment "(1 * Clocks) - (3 * Clocks)" =
      .ok (hybridStalls (.symbol (.bare "Clocks"))) :=
    mapError_eq_ok_iff.2 (parse_eq_ok_of_tokens (by decide +kernel) (by decide) (by decide))
  exact congrArg (Except.map Expr.bracket) hparse

theorem resolve_hybridFormula :
    hybridScope.resolve hybridFormula = .ok hybridResult ∧
      hybridScope.differences hybridFormula = [⟨.finite false 1, .finite false 3⟩] := by
  have hparse : hybridScope.parseFragment hybridFormula = .ok hybridSource :=
    mapError_eq_ok_iff.2 (parse_eq_ok_of_tokens (by decide +kernel) (by decide) (by decide))
  have haggregate : hybridScope.step ⟨.aggregate, "Core", [], none⟩ =
      .ok (.call "max" [.symbol (.bare "Core"), .symbol (.bare "Ports")]) := rfl
  have hkept : hybridScope.step ⟨.hash, "SMT_on", [], none⟩ = .ok (.context "SMT_on") := rfl
  have hqualified : hybridScope.step ⟨.bare, "Uops", ["c1", "u0x0f"], none⟩ = .ok
      (.event ⟨"Uops", "cpu_core", ["\\,cmask\\=1", "\\,umask\\=0x0f"], none, none⟩) := rfl
  have hgroup : hybridScope.step ⟨.bare, "L3", ["e1"], some "event\\=0x3c"⟩ = .ok
      (.event ⟨"L3", "cpu_core", ["\\,edge"], none, some "event\\=0x3c"⟩) := rfl
  have hfirst : hybridScope.substitute hybridSource = .ok
      (hybridTree (hybridStalls (.symbol (.bare "Clocks"))) (.symbol (.bare "Core"))
        (.symbol (.bare "Ports"))) := by
    simp only [hybridSource, Scope.substitute, step_hybridScope_stalls, haggregate, hkept,
      hqualified, hgroup]
    rfl
  have hsecond : hybridScope.substitute
      (hybridTree (hybridStalls (.symbol (.bare "Clocks"))) (.symbol (.bare "Core"))
        (.symbol (.bare "Ports"))) = .ok
      (hybridTree (hybridStalls (.event (.plain "Clocks"))) (.metric "tma_core")
        (.event (.plain "Ports"))) := rfl
  have hsource : hybridSource.simplified = hybridSource := by decide +kernel
  have hafterFirst := Scope.settle_of_pass (by decide) hfirst
    (show _ = hybridTree (hybridStalls (.symbol (.bare "Clocks"))) (.symbol (.bare "Core"))
      (.symbol (.bare "Ports")) by decide +kernel) 63
  have hafterSecond := Scope.settle_of_pass (by decide) hsecond
    (show _ = hybridResult by decide +kernel) 62
  have hdone := hybridScope.settle_of_done (show hybridResult.hasSymbols = false by decide) 62
  obtain ⟨hresolve, hdifferences⟩ := Scope.resolve_of_parse hparse hsource
  constructor
  · exact hresolve.trans (hafterFirst.1.trans (hafterSecond.1.trans hdone.1))
  · rw [hdifferences, show passLimit = 63 + 1 from rfl, hafterFirst.2, hafterSecond.2, hdone.2]
    decide +kernel

theorem parse_render_hybridFormula :
    parse hybridResult.render = .ok hybridResult.reading := by
  refine parse_render_of_resolve filled_hybridScope (by decide) resolve_hybridFormula.1 ?_ ?_
  · intro ev hev
    simp only [hybridResult, hybridTree, Expr.atoms, Expr.atomsList, List.append_nil,
      List.cons_append, List.nil_append, List.mem_cons, Atom.event.injEq, List.not_mem_nil,
      reduceCtorEq, false_or, or_false] at hev
    rcases hev with rfl | rfl | rfl | rfl <;> rfl
  · rw [resolve_hybridFormula.2]
    exact List.forall_mem_singleton.2 (by decide +kernel)

end TopdownMetrics.Formula

import TopdownMetrics.Formula.References
import TopdownMetrics.Proofs.ResolvedRendering

/-!
# The words of a rendered tree

The reference check looks for names in the text of a formula and never sees the tree.  It sees
the same names: the text of every leaf ends where no word can run on, so the words of the text
are the words of the leaves and of the called functions, in order.  Besides them it finds the
two words of each conditional.

Everything rests on one equation: the words of a text are those of two parts of it, if no word
runs over from the first part into the second.
-/

namespace TopdownMetrics.Formula

/-! ## Words of a text -/

/-- No word in front of the text can run on into it, and it does not start with a word. -/
def EndsWord : List Char → Prop
  | [] => True
  | c :: cs => isWordChar c = false ∧ c ≠ '-' ∧ (c = '\\' → cs.head? ≠ some '-')

/-- Characters that break every word. -/
def isSeparator (c : Char) : Bool :=
  !isWordChar c && c != '-' && c != '\\'

theorem endsWord_of_isSeparator {c : Char} (hc : isSeparator c = true) (cs : List Char) :
    EndsWord (c :: cs) := by
  simp only [isSeparator, Bool.and_eq_true, Bool.not_eq_true', bne_iff_ne] at hc
  exact ⟨hc.1.1, hc.1.2, fun hbackslash => absurd hbackslash hc.2⟩

theorem EndsWord.takeWord_eq {rest : List Char} (h : EndsWord rest) :
    takeWord rest = ([], rest) := by
  cases rest with
  | nil => rfl
  | cons c cs =>
    cases cs with
    | nil => simp [takeWord, h.1]
    | cons d cs =>
      have hpair : ¬ (c = '\\' ∧ d = '-') := fun hpair =>
        h.2.2 hpair.1 (congrArg some hpair.2)
      rw [takeWord, if_neg (by simp [h.1]), if_neg hpair]

theorem takeWord_append_of_endsWord {rest : List Char} (h : EndsWord rest) (cs : List Char) :
    takeWord (cs ++ rest) = ((takeWord cs).1, (takeWord cs).2 ++ rest) := by
  fun_induction takeWord cs with
  | case1 => exact h.takeWord_eq
  | case2 c hc =>
    rw [List.singleton_append, takeWord_char hc, h.takeWord_eq]
    rfl
  | case3 c hc =>
    have hword : isWordChar c = false := by simpa using hc
    cases rest with
    | nil => simp [takeWord, hword]
    | cons d rest =>
      have hpair : ¬ (c = '\\' ∧ d = '-') := fun hpair => h.2.1 hpair.2
      rw [List.singleton_append, takeWord, if_neg hc, if_neg hpair]
  | case4 c d cs hc word behind heq ih =>
    rw [List.cons_append, takeWord_char hc, ih, heq]
  | case5 c d cs hc hpair word behind heq ih =>
    obtain ⟨rfl, rfl⟩ := hpair
    rw [List.cons_append, List.cons_append, takeWord_hyphen, ih, heq]
  | case6 c d cs hc hpair =>
    rw [List.cons_append, List.cons_append, takeWord, if_neg hc, if_neg hpair]

/-- The words of a text are those of two parts of it, if the second part starts with a break. -/
theorem wordsOf_append {rest : List Char} (h : EndsWord rest) (cs : List Char) :
    wordsOf (cs ++ rest) = wordsOf cs ++ wordsOf rest := by
  fun_induction wordsOf cs with
  | case1 => rfl
  | case2 c cs hnone ih =>
    have htake := takeWord_append_of_endsWord h (c :: cs)
    rw [List.cons_append] at htake ⊢
    rw [wordsOf, dif_pos (by rw [htake, hnone]), ih]
  | case3 c cs hword ih =>
    have htake := takeWord_append_of_endsWord h (c :: cs)
    rw [List.cons_append] at htake ⊢
    rw [wordsOf, dif_neg (by rw [htake]; exact hword), htake, ih, List.cons_append]

theorem wordsOf_nil : wordsOf [] = [] := by
  rw [wordsOf]

theorem wordsOf_cons_of_not {c : Char} (hc : isWordChar c = false) (hne : c ≠ '\\')
    (cs : List Char) : wordsOf (c :: cs) = wordsOf cs := by
  rw [wordsOf, dif_pos (by rw [takeWord_of_not hc hne])]

theorem wordsOf_cons_of_isSeparator {c : Char} (hc : isSeparator c = true) (cs : List Char) :
    wordsOf (c :: cs) = wordsOf cs := by
  simp only [isSeparator, Bool.and_eq_true, Bool.not_eq_true', bne_iff_ne] at hc
  exact wordsOf_cons_of_not hc.1.1 hc.2 cs

theorem wordsOf_minus (cs : List Char) : wordsOf ('-' :: cs) = wordsOf cs :=
  wordsOf_cons_of_not (by decide) (by decide) cs

theorem wordsOf_separated {c : Char} (hc : isSeparator c = true) (cs rest : List Char) :
    wordsOf (cs ++ c :: rest) = wordsOf cs ++ wordsOf rest := by
  rw [wordsOf_append (endsWord_of_isSeparator hc rest), wordsOf_cons_of_isSeparator hc]

theorem IsWord.wordsOf_eq {word : List Char} (h : IsWord word) : wordsOf word = [word] := by
  obtain ⟨c, cs, rfl, -⟩ := h.exists_startsWord
  rw [wordsOf, dif_neg (by rw [h.2]; exact List.cons_ne_nil c cs), h.2, wordsOf_nil]

theorem wordsOf_operator (op : BinaryOp) (cs : List Char) :
    wordsOf (op.text.toList ++ ' ' :: cs) = wordsOf cs := by
  cases op <;> simp [BinaryOp.text, wordsOf_cons_of_not, isWordChar]

/-! ## The words of a tree -/

/-- The name of a reference, then the words of its modifiers and of its term group. -/
def Symbol.words (s : Symbol) : List (List Char) :=
  s.name.toList :: (s.modifiers.flatMap (wordsOf ·.toList) ++
    (s.terms.map (wordsOf ·.toList)).getD [])

def EventRef.suffixWords (e : EventRef) : List (List Char) :=
  e.qualifiers.flatMap (wordsOf ·.toList) ++ (e.privilege.map (·.text.toList)).toList

/-- The name of an event, behind that of its unit if qualifiers force the unit to be named,
and the words of what qualifies the event. -/
def EventRef.words (e : EventRef) : List (List Char) :=
  match e.terms with
  | some terms => e.name.toList :: (wordsOf terms.toList ++ e.suffixWords)
  | none =>
    if e.qualifiers.isEmpty && e.privilege.isNone then [e.name.toList]
    else wordsOf e.pmu.toList ++ e.name.toList :: e.suffixWords

/-- The words of a leaf or of a called name.  A number is a word without its sign. -/
def Atom.words : Atom → List (List Char)
  | .num text => [withoutMinus text.toList]
  | .symbol s => s.words
  | .event e => e.words
  | .metric name | .context name | .callee name => [name.toList]

mutual

/-- The words of the atoms in order, with the two words of each conditional between those of
its parts. -/
def Expr.words : Expr → List (List Char)
  | .num text => (Atom.num text).words
  | .symbol s => s.words
  | .event e => e.words
  | .metric name => (Atom.metric name).words
  | .context name => (Atom.context name).words
  | .neg operand => operand.words
  | .binary _ lhs rhs => lhs.words ++ rhs.words
  | .call function arguments => (Atom.callee function).words ++ Expr.wordsList arguments
  | .cond chosen condition otherwise =>
    chosen.words ++ "if".toList :: (condition.words ++ "else".toList :: otherwise.words)
  | .paren inner => inner.words

def Expr.wordsList : List Expr → List (List Char)
  | [] => []
  | e :: es => e.words ++ Expr.wordsList es

end

mutual

def Expr.conditionals : Expr → Nat
  | .neg operand => operand.conditionals
  | .binary _ lhs rhs => lhs.conditionals + rhs.conditionals
  | .call _ arguments => Expr.conditionalsList arguments
  | .cond chosen condition otherwise =>
    chosen.conditionals + condition.conditionals + otherwise.conditionals + 1
  | .paren inner => inner.conditionals
  | _ => 0

def Expr.conditionalsList : List Expr → Nat
  | [] => 0
  | e :: es => e.conditionals + Expr.conditionalsList es

end

mutual

/-- Each conditional adds two words to those of the atoms. -/
theorem Expr.length_words (e : Expr) :
    e.words.length = (e.atoms.flatMap Atom.words).length + 2 * e.conditionals := by
  match e with
  | .num _ | .symbol _ | .event _ | .metric _ | .context _ =>
    simp [Expr.words, Expr.atoms, Atom.words, Expr.conditionals]
  | .neg operand => exact operand.length_words
  | .binary _ lhs rhs =>
    have hlhs := lhs.length_words
    have hrhs := rhs.length_words
    simp only [Expr.words, Expr.atoms, Expr.conditionals, List.flatMap_append, List.length_append]
    omega
  | .call function arguments =>
    have harguments := Expr.length_wordsList arguments
    simp only [Expr.words, Expr.atoms, Expr.conditionals, List.flatMap_cons, List.length_append]
    omega
  | .cond chosen condition otherwise =>
    have hchosen := chosen.length_words
    have hcondition := condition.length_words
    have hotherwise := otherwise.length_words
    simp only [Expr.words, Expr.atoms, Expr.conditionals, List.flatMap_append,
      List.length_append, List.length_cons]
    omega
  | .paren inner => exact inner.length_words

theorem Expr.length_wordsList (es : List Expr) :
    (Expr.wordsList es).length =
      ((Expr.atomsList es).flatMap Atom.words).length + 2 * Expr.conditionalsList es := by
  match es with
  | [] => rfl
  | e :: es =>
    have he := e.length_words
    have hes := Expr.length_wordsList es
    simp only [Expr.wordsList, Expr.atomsList, Expr.conditionalsList, List.flatMap_append,
      List.length_append]
    omega

end

mutual

/-- Without conditionals there are no words but those of the atoms. -/
theorem Expr.words_eq_of_conditionals_eq_zero (e : Expr) (h : e.conditionals = 0) :
    e.words = e.atoms.flatMap Atom.words := by
  match e with
  | .num _ | .symbol _ | .event _ | .metric _ | .context _ =>
    simp [Expr.words, Expr.atoms, Atom.words]
  | .neg operand => exact operand.words_eq_of_conditionals_eq_zero h
  | .binary _ lhs rhs =>
    obtain ⟨hlhs, hrhs⟩ := Nat.add_eq_zero_iff.1 h
    rw [Expr.words, Expr.atoms, List.flatMap_append, lhs.words_eq_of_conditionals_eq_zero hlhs,
      rhs.words_eq_of_conditionals_eq_zero hrhs]
  | .call function arguments =>
    rw [Expr.words, Expr.atoms, List.flatMap_cons,
      Expr.wordsList_eq_of_conditionals_eq_zero arguments h]
  | .cond _ _ _ => exact absurd h (Nat.succ_ne_zero _)
  | .paren inner => exact inner.words_eq_of_conditionals_eq_zero h

theorem Expr.wordsList_eq_of_conditionals_eq_zero (es : List Expr)
    (h : Expr.conditionalsList es = 0) :
    Expr.wordsList es = (Expr.atomsList es).flatMap Atom.words := by
  match es with
  | [] => rfl
  | e :: es =>
    obtain ⟨he, hes⟩ := Nat.add_eq_zero_iff.1 h
    rw [Expr.wordsList, Expr.atomsList, List.flatMap_append,
      e.words_eq_of_conditionals_eq_zero he, Expr.wordsList_eq_of_conditionals_eq_zero es hes]

end

theorem Expr.words_eq_words_atoms_iff {e : Expr} :
    e.words = e.atoms.flatMap Atom.words ↔ e.conditionals = 0 := by
  refine ⟨fun heq => ?_, e.words_eq_of_conditionals_eq_zero⟩
  have hlength := e.length_words
  rw [heq] at hlength
  omega

/-! ## Texts of atoms -/

/-- Escaped terms start behind a word: `\,`. -/
def IsEscapedTerm (cs : List Char) : Prop :=
  ['\\', ','] <+: cs

/-- The names of the atom are words. -/
def Atom.IsWorded : Atom → Prop
  | .num text => IsWord (withoutMinus text.toList)
  | .symbol s => IsWord s.name.toList
  | .event e => IsWord e.name.toList ∧ ∀ q ∈ e.qualifiers, IsEscapedTerm q.toList
  | .metric name | .context name | .callee name => IsWord name.toList

theorem IsEscapedTerm.endsWord_append {cs : List Char} (h : IsEscapedTerm cs)
    (rest : List Char) : EndsWord (cs ++ rest) := by
  obtain ⟨behind, rfl⟩ := h
  exact ⟨by decide, by decide, fun _ => by simp⟩

theorem IsWord.withoutMinus_eq {word : List Char} (h : IsWord word) : withoutMinus word = word := by
  obtain ⟨c, cs, rfl, hc, -⟩ := h.exists_startsWord
  unfold withoutMinus
  split
  · rename_i heq
    cases heq
    exact absurd hc (by decide)
  · rfl

theorem Atom.isWorded_of_spelled {a : Atom} (h : a.Spelled) : a.IsWorded := by
  cases a with
  | num text =>
    have hword : IsWord text.toList := h.1
    show IsWord (withoutMinus text.toList)
    rwa [hword.withoutMinus_eq]
  | symbol s => exact h.word
  | callee function => exact h.1
  | event _ | metric _ | context _ => exact h.elim

theorem wordsOf_num {text : String} (h : (Atom.num text).IsWorded) :
    wordsOf text.toList = (Atom.num text).words := by
  have hword : IsWord (withoutMinus text.toList) := h
  rw [Atom.words, ← hword.wordsOf_eq]
  unfold withoutMinus
  split
  · rename_i cs heq
    rw [heq, wordsOf_minus]
  · rfl

/-- Escaped terms one behind the other keep their words, also with a separator behind them. -/
theorem wordsOf_qualifiers {qualifiers : List String}
    (h : ∀ q ∈ qualifiers, IsEscapedTerm q.toList) {rest : List Char} (hrest : EndsWord rest) :
    EndsWord ((String.join qualifiers).toList ++ rest) ∧
      wordsOf ((String.join qualifiers).toList ++ rest) =
        qualifiers.flatMap (wordsOf ·.toList) ++ wordsOf rest := by
  rw [String.toList_join]
  induction qualifiers with
  | nil => exact ⟨hrest, rfl⟩
  | cons q qs ih =>
    obtain ⟨hq, hqs⟩ := List.forall_mem_cons.1 h
    obtain ⟨hends, hwords⟩ := ih hqs
    simp only [List.flatMap_cons, List.append_assoc]
    exact ⟨hq.endsWord_append _, by rw [wordsOf_append hends, hwords]⟩

/-- The text behind the name of an event that is written with its qualifiers. -/
def EventRef.suffix (e : EventRef) : List Char :=
  (String.join e.qualifiers).toList ++ '@' :: ((e.privilege.map Privilege.text).getD "").toList

theorem EventRef.toList_render (e : EventRef) :
    e.render.toList =
      match e.terms with
      | some terms => e.name.toList ++ '@' :: (terms.toList ++ e.suffix)
      | none =>
        if e.qualifiers.isEmpty && e.privilege.isNone then e.name.toList
        else e.pmu.toList ++ '@' :: (e.name.toList ++ e.suffix) := by
  unfold render suffix
  cases e.terms with
  | some terms => simp
  | none =>
    dsimp only
    split
    · rfl
    · simp

theorem wordsOf_suffix {e : EventRef} (h : ∀ q ∈ e.qualifiers, IsEscapedTerm q.toList) :
    EndsWord e.suffix ∧ wordsOf e.suffix = e.suffixWords := by
  have hseparator : isSeparator '@' = true := by decide
  obtain ⟨hends, hwords⟩ := wordsOf_qualifiers h (endsWord_of_isSeparator hseparator
    ((e.privilege.map Privilege.text).getD "").toList)
  refine ⟨hends, ?_⟩
  rw [EventRef.suffix, hwords, wordsOf_cons_of_isSeparator hseparator, EventRef.suffixWords]
  congr 1
  cases e.privilege with
  | none => exact wordsOf_nil
  | some p =>
    have hword : IsWord p.text.toList := by cases p <;> decide
    exact hword.wordsOf_eq

theorem wordsOf_event {e : EventRef} (h : (Atom.event e).IsWorded) :
    wordsOf e.render.toList = e.words := by
  obtain ⟨hname, hqualifiers⟩ := h
  obtain ⟨hends, hsuffix⟩ := wordsOf_suffix hqualifiers
  have hseparator : isSeparator '@' = true := by decide
  rw [e.toList_render, EventRef.words]
  cases e.terms with
  | some terms =>
    dsimp only
    rw [wordsOf_separated hseparator, wordsOf_append hends, hsuffix, hname.wordsOf_eq]
    rfl
  | none =>
    dsimp only
    split
    · exact hname.wordsOf_eq
    · rw [wordsOf_separated hseparator, wordsOf_append hends, hsuffix, hname.wordsOf_eq]
      rfl

theorem wordsOf_modifiers (modifiers : List (List Char)) {rest : List Char}
    (hrest : EndsWord rest) :
    EndsWord (modifiers.flatMap (':' :: ·) ++ rest) ∧
      wordsOf (modifiers.flatMap (':' :: ·) ++ rest) =
        modifiers.flatMap wordsOf ++ wordsOf rest := by
  have hseparator : isSeparator ':' = true := by decide
  induction modifiers with
  | nil => exact ⟨hrest, rfl⟩
  | cons m modifiers ih =>
    obtain ⟨hends, hwords⟩ := ih
    simp only [List.flatMap_cons, List.append_assoc, List.cons_append]
    refine ⟨endsWord_of_isSeparator hseparator _, ?_⟩
    rw [wordsOf_cons_of_isSeparator hseparator, wordsOf_append hends, hwords]

theorem wordsOf_termsSource (group : Option (List Char)) :
    EndsWord (termsSource group) ∧
      wordsOf (termsSource group) = (group.map wordsOf).getD [] := by
  have hseparator : isSeparator '@' = true := by decide
  cases group with
  | none => exact ⟨trivial, wordsOf_nil⟩
  | some terms =>
    refine ⟨endsWord_of_isSeparator hseparator _, ?_⟩
    rw [termsSource, wordsOf_cons_of_isSeparator hseparator, wordsOf_separated hseparator,
      wordsOf_nil, List.append_nil]
    rfl

theorem wordsOf_sigil (sigil : Sigil) (cs : List Char) :
    wordsOf (sigil.text.toList ++ cs) = wordsOf cs := by
  cases sigil <;> simp [Sigil.text, wordsOf_cons_of_not, isWordChar]

theorem wordsOf_symbol {s : Symbol} (h : (Atom.symbol s).IsWorded) :
    wordsOf s.render.toList = s.words := by
  have hname : IsWord s.name.toList := h
  obtain ⟨hterms, hgroup⟩ := wordsOf_termsSource (s.terms.map String.toList)
  obtain ⟨hends, hmodifiers⟩ := wordsOf_modifiers (s.modifiers.map String.toList) hterms
  rw [s.toList_render, wordsOf_sigil, wordsOf_append hends, hmodifiers, hgroup,
    hname.wordsOf_eq, List.flatMap_map, Option.map_map]
  rfl

/-! ## Texts of trees -/

mutual

theorem Expr.wordsOf_render (e : Expr) (h : ∀ a ∈ e.atoms, a.IsWorded) :
    wordsOf e.render.toList = e.words := by
  match e with
  | .num text => exact wordsOf_num (h _ List.mem_cons_self)
  | .symbol s => exact wordsOf_symbol (h _ List.mem_cons_self)
  | .event e => exact wordsOf_event (h _ List.mem_cons_self)
  | .metric name =>
    have hword : IsWord name.toList := h _ List.mem_cons_self
    exact hword.wordsOf_eq
  | .context name =>
    have hword : IsWord name.toList := h _ List.mem_cons_self
    rw [Expr.render, String.toList_append]
    exact (wordsOf_cons_of_isSeparator (by decide) _).trans hword.wordsOf_eq
  | .neg operand =>
    rw [Expr.render, String.toList_append]
    exact (wordsOf_minus _).trans (operand.wordsOf_render h)
  | .binary op lhs rhs =>
    obtain ⟨hlhs, hrhs⟩ := List.forall_mem_append.1 h
    have htext : (Expr.binary op lhs rhs).render.toList =
        lhs.render.toList ++ ' ' :: (op.text.toList ++ ' ' :: rhs.render.toList) := by
      simp [Expr.render]
    rw [htext, wordsOf_separated (by decide), wordsOf_operator, lhs.wordsOf_render hlhs,
      rhs.wordsOf_render hrhs, Expr.words]
  | .call function arguments =>
    obtain ⟨hfunction, harguments⟩ := List.forall_mem_cons.1 h
    have hword : IsWord function.toList := hfunction
    have htext : (Expr.call function arguments).render.toList =
        function.toList ++ '(' :: ((Expr.renderArguments arguments).toList ++ [')']) := by
      simp [Expr.render]
    rw [htext, wordsOf_separated (by decide), wordsOf_separated (by decide), wordsOf_nil,
      List.append_nil, hword.wordsOf_eq, Expr.wordsOf_renderArguments arguments harguments]
    rfl
  | .cond chosen condition otherwise =>
    obtain ⟨hchosen, hrest⟩ := List.forall_mem_append.1 h
    obtain ⟨hcondition, hotherwise⟩ := List.forall_mem_append.1 hrest
    have htext : (Expr.cond chosen condition otherwise).render.toList =
        chosen.render.toList ++ ' ' :: ("if".toList ++ ' ' :: (condition.render.toList ++
          ' ' :: ("else".toList ++ ' ' :: otherwise.render.toList))) := by
      simp [Expr.render]
    have hif : IsWord "if".toList := by decide
    have helse : IsWord "else".toList := by decide
    rw [htext, wordsOf_separated (by decide), wordsOf_separated (by decide),
      wordsOf_separated (by decide), wordsOf_separated (by decide), hif.wordsOf_eq,
      helse.wordsOf_eq, chosen.wordsOf_render hchosen, condition.wordsOf_render hcondition,
      otherwise.wordsOf_render hotherwise]
    rfl
  | .paren inner =>
    have htext : (Expr.paren inner).render.toList = '(' :: (inner.render.toList ++ [')']) := by
      simp [Expr.render]
    rw [htext, wordsOf_cons_of_isSeparator (by decide), wordsOf_separated (by decide),
      wordsOf_nil, List.append_nil, inner.wordsOf_render h, Expr.words]

theorem Expr.wordsOf_renderArguments (es : List Expr)
    (h : ∀ a ∈ Expr.atomsList es, a.IsWorded) :
    wordsOf (Expr.renderArguments es).toList = Expr.wordsList es := by
  match es with
  | [] => exact wordsOf_nil
  | [e] =>
    have he := e.wordsOf_render fun a ha => h a (List.mem_append_left _ ha)
    rw [Expr.renderArguments, he, Expr.wordsList, Expr.wordsList, List.append_nil]
  | e :: e' :: es =>
    have he := e.wordsOf_render fun a ha => h a (List.mem_append_left _ ha)
    have hes := Expr.wordsOf_renderArguments (e' :: es) fun a ha =>
      h a (List.mem_append_right _ ha)
    have htext : (Expr.renderArguments (e :: e' :: es)).toList =
        e.render.toList ++ ',' :: ' ' :: (Expr.renderArguments (e' :: es)).toList := by
      simp [Expr.renderArguments]
    rw [htext, wordsOf_separated (by decide), wordsOf_cons_of_isSeparator (by decide), he, hes]
    rfl

end

end TopdownMetrics.Formula

/-! ## Names of a table -/

namespace TopdownMetrics.SymbolTable

open Formula

/-- The names that the table puts into formulas are words. -/
structure HasWordNames (t : SymbolTable) : Prop where
  child : ∀ {parent c : String}, c ∈ t.childrenOf parent → IsWord c.toList
  metric : ∀ {name metric : String}, t.metricNames[name]? = some metric → IsWord metric.toList

variable {t : SymbolTable}

theorem hasWordNames_empty : HasWordNames {} where
  child h := by simp [childrenOf] at h
  metric h := by simp at h

theorem HasWordNames.addNode (h : t.HasWordNames) {name : String} (hname : IsWord name.toList)
    (formula : String) : (t.addNode name formula).HasWordNames where
  child := h.child
  metric := by
    intro other metric hmetric
    rw [SymbolTable.addNode, Std.TreeMap.getElem?_insert] at hmetric
    split_ifs at hmetric
    · cases hmetric
      exact (isName_nodeMetricName hname).1
    · exact h.metric hmetric

theorem HasWordNames.addInfo (h : t.HasWordNames) (name formula : String) :
    (t.addInfo name formula).HasWordNames :=
  ⟨h.child, h.metric⟩

theorem HasWordNames.addAux (h : t.HasWordNames) (name formula : String) :
    (t.addAux name formula).HasWordNames :=
  ⟨h.child, h.metric⟩

theorem HasWordNames.addChild (h : t.HasWordNames) (parent : String) {child : String}
    (hchild : IsWord child.toList) : (t.addChild parent child).HasWordNames where
  child := by
    intro other c hc
    rcases mem_childrenOf_addChild_iff.1 hc with ⟨rfl, rfl⟩ | hc
    · exact hchild
    · exact h.child hc
  metric := h.metric

theorem HasWordNames.isWord_canonicalName (h : t.HasWordNames) {name : String}
    (hname : IsWord name.toList) : IsWord (t.canonicalName name).toList := by
  rw [canonicalName, Std.TreeMap.getD_eq_getD_getElem?]
  cases hmetric : t.metricNames[name]? with
  | none => exact hname
  | some metric => exact h.metric hmetric

end TopdownMetrics.SymbolTable

namespace TopdownMetrics.Formula

/-! ## Resolved trees -/

theorem isEscapedTerm_of_qualification? {modifier text : String}
    (h : qualification? modifier = some (.term text)) : IsEscapedTerm text.toList := by
  unfold qualification? at h
  split_ifs at h
  · cases h
  · cases h
  · cases h
    exact ⟨_, rfl⟩
  · cases h
    exact ⟨_, rfl⟩
  · split at h
    · split_ifs at h
      cases h
      exact ⟨"umask\\=0x".toList ++ _, by rw [String.toList_append]; rfl⟩
    · split_ifs at h
      cases h
      exact ⟨"cmask\\=".toList ++ _, by rw [String.toList_append]; rfl⟩
    · cases h

/-- The names of the atoms that a step brings in are words. -/
theorem worded_of_steps {s : Scope} (htable : s.table.HasWordNames) {symbol : Symbol} {f : Expr}
    (h : s.Steps symbol f) (hsymbol : IsWord symbol.name.toList) :
    ∀ a ∈ f.atoms, a.IsWorded := by
  have hbracket {e : Expr} (he : ∀ a ∈ e.atoms, a.Spelled) :
      ∀ a ∈ e.bracket.atoms, a.IsWorded := by
    rw [Expr.atoms_bracket]
    exact fun a ha => Atom.isWorded_of_spelled (he a ha)
  have hsum {parent first : String} {rest : List String}
      (hchildren : s.table.childrenOf parent = first :: rest) :
      ∀ a ∈ (Scope.sumOfChildren first rest).atoms, a.IsWorded := by
    rw [Scope.atoms_sumOfChildren, ← hchildren]
    exact List.forall_mem_map.2 fun child hchild => htable.child hchild
  cases h with
  | kept _ => exact List.forall_mem_singleton.2 hsymbol
  | replaced _ _ hparse => exact hbracket (levelled_and_spelled_of_parse hparse).2
  | node _ _ _ _ hparse =>
    exact hbracket (Scope.levelled_and_spelled_of_parseFragment hparse).2
  | aux _ _ _ _ _ hparse =>
    exact hbracket (Scope.levelled_and_spelled_of_parseFragment hparse).2
  | ignored _ _ hparse => exact hbracket (Scope.levelled_and_spelled_of_parseFragment hparse).2
  | memory _ _ =>
    refine List.forall_mem_singleton.2 (show IsWord _ from ?_)
    split_ifs <;> decide
  | unavailable _ _ _ => exact List.forall_mem_singleton.2 (show IsWord _ by decide)
  | sum hchildren => exact hsum hchildren
  | aggregate hchildren =>
    refine List.forall_mem_cons.2 ⟨(by decide : IsWord _), List.forall_mem_append.2 ⟨?_, ?_⟩⟩
    · exact List.forall_mem_singleton.2 hsymbol
    · exact List.forall_mem_append.2 ⟨hsum hchildren, List.forall_mem_nil _⟩
  | metric _ _ _ => exact List.forall_mem_singleton.2 (htable.isWord_canonicalName hsymbol)
  | event _ => exact List.forall_mem_singleton.2 ⟨hsymbol, List.forall_mem_nil _⟩
  | @qualified name _ terms qs _ hqs =>
    obtain ⟨hname, -, -, hqualifiers⟩ := EventRef.foldl_qualify qs ⟨name, s.pmu, [], none, terms⟩
    refine List.forall_mem_singleton.2 ⟨hname ▸ hsymbol, fun q hq => ?_⟩
    rcases hqualifiers q hq with hmem | hmem
    · cases hmem
    · obtain ⟨modifier, -, hmodifier⟩ := exists_modifier_of_mem hqs hmem
      exact isEscapedTerm_of_qualification? hmodifier

theorem isWorded_num_of_isSignedDecimal {text : String} (h : IsSignedDecimal text) :
    (Atom.num text).IsWorded := by
  have hword : IsWord (String.ofList (withoutMinus text.toList)).toList := h.spelled.1
  rwa [String.toList_ofList] at hword

theorem worded_of_resolve {s : Scope} {formula : String} {e : Expr}
    (htable : s.table.HasWordNames) (h : s.resolve formula = .ok e)
    (hcoefficients : ∀ d ∈ s.differences formula, IsSignedDecimal d.coefficient) :
    ∀ a ∈ e.atoms, a.IsWorded := by
  have hfold {e f : Expr} {ds : List Expr.Difference} (hfolds : e.Folds ds f)
      (hds : ∀ d ∈ ds, IsSignedDecimal d.coefficient) (he : ∀ a ∈ e.atoms, a.IsWorded) :
      ∀ a ∈ f.atoms, a.IsWorded :=
    forall_atoms_of_folds hfolds (fun d hd => isWorded_num_of_isSignedDecimal (hds d hd)) he
  have hstep {symbol : Symbol} {f : Expr} (hsteps : s.Steps symbol f)
      (hsymbol : ∀ a ∈ (Expr.symbol symbol).atoms, a.IsWorded) : ∀ a ∈ f.atoms, a.IsWorded :=
    worded_of_steps htable hsteps (hsymbol _ List.mem_cons_self)
  obtain ⟨source, hparse, hworded, -⟩ :=
    (congruence_atoms Atom.IsWorded).resolve hfold hstep h hcoefficients
  have hspelled := (Scope.levelled_and_spelled_of_parseFragment hparse).2
  exact hworded fun a ha => Atom.isWorded_of_spelled (hspelled a ha)

/-- The words found in the text of a resolved formula are the words of its leaves and of the
functions that it calls, in order, and the words `if` and `else` of each conditional.  So they
are those of the leaves and calls alone exactly where there is no conditional. -/
theorem wordsOf_render_of_resolve {s : Scope} {formula : String} {e : Expr}
    (htable : s.table.HasWordNames) (h : s.resolve formula = .ok e)
    (hcoefficients : ∀ d ∈ s.differences formula, IsSignedDecimal d.coefficient) :
    wordsOf e.render.toList = e.words ∧
      (wordsOf e.render.toList = e.atoms.flatMap Atom.words ↔ e.conditionals = 0) := by
  have hwords := e.wordsOf_render (worded_of_resolve htable h hcoefficients)
  refine ⟨hwords, ?_⟩
  rw [hwords]
  exact Expr.words_eq_words_atoms_iff

theorem hasWordNames_hybridScope : hybridScope.table.HasWordNames := by
  have hnode := SymbolTable.hasWordNames_empty.addNode
    (show IsWord "Core".toList by decide) "Ports / Slots"
  have hchild := hnode.addChild "Core" (show IsWord "Ports".toList by decide)
  exact hchild.addAux "#Stalls" "(1 * Clocks) - (3 * Clocks)"

/-- A conditional over an event with a privilege and one with a term group. -/
def switchedFormula : String :=
  "Uops:c1:sup * -1 if #SMT_on else max(L3@event\\=0x3c@, Core)"

/-- The tree of the formula, over trees for the references. -/
def switchedTree (uops flag cache core : Expr) : Expr :=
  .cond (.binary .mul uops (.neg (.num "1"))) flag (.call "max" [cache, core])

def switchedSource : Expr :=
  switchedTree (.symbol ⟨.bare, "Uops", ["c1", "sup"], none⟩) (.symbol ⟨.hash, "SMT_on", [], none⟩)
    (.symbol ⟨.bare, "L3", [], some "event\\=0x3c"⟩) (.symbol (.bare "Core"))

/-- Its text starts with `cpu_core@Uops\,cmask\=1@k * -1 if #SMT_on`. -/
def switchedResult : Expr :=
  switchedTree (.event ⟨"Uops", "cpu_core", ["\\,cmask\\=1"], some .kernel, none⟩)
    (.context "SMT_on") (.event ⟨"L3", "cpu_core", [], none, some "event\\=0x3c"⟩)
    (.metric "tma_core")

theorem resolve_switchedFormula :
    hybridScope.resolve switchedFormula = .ok switchedResult ∧
      hybridScope.differences switchedFormula = [] := by
  have hparse : hybridScope.parseFragment switchedFormula = .ok switchedSource :=
    mapError_eq_ok_iff.2 (parse_eq_ok_of_tokens (by decide +kernel) (by decide) (by decide))
  have hpass : hybridScope.substitute switchedSource = .ok switchedResult := rfl
  have hsource : switchedSource.simplified = switchedSource := by decide +kernel
  have hafterPass := Scope.settle_of_pass (by decide) hpass
    (show _ = switchedResult by decide +kernel) 63
  have hdone := hybridScope.settle_of_done (show switchedResult.hasSymbols = false by decide) 63
  obtain ⟨hresolve, hdifferences⟩ := Scope.resolve_of_parse hparse hsource
  constructor
  · exact hresolve.trans (hafterPass.1.trans hdone.1)
  · rw [hdifferences, show passLimit = 63 + 1 from rfl, hafterPass.2, hdone.2]
    decide +kernel

theorem wordsOf_render_hybridFormula :
    wordsOf hybridResult.render.toList =
        ["2", "Clocks", "cpu_core", "Uops", "cmask", "1", "umask", "0x0f", "max", "tma_core",
          "Ports", "SMT_on", "L3", "event", "0x3c", "edge"].map String.toList ∧
      wordsOf switchedResult.render.toList =
        ["cpu_core", "Uops", "cmask", "1", "k", "1", "if", "SMT_on", "else", "max", "L3",
          "event", "0x3c", "tma_core"].map String.toList := by
  have hhybrid := wordsOf_render_of_resolve hasWordNames_hybridScope resolve_hybridFormula.1 (by
    rw [resolve_hybridFormula.2]
    exact List.forall_mem_singleton.2 (by decide +kernel))
  have hswitched := wordsOf_render_of_resolve hasWordNames_hybridScope resolve_switchedFormula.1 (by
    rw [resolve_switchedFormula.2]
    exact List.forall_mem_nil _)
  constructor
  · exact hhybrid.1.trans (by decide +kernel)
  · exact hswitched.1.trans (by decide +kernel)

/-- The words of a conditional belong to no leaf and no call. -/
theorem wordsOf_render_switchedFormula :
    hybridScope.table.HasWordNames ∧ hybridScope.resolve switchedFormula = .ok switchedResult ∧
      hybridScope.differences switchedFormula = [] ∧
      "if".toList ∈ wordsOf switchedResult.render.toList ∧
      "if".toList ∉ switchedResult.atoms.flatMap Atom.words ∧
      wordsOf switchedResult.render.toList ≠ switchedResult.atoms.flatMap Atom.words := by
  refine ⟨hasWordNames_hybridScope, resolve_switchedFormula.1, resolve_switchedFormula.2, ?_⟩
  have hmem : "if".toList ∈ wordsOf switchedResult.render.toList := by decide +kernel
  have hnotMem : "if".toList ∉ switchedResult.atoms.flatMap Atom.words := by decide +kernel
  exact ⟨hmem, hnotMem, fun heq => hnotMem (heq ▸ hmem)⟩

end TopdownMetrics.Formula

import TopdownMetrics.Proofs.DefinitionDepth
import TopdownMetrics.Proofs.InlinedNodes
import TopdownMetrics.Proofs.KeptQualifiers
import TopdownMetrics.Proofs.NormalForms

/-!
# References to the children of a node

A row adds an edge to a node together with the formula and the metric name of the node, and no later
row takes these away: it can only write another formula under the name.  So each term of the sum
that `##name` stands for is a name with a formula, and becomes the metric of the child, a zero, or
the formula of a child that is not emitted.  Only names without a formula are read as events.
-/

namespace TopdownMetrics

open Formula

/-! ## The children of a table -/

namespace SymbolTable

/-- A formula and a metric name are kept for the node. -/
structure NamesNode (t : SymbolTable) (name : String) : Prop where
  node : name ∈ t.nodes
  info : name ∈ t.info
  metricName : t.metricNames[name]? = some (nodeMetricName name)

def NamesChildren (t : SymbolTable) : Prop :=
  ∀ parent, ∀ child ∈ t.childrenOf parent, t.NamesNode child

variable {t : SymbolTable} {name : String}

theorem namesNode_addNode (t : SymbolTable) (name formula : String) :
    (t.addNode name formula).NamesNode name where
  node := Std.TreeMap.mem_insert_self
  info := Std.TreeMap.mem_insert_self
  metricName := Std.TreeMap.getElem?_insert_self

theorem NamesNode.info_ne_none (h : t.NamesNode name) : t.info[name]? ≠ none := by
  intro hnone
  have hmem := Std.TreeMap.isSome_getElem?_iff_mem.2 h.info
  rw [hnone] at hmem
  cases hmem

theorem NamesNode.of_eq {t' : SymbolTable} (h : t.NamesNode name) (hnodes : t'.nodes = t.nodes)
    (hinfo : t'.info = t.info) (hnames : t'.metricNames = t.metricNames) : t'.NamesNode name :=
  ⟨hnodes ▸ h.node, hinfo ▸ h.info, hnames ▸ h.metricName⟩

theorem NamesNode.addNode (h : t.NamesNode name) (other formula : String) :
    (t.addNode other formula).NamesNode name := by
  by_cases hname : other = name
  · subst hname
    exact namesNode_addNode t other formula
  · refine ⟨Std.TreeMap.mem_insert.2 (.inr h.node), Std.TreeMap.mem_insert.2 (.inr h.info), ?_⟩
    have hne : compare other name ≠ .eq := fun heq => hname (Std.compare_eq_iff_eq.1 heq)
    rw [SymbolTable.addNode, Std.TreeMap.getElem?_insert, if_neg hne]
    exact h.metricName

theorem NamesNode.addInfo (h : t.NamesNode name) (other formula : String) :
    (t.addInfo other formula).NamesNode name :=
  ⟨h.node, Std.TreeMap.mem_insert.2 (.inr h.info), h.metricName⟩

theorem namesChildren_empty : ({} : SymbolTable).NamesChildren := by
  intro parent child hchild
  simp [childrenOf] at hchild

/-- The child of a new edge is the node that is written next. -/
theorem namesChildren_addNode {formula : String}
    (h : ∀ parent, ∀ child ∈ t.childrenOf parent, child = name ∨ t.NamesNode child) :
    (t.addNode name formula).NamesChildren := by
  intro parent child hchild
  rcases h parent child hchild with rfl | hnode
  · exact namesNode_addNode t child formula
  · exact hnode.addNode name formula

end SymbolTable

namespace TableReading

variable {symbols : SymbolTable}

theorem addTopdownRow_namesChildren (t : TableReading) (h : symbols.NamesChildren) (row : Row)
    (hint : Option String) : (t.addTopdownRow symbols row hint).symbols.NamesChildren := by
  unfold addTopdownRow
  cases t.levelAndName? row with
  | none => exact h
  | some found =>
    obtain ⟨level, name⟩ := found
    dsimp only
    cases enter? symbols.ancestors level name with
    | none => exact h
    | some ancestors =>
      dsimp only
      cases t.formula? row with
      | none => exact fun parent child hchild => (h parent child hchild).of_eq rfl rfl rfl
      | some formula =>
        dsimp only
        refine SymbolTable.namesChildren_addNode fun parent child hchild => ?_
        cases hparent : (if 1 < level then ancestors[level - 2]? else none) with
        | none =>
          rw [hparent] at hchild
          exact .inr ((h parent child hchild).of_eq rfl rfl rfl)
        | some above =>
          rw [hparent] at hchild
          rcases SymbolTable.mem_childrenOf_addChild_iff.1 hchild with ⟨-, hname⟩ | hchild
          · exact .inl hname
          · exact .inr ((h parent child hchild).of_eq rfl rfl rfl)

theorem addInfoRow_namesChildren (t : TableReading) (h : symbols.NamesChildren) (row : Row)
    (hint : Option String) : (t.addInfoRow symbols row hint).symbols.NamesChildren := by
  unfold addInfoRow
  cases t.formula? row with
  | none => exact h
  | some formula => exact fun parent child hchild => (h parent child hchild).addInfo _ formula

theorem addAuxRow_namesChildren (t : TableReading) (h : symbols.NamesChildren) (row : Row) :
    (t.addAuxRow symbols row).symbols.NamesChildren := by
  unfold addAuxRow
  cases t.formula? row with
  | none => exact h
  | some formula =>
    dsimp only
    split_ifs
    · exact h
    · exact fun parent child hchild => (h parent child hchild).of_eq rfl rfl rfl

theorem addRow_namesChildren (t : TableReading) (h : symbols.NamesChildren) (row : Row) :
    (t.addRow symbols row).symbols.NamesChildren := by
  unfold addRow
  dsimp only
  cases t.rowKind row with
  | topdown => exact t.addTopdownRow_namesChildren h row (t.locate row).1
  | info => exact t.addInfoRow_namesChildren h row (t.locate row).1
  | aux => exact t.addAuxRow_namesChildren h row
  | other => exact h

theorem addRows_namesChildren (t : TableReading) (h : symbols.NamesChildren) (rows : List Row) :
    (t.addRows symbols rows).symbols.NamesChildren := by
  induction rows generalizing symbols with
  | nil => exact h
  | cons row rows ih =>
    rw [addRows]
    exact ih (t.addRow_namesChildren h row)

end TableReading

section

variable {text arch : String} {column : FormulaColumn} {rules : Rules} {built : BuiltTable}

theorem namesChildren_of_buildTable (h : buildTable text arch column rules = .ok built) :
    built.contents.symbols.NamesChildren := by
  obtain ⟨t, rows, hcontents⟩ := exists_of_buildTable h
  rw [hcontents]
  exact t.addRows_namesChildren SymbolTable.namesChildren_empty rows

theorem trim_info_of_buildTable (h : buildTable text arch column rules = .ok built)
    {name formula : String} (hformula : built.contents.symbols.info[name]? = some formula) :
    Text.trim formula = formula := by
  rw [getElem?_info_of_buildTable h] at hformula
  obtain ⟨spec, hspec, rfl⟩ := Option.map_eq_some_iff.1 hformula
  rw [List.findRev?_eq_find?_reverse] at hspec
  exact trim_formula_of_buildTable h (List.mem_reverse.1 (List.mem_of_find?_eq_some hspec))

end

/-! ## Two passes over a reference to children -/

namespace Formula

namespace Expr

theorem simplified_of_unchanged {e : Expr} (h : e.simplifyOnce.2 = false) : e.simplified = e :=
  congrArg Prod.fst (simplify_of_unchanged h)

/-- Nothing is folded in a sum of references, none of which is a literal yet. -/
theorem foldl_add_symbols_unchanged (names : List String) {first : Expr}
    (hfirst : first.simplifyOnce.2 = false) (hzero : first.isZero = false) :
    ((names.map fun name => .symbol (.bare name)).foldl (.binary .add) first).simplifyOnce.2 =
      false := by
  induction names generalizing first with
  | nil => exact hfirst
  | cons name names ih =>
    refine ih ?_ rfl
    have hfold : (Expr.binary .add first (.symbol (.bare name))).fold? = none :=
      fold?_eq_none_iff.2 ⟨rfl, rfl, dropZero?_eq_none_iff.2 ⟨hzero, rfl⟩⟩
    have hnode : (Expr.binary .add first (.symbol (.bare name))).foldNode.2 = false := by
      rw [foldNode, hfold]
    have hsymbol : (Expr.symbol (.bare name)).foldNode = (.symbol (.bare name), false) := rfl
    simp [simplifyOnce, (simplifyOnce_of_unchanged first hfirst).1, hfirst, hsymbol, hnode]

end Expr

namespace Scope

variable {s : Scope} {e f : Expr} {first : String} {rest : List String}

theorem sumOfChildren_unchanged (first : String) (rest : List String) :
    (sumOfChildren first rest).simplifyOnce.2 = false :=
  Expr.foldl_add_symbols_unchanged rest rfl rfl

theorem simplified_paren_sumOfChildren (first : String) (rest : List String) :
    (Expr.paren (sumOfChildren first rest)).simplified = .paren (sumOfChildren first rest) := by
  rw [Expr.simplified_paren, Expr.simplified_of_unchanged (sumOfChildren_unchanged first rest)]

theorem simplified_max_sumOfChildren (parent first : String) (rest : List String) :
    (Expr.call "max" [.symbol (.bare parent), sumOfChildren first rest]).simplified =
      .call "max" [.symbol (.bare parent), sumOfChildren first rest] := by
  have hsum := sumOfChildren_unchanged first rest
  have hsymbol : (Expr.symbol (.bare parent)).foldNode = (.symbol (.bare parent), false) := rfl
  have hnode : (Expr.call "max" [.symbol (.bare parent), sumOfChildren first rest]).foldNode.2 =
      false := rfl
  apply Expr.simplified_of_unchanged
  simp [Expr.simplifyOnce, Expr.simplifyOnceList, hsymbol, hsum, hnode,
    (Expr.simplifyOnce_of_unchanged _ hsum).1]

theorem exists_of_substitute_foldl_add {es : List Expr}
    (h : s.substitute (es.foldl (.binary .add) e) = .ok f) :
    ∃ g gs, s.substitute e = .ok g ∧ List.Forall₂ (fun e g => s.substitute e = .ok g) es gs ∧
      f = gs.foldl (.binary .add) g := by
  induction es generalizing e with
  | nil => exact ⟨f, [], h, .nil, rfl⟩
  | cons e' es ih =>
    obtain ⟨sum, gs, hsum, hgs, rfl⟩ := ih h
    obtain ⟨g, hg, hsum⟩ := bind_eq_ok_iff.1 hsum
    obtain ⟨g', hg', hsum⟩ := bind_eq_ok_iff.1 hsum
    cases hsum
    exact ⟨g, g' :: gs, hg, .cons hg' hgs, rfl⟩

theorem exists_of_substitute_sumOfChildren (h : s.substitute (sumOfChildren first rest) = .ok f) :
    ∃ replacements, List.Forall₂ (fun child e => s.Steps (.bare child) e) (first :: rest)
      replacements ∧ Expr.sum? replacements = some f := by
  obtain ⟨g, gs, hg, hgs, rfl⟩ := exists_of_substitute_foldl_add h
  refine ⟨g :: gs, .cons (steps_of_step hg) ?_, rfl⟩
  rw [List.forall₂_map_left_iff] at hgs
  exact hgs.imp fun _ _ hstep => steps_of_step hstep

/-- The tree that a reference to the children of a node becomes, when these are replaced. -/
inductive Expands (s : Scope) (replacements : List Expr) : Symbol → Expr → Prop
  | sum {parent : String} {modifiers : List String} {terms : Option String} {total : Expr}
      (htotal : Expr.sum? replacements = some total) :
      s.Expands replacements ⟨.sum, parent, modifiers, terms⟩ (.paren total)
  | aggregate {parent : String} {modifiers : List String} {terms : Option String}
      {own total : Expr} (hown : s.Steps (.bare parent) own)
      (htotal : Expr.sum? replacements = some total) :
      s.Expands replacements ⟨.aggregate, parent, modifiers, terms⟩ (.call "max" [own, total])

theorem exists_of_settle_succ {passes : Nat} (he : e.hasSymbols = true)
    (h : s.settle (passes + 1) e = .ok f) :
    ∃ g, s.substitute e = .ok g ∧ s.settle passes g.simplified = .ok f := by
  rw [settle, if_pos he] at h
  exact bind_eq_ok_iff.1 h

/-- The first pass puts the names of the children in place of the reference, and the second one
replaces each of them by a step of its own. -/
theorem exists_expands_of_resolve {formula : String} {symbol : Symbol}
    (hsymbol : symbol.sigil = .sum ∨ symbol.sigil = .aggregate)
    (hparse : s.parseFragment formula = .ok (.symbol symbol)) (h : s.resolve formula = .ok e) :
    ∃ replacements tree,
      List.Forall₂ (fun child e => s.Steps (.bare child) e) (s.table.childrenOf symbol.name)
        replacements ∧
      s.Expands replacements symbol tree ∧ s.settle (passLimit - 2) tree.simplified = .ok e := by
  obtain ⟨g, hstep, hsettle⟩ := resolve_symbol hparse h
  rw [show passLimit - 1 = passLimit - 2 + 1 from rfl] at hsettle
  cases steps_of_step hstep with
  | @sum parent first rest _ _ hchildren =>
    rw [simplified_paren_sumOfChildren] at hsettle
    have hsymbols : (Expr.paren (sumOfChildren first rest)).hasSymbols = true := by
      refine (Expr.hasSymbols_eq_true_iff _).2 ⟨.bare first, ?_⟩
      rw [Expr.atoms, atoms_sumOfChildren]
      exact List.mem_cons_self
    obtain ⟨f, hf, hsettle⟩ := exists_of_settle_succ hsymbols hsettle
    obtain ⟨total, hsum, hf⟩ := bind_eq_ok_iff.1 hf
    cases hf
    obtain ⟨replacements, hreplacements, htotal⟩ := exists_of_substitute_sumOfChildren hsum
    exact ⟨replacements, _, hchildren ▸ hreplacements, .sum htotal, hsettle⟩
  | @aggregate parent first rest _ _ hchildren =>
    rw [simplified_max_sumOfChildren] at hsettle
    obtain ⟨f, hf, hsettle⟩ := exists_of_settle_succ rfl hsettle
    obtain ⟨arguments, harguments, hf⟩ := bind_eq_ok_iff.1 hf
    cases hf
    obtain ⟨own, hown, harguments⟩ := bind_eq_ok_iff.1 harguments
    obtain ⟨totals, htotals, harguments⟩ := bind_eq_ok_iff.1 harguments
    cases harguments
    obtain ⟨total, hsum, htotals⟩ := bind_eq_ok_iff.1 htotals
    cases htotals
    obtain ⟨replacements, hreplacements, htotal⟩ := exists_of_substitute_sumOfChildren hsum
    exact ⟨replacements, _, hchildren ▸ hreplacements, .aggregate (steps_of_step hown) htotal,
      hsettle⟩
  | _ => simp [Symbol.bare] at hsymbol

theorem parseFragment_mark {sigil : Sigil} {name : String} (hmark : sigil ≠ .bare)
    (hname : IsWord name.toList)
    (hfixups : Fixup.applyAll s.fixups (sigil.text ++ name) = sigil.text ++ name) :
    s.parseFragment (sigil.text ++ name) = .ok (.symbol ⟨sigil, name, [], none⟩) := by
  have hrender : (Expr.symbol ⟨sigil, name, [], none⟩).render = sigil.text ++ name := by
    simp [Expr.render, Symbol.render, String.join]
  have hspelled : Symbol.Spelled ⟨sigil, name, [], none⟩ :=
    ⟨hname, fun hbare => absurd hbare hmark, by simp, by simp⟩
  rw [parseFragment, hfixups, ← hrender]
  exact mapError_eq_ok_iff.2
    (Expr.Levelled.parse_render trivial (List.forall_mem_singleton.2 hspelled))

/-! ## What becomes of a child -/

/-- What a reference to a child is replaced by: its metric, or a zero if it is not available, or its
formula if it is not emitted. -/
inductive ReplacesChild (s : Scope) (child : String) : Expr → Prop
  | metric {formula : String} (hformula : s.table.info[child]? = some formula)
      (hignored : child ∉ s.rules.ignoredMetrics) (havailable : formula ≠ "#NA") :
      s.ReplacesChild child (.metric (SymbolTable.nodeMetricName child))
  | unavailable (hformula : s.table.info[child]? = some "#NA")
      (hignored : child ∉ s.rules.ignoredMetrics) : s.ReplacesChild child (.num "0")
  | ignored {formula : String} {e : Expr} (hformula : s.table.info[child]? = some formula)
      (hignored : child ∈ s.rules.ignoredMetrics) (hparse : s.parseFragment formula = .ok e) :
      s.ReplacesChild child e.bracket

theorem replacesChild_of_steps {child : String} (hchild : s.table.NamesNode child)
    (htrim : ∀ formula, s.table.info[child]? = some formula → Text.trim formula = formula)
    (h : s.Steps (.bare child) e) : s.ReplacesChild child e := by
  cases h with
  | ignored hformula hignored hparse => exact .ignored hformula hignored hparse
  | unavailable hformula hignored hna =>
    rw [htrim _ hformula] at hna
    exact .unavailable (hna ▸ hformula) hignored
  | metric hformula hignored hna =>
    rw [htrim _ hformula] at hna
    have hname : s.table.canonicalName child = SymbolTable.nodeMetricName child := by
      rw [SymbolTable.canonicalName, Std.TreeMap.getD_eq_getD_getElem?, hchild.metricName]
      rfl
    rw [hname]
    exact .metric hformula hignored hna
  | event hnone => exact absurd hnone hchild.info_ne_none
  | qualified hqualified => simp at hqualified

/-- A plain event has a name without a formula. -/
def NamesNoFormula (s : Scope) (a : Atom) : Prop :=
  ∀ name, a = .event (.plain name) → s.table.info[name]? = none

theorem qualified_ne_plain {name other pmu : String} {modifiers : List String}
    {terms : Option String} {qs : List Qualification} (hqualified : modifiers ≠ [] ∨ terms ≠ none)
    (hqs : modifiers.mapM qualification? = some qs) :
    qs.foldl EventRef.qualify ⟨name, pmu, [], none, terms⟩ ≠ .plain other := by
  rw [EventRef.foldl_qualify_eq]
  intro h
  obtain ⟨-, -, hqualifiers, hprivilege, hterms⟩ := EventRef.mk.inj h
  have hnone (q : Qualification) : q ∉ qs := by
    intro hq
    cases q with
    | term text =>
      have hmem : text ∈ qs.filterMap Qualification.term? := List.mem_filterMap.2 ⟨_, hq, rfl⟩
      rw [List.nil_append] at hqualifiers
      rw [hqualifiers] at hmem
      cases hmem
    | privilege p =>
      have hmem := Qualification.mem_filterMap_privilege?.2 hq
      rw [Option.or_none, List.getLast?_eq_none_iff] at hprivilege
      rw [hprivilege] at hmem
      cases hmem
  obtain rfl := List.eq_nil_iff_forall_not_mem.2 hnone
  have hmodifiers : modifiers = [] := by
    cases modifiers with
    | nil => rfl
    | cons m modifiers =>
      rw [List.mapM_cons] at hqs
      obtain ⟨q, -, hrest⟩ := Option.bind_eq_some_iff.1 hqs
      obtain ⟨more, -, hcons⟩ := Option.bind_eq_some_iff.1 hrest
      cases hcons
  exact hqualified.elim (fun hne => hne hmodifiers) fun hne => hne hterms

theorem namesNoFormula_of_steps {symbol : Symbol} (h : s.Steps symbol e) :
    ∀ a ∈ e.atoms, s.NamesNoFormula a := by
  have hbracket {e : Expr} (he : ∀ a ∈ e.atoms, a.Spelled) :
      ∀ a ∈ e.bracket.atoms, s.NamesNoFormula a := by
    rw [Expr.atoms_bracket]
    rintro a ha name rfl
    exact (he _ ha).elim
  have hsum (first : String) (rest : List String) :
      ∀ a ∈ (sumOfChildren first rest).atoms, s.NamesNoFormula a := by
    rw [atoms_sumOfChildren]
    exact List.forall_mem_map.2 fun child _ => nofun
  cases h with
  | replaced _ _ hparse => exact hbracket (levelled_and_spelled_of_parse hparse).2
  | node _ _ _ _ hparse => exact hbracket (levelled_and_spelled_of_parseFragment hparse).2
  | aux _ _ _ _ _ hparse => exact hbracket (levelled_and_spelled_of_parseFragment hparse).2
  | ignored _ _ hparse => exact hbracket (levelled_and_spelled_of_parseFragment hparse).2
  | kept _ | memory _ _ | unavailable _ _ _ | metric _ _ _ =>
    exact List.forall_mem_singleton.2 nofun
  | sum _ => exact hsum _ _
  | aggregate _ =>
    refine List.forall_mem_cons.2 ⟨nofun, List.forall_mem_append.2 ⟨?_, ?_⟩⟩
    · exact List.forall_mem_singleton.2 nofun
    · exact List.forall_mem_append.2 ⟨hsum _ _, List.forall_mem_nil _⟩
  | event hnone =>
    refine List.forall_mem_singleton.2 fun name hname => ?_
    obtain rfl := (EventRef.mk.inj (Atom.event.inj hname)).1
    exact hnone
  | qualified hqualified hqs =>
    refine List.forall_mem_singleton.2 fun name hname => ?_
    exact absurd (Atom.event.inj hname) (qualified_ne_plain hqualified hqs)

/-- Only a name without a formula is left as a plain event. -/
theorem namesNoFormula_of_resolve {formula : String} (h : s.resolve formula = .ok e) :
    ∀ a ∈ e.atoms, s.NamesNoFormula a := by
  obtain ⟨source, hparse, hatoms, -⟩ := (congruence_atoms s.NamesNoFormula).resolve
    (P := fun _ => True) (fun hfolds _ => forall_atoms_of_folds hfolds fun _ _ => nofun)
    (fun hsteps _ => namesNoFormula_of_steps hsteps) h fun _ _ => trivial
  refine hatoms ?_
  rintro a ha name rfl
  exact ((levelled_and_spelled_of_parseFragment hparse).2 _ ha).elim

/-- What becomes of the children of nodes under resolution. -/
structure ReplacesChildren (s : Scope) : Prop where
  /-- Wherever a reference to a child stands, this is one step of it. -/
  step : ∀ parent, ∀ child ∈ s.table.childrenOf parent, ∀ e,
    s.step (.bare child) = .ok e → s.ReplacesChild child e
  /-- A reference to the children of a node is settled in its replaced children. -/
  expands : ∀ formula symbol e, symbol.sigil = .sum ∨ symbol.sigil = .aggregate →
    s.parseFragment formula = .ok (.symbol symbol) → s.resolve formula = .ok e →
    ∃ replacements tree,
      List.Forall₂ s.ReplacesChild (s.table.childrenOf symbol.name) replacements ∧
      s.Expands replacements symbol tree ∧ s.settle (passLimit - 2) tree.simplified = .ok e
  /-- Nothing is resolved to the plain event of a child. -/
  no_event : ∀ formula e, s.resolve formula = .ok e →
    ∀ parent, ∀ child ∈ s.table.childrenOf parent, Atom.event (.plain child) ∉ e.atoms

theorem replacesChildren (hchildren : s.table.NamesChildren)
    (htrim : ∀ (name formula : String), s.table.info[name]? = some formula →
      Text.trim formula = formula) : s.ReplacesChildren where
  step parent child hchild _ h :=
    replacesChild_of_steps (hchildren parent child hchild) (htrim child) (steps_of_step h)
  expands formula symbol e hsymbol hparse h := by
    obtain ⟨replacements, tree, hsteps, htree, hsettle⟩ :=
      exists_expands_of_resolve hsymbol hparse h
    refine ⟨replacements, tree, ?_, htree, hsettle⟩
    have hboth := (List.forall₂_and_left _ _).2 ⟨hchildren symbol.name, hsteps⟩
    exact hboth.imp fun child _ h => replacesChild_of_steps h.1 (htrim child) h.2
  no_event formula e h parent child hchild hevent := by
    have hnone := namesNoFormula_of_resolve h _ hevent child rfl
    exact (hchildren parent child hchild).info_ne_none hnone

end Scope

end Formula

/-- The children in a table are nodes with a formula and a metric name.  Over its symbols, a
reference to a child becomes its metric, a zero or its formula, and never an event. -/
theorem child_references_name_metrics {text arch : String} {column : FormulaColumn} {rules : Rules}
    {built : BuiltTable} (h : buildTable text arch column rules = .ok built) :
    built.contents.symbols.NamesChildren ∧
      ∀ s : Scope, s.table = built.contents.symbols → s.ReplacesChildren := by
  have hchildren := namesChildren_of_buildTable h
  refine ⟨hchildren, fun s htable => ?_⟩
  rw [← htable] at hchildren
  refine Scope.replacesChildren hchildren fun name formula hformula => ?_
  rw [htable] at hformula
  exact trim_info_of_buildTable h hformula

/-! ### Three kinds of children -/

/-- Of the children of `Bound`, one is emitted, one is not, and one is not available. -/
def partsText : String :=
  "Key,Level1,Level2,Metric Description,SKL\nFE,Bound,,Idle,CYCLES\nFE,,Fetch,Late,FETCHES\nFE,,Hidden,Kept,STALLS\nFE,,Missing,None,#NA\n"

def partsRules : Rules :=
  { plainRules with ignoredMetrics := ["Hidden"] }

def partsTable : BuiltTable :=
  ⟨"SKL", TableReading.addRows
    ⟨⟨["Key", "Level1", "Level2", "Metric Description", "SKL"]⟩, ["SKL"], "SKL", partsRules⟩ {}
    [["FE", "Bound", "", "Idle", "CYCLES"], ["FE", "", "Fetch", "Late", "FETCHES"],
      ["FE", "", "Hidden", "Kept", "STALLS"], ["FE", "", "Missing", "None", "#NA"]]⟩

theorem buildTable_partsText :
    buildTable partsText "SKL" ⟨"SKL", [], none⟩ partsRules = .ok partsTable :=
  buildTable_of_split (by cbv) rfl rfl rfl

def partsScope : Scope :=
  Scope.ofArch partsTable.contents.symbols partsRules "SKL" "cpu"

/-- The sum over the children, over a tree for each of them. -/
def partsTree (fetch hidden missing : Expr) : Expr :=
  .paren (.binary .add (.binary .add fetch hidden) missing)

def partsResult : Expr :=
  .paren (.binary .add (.metric "tma_fetch") (.event (.plain "STALLS")))

theorem resolve_parts :
    partsScope.parseFragment "##Bound" = .ok (.symbol ⟨.sum, "Bound", [], none⟩) ∧
      partsScope.resolve "##Bound" = .ok partsResult := by
  have hparse : partsScope.parseFragment "##Bound" = .ok (.symbol ⟨.sum, "Bound", [], none⟩) :=
    @Scope.parseFragment_mark partsScope .sum "Bound" (by decide) (by decide) rfl
  have hstalls : partsScope.parseFragment "STALLS" = .ok (.symbol (.bare "STALLS")) :=
    Scope.parseFragment_of_render rfl rfl (by decide) (by decide)
  have hhidden : partsScope.step (.bare "Hidden") = .ok (.symbol (.bare "STALLS")) :=
    congrArg (Except.map Expr.bracket) hstalls
  have hfirst : partsScope.substitute (.symbol ⟨.sum, "Bound", [], none⟩) = .ok
      (partsTree (.symbol (.bare "Fetch")) (.symbol (.bare "Hidden"))
        (.symbol (.bare "Missing"))) := rfl
  have hsecond : partsScope.substitute
      (partsTree (.symbol (.bare "Fetch")) (.symbol (.bare "Hidden"))
        (.symbol (.bare "Missing"))) = .ok
      (partsTree (.metric "tma_fetch") (.symbol (.bare "STALLS")) (.num "0")) := by
    simp only [partsTree, Scope.substitute, hhidden]
    rfl
  have hthird : partsScope.substitute
      (.paren (.binary .add (.metric "tma_fetch") (.symbol (.bare "STALLS")))) =
        .ok partsResult := rfl
  have hafterFirst := Scope.settle_of_pass rfl hfirst
    (show _ = partsTree (.symbol (.bare "Fetch")) (.symbol (.bare "Hidden"))
      (.symbol (.bare "Missing")) by decide +kernel) 63
  have hafterSecond := Scope.settle_of_pass (by decide) hsecond
    (show _ = .paren (.binary .add (.metric "tma_fetch") (.symbol (.bare "STALLS")))
      by decide +kernel) 62
  have hafterThird := Scope.settle_of_pass (by decide) hthird
    (show _ = partsResult by decide +kernel) 61
  have hdone := partsScope.settle_of_done (show partsResult.hasSymbols = false by decide) 61
  refine ⟨hparse, ?_⟩
  rw [(Scope.resolve_of_parse hparse (Expr.simplified_symbol _)).1]
  exact hafterFirst.1.trans (hafterSecond.1.trans (hafterThird.1.trans hdone.1))

theorem child_references_name_metrics_parts :
    buildTable partsText "SKL" ⟨"SKL", [], none⟩ partsRules = .ok partsTable ∧
      partsTable.contents.symbols.NamesChildren ∧ partsScope.ReplacesChildren ∧
      partsScope.table.childrenOf "Bound" = ["Fetch", "Hidden", "Missing"] ∧
      partsScope.resolve "##Bound" = .ok partsResult ∧
      ∃ replacements tree,
        List.Forall₂ partsScope.ReplacesChild ["Fetch", "Hidden", "Missing"] replacements ∧
        partsScope.Expands replacements ⟨.sum, "Bound", [], none⟩ tree ∧
        partsScope.settle 62 tree.simplified = .ok partsResult := by
  obtain ⟨hchildren, hscopes⟩ := child_references_name_metrics buildTable_partsText
  have htable : partsScope.table = partsTable.contents.symbols := by
    rw [partsScope, Scope.ofArch]
  have hreplaces := hscopes partsScope htable
  have hbound : partsScope.table.childrenOf "Bound" = ["Fetch", "Hidden", "Missing"] := by
    decide +kernel
  obtain ⟨hparse, hresolve⟩ := resolve_parts
  have hexpands := hreplaces.expands _ _ _ (.inl rfl) hparse hresolve
  rw [hbound] at hexpands
  exact ⟨buildTable_partsText, hchildren, hreplaces, hbound, hresolve, hexpands⟩

end TopdownMetrics

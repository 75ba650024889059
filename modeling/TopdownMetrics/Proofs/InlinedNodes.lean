import TopdownMetrics.Proofs.ResolvedMeaning
import TopdownMetrics.Proofs.RowReferences

/-!
# Nodes in formulas and nodes as metrics

A reference `#name` to a node is replaced by the formula of the last row of the node, while
the record of the node is made from its first row that can be emitted, or from a formula that
the rules force on it.  If both read as the same tree, the reference and the record have the
same value; otherwise nothing keeps them together.
-/

namespace TopdownMetrics

open Formula

/-- The names that are constants after `#`, whatever nodes a table has. -/
def Rules.IsConstant (rules : Rules) (name : String) : Prop :=
  name ∈ rules.context.keep ∨ (rules.context.replacements.lookup name).isSome = true ∨
    name = "Memory"

/-- The slots term stands for zero. -/
def SlotsRule.IsNeutral (slots : SlotsRule) (ι : Interpretation)
    (symbols : Symbol → ℚ) : Prop :=
  ∀ term, parse slots.term = .ok term → term.value ι symbols = 0

namespace Formula

/-! ## Passes and parentheses -/

theorem Expr.simplifyOnce_paren (e : Expr) :
    (Expr.paren e).simplifyOnce = (.paren e.simplifyOnce.1, e.simplifyOnce.2) := by
  have hnode : (Expr.paren e.simplifyOnce.1).foldNode = (.paren e.simplifyOnce.1, false) := rfl
  rw [Expr.simplifyOnce]
  simp [hnode]

theorem Expr.simplified_paren (e : Expr) : (Expr.paren e).simplified = .paren e.simplified := by
  unfold simplified
  fun_induction simplify e with
  | case1 e e' hpass ih =>
    rw [Expr.simplify]
    split
    · rename_i inner hparen
      rw [simplifyOnce_paren, hpass] at hparen
      cases hparen
      exact ih
    · rename_i inner hparen
      rw [simplifyOnce_paren, hpass] at hparen
      cases hparen
  | case2 e e' hpass =>
    rw [Expr.simplify]
    split
    · rename_i inner hparen
      rw [simplifyOnce_paren, hpass] at hparen
      cases hparen
    · rename_i inner hparen
      rw [simplifyOnce_paren, hpass] at hparen
      cases hparen
      rfl

namespace Scope

variable {s : Scope} {e f : Expr} {passes : Nat}

theorem settle_of_le {more : Nat} (hle : passes ≤ more) (h : s.settle passes e = .ok f) :
    s.settle more e = .ok f := by
  induction passes generalizing e more with
  | zero =>
    unfold settle at h
    split at h
    · cases h
    · rename_i hsymbols
      cases h
      exact (s.settle_of_done (Bool.eq_false_iff.2 hsymbols) more).1
  | succ passes ih =>
    obtain ⟨more, rfl⟩ := Nat.exists_eq_add_of_lt hle
    unfold settle at h ⊢
    split
    · rename_i hsymbols
      rw [if_pos hsymbols] at h
      obtain ⟨g, hsubstitute, h⟩ := bind_eq_ok_iff.1 h
      rw [hsubstitute]
      exact ih (Nat.le_add_right passes more) h
    · rename_i hsymbols
      rwa [if_neg hsymbols] at h

theorem settle_paren (s : Scope) (passes : Nat) (e : Expr) :
    s.settle passes (.paren e) = (s.settle passes e).map .paren := by
  induction passes generalizing e with
  | zero =>
    unfold settle
    rw [Expr.hasSymbols]
    split
    · rfl
    · rfl
  | succ passes ih =>
    unfold settle
    rw [Expr.hasSymbols]
    split
    · rw [substitute]
      cases s.substitute e with
      | error cause => rfl
      | ok f =>
        have hsettle := ih f.simplified
        rw [← Expr.simplified_paren] at hsettle
        exact hsettle
    · rfl

/-- A tree that is put in place of a reference settles as it does alone, up to the
parentheses. -/
theorem settle_bracket (h : s.settle passes e.bracket.simplified = .ok f) :
    ∃ g, s.settle passes e.simplified = .ok g ∧ (f = g ∨ f = .paren g) := by
  unfold Expr.bracket at h
  split at h
  · exact ⟨f, h, .inl rfl⟩
  · rw [Expr.simplified_paren, settle_paren] at h
    obtain ⟨g, hg, rfl⟩ := map_eq_ok_iff.1 h
    exact ⟨g, hg, .inr rfl⟩

theorem resolve_symbol {reference : String} {symbol : Symbol}
    (hparse : s.parseFragment reference = .ok (.symbol symbol))
    (hresolve : s.resolve reference = .ok f) :
    ∃ g, s.step symbol = .ok g ∧ s.settle (passLimit - 1) g.simplified = .ok f := by
  rw [(resolve_of_parse hparse (Expr.simplified_symbol symbol)).1,
    show passLimit = passLimit - 1 + 1 from rfl, settle, Expr.hasSymbols, if_pos rfl] at hresolve
  exact bind_eq_ok_iff.1 hresolve

theorem resolve_congr {formula other : String}
    (h : s.parseFragment formula = s.parseFragment other) :
    s.resolve formula = s.resolve other := by
  unfold resolve
  rw [h]

theorem step_node {name fragment : String} (hconstant : ¬ s.rules.IsConstant name)
    (hnode : s.table.nodes[name]? = some fragment) (modifiers : List String)
    (terms : Option String) :
    s.step ⟨.hash, name, modifiers, terms⟩ = (s.parseFragment fragment).map Expr.bracket := by
  unfold Rules.IsConstant at hconstant
  rw [not_or, not_or, Option.not_isSome_iff_eq_none] at hconstant
  obtain ⟨hkeep, hreplaced, hmemory⟩ := hconstant
  show s.hashReference name = _
  simp [hashReference, hkeep, hreplaced, hmemory, hnode]

/-- A reference to a node resolves to what the formula of the node resolves to, up to the
parentheses. -/
theorem resolve_node {name reference fragment : String} {modifiers : List String}
    {terms : Option String} {inlined : Expr} (hconstant : ¬ s.rules.IsConstant name)
    (hnode : s.table.nodes[name]? = some fragment)
    (hparse : s.parseFragment reference = .ok (.symbol ⟨.hash, name, modifiers, terms⟩))
    (hresolve : s.resolve reference = .ok inlined) :
    ∃ node, s.resolve fragment = .ok node ∧ (inlined = node ∨ inlined = .paren node) := by
  obtain ⟨definition, hstep, hsettle⟩ := resolve_symbol hparse hresolve
  rw [step_node hconstant hnode] at hstep
  obtain ⟨source, hsource, rfl⟩ := map_eq_ok_iff.1 hstep
  obtain ⟨node, hsettled, hinlined⟩ := settle_bracket hsettle
  refine ⟨node, ?_, hinlined⟩
  rw [(resolve_of_parse hsource rfl).1]
  exact settle_of_le (Nat.sub_le passLimit 1) hsettled

end Scope

theorem value_withCompanionSlots {slots : SlotsRule} {e tree : Expr} {ι : Interpretation}
    {symbols : Symbol → ℚ} (h : withCompanionSlots slots e = .ok tree)
    (hneutral : slots.IsNeutral ι symbols) : tree.value ι symbols = e.value ι symbols := by
  unfold withCompanionSlots at h
  dsimp only at h
  split at h
  · obtain ⟨term, hterm, h⟩ := bind_eq_ok_iff.1 h
    cases h
    rw [Expr.value, hneutral term hterm, Interpretation.apply, add_zero]
    cases e <;> rfl
  · cases h
    rfl

end Formula

/-! ## The nodes of a table -/

/-- The last row of a node. -/
def lastNodeRow? (specs : List MetricSpec) (name : String) : Option MetricSpec :=
  specs.findRev? fun spec => decide spec.IsNode && spec.tableName == name

namespace Text

theorem length_lowerFrom (before cs : List Char) :
    cs.length ≤ (lowerFrom before cs).length := by
  induction cs generalizing before with
  | nil => exact Nat.zero_le _
  | cons c cs ih =>
    have hlower : (lowerChar c).length ≠ 0 := by
      unfold lowerChar
      split_ifs <;> simp
    have hrest := ih (c :: before)
    simp only [lowerFrom, List.length_append, List.length_cons]
    split_ifs
    · rw [List.length_singleton]
      omega
    · rw [List.length_singleton]
      omega
    · omega

end Text

/-- The prefix makes the name of a node longer. -/
theorem SymbolTable.nodeMetricName_ne (name : String) : nodeMetricName name ≠ name := by
  intro h
  have hlength := congrArg (fun text => text.toList.length) h
  have hlower := Text.length_lowerFrom [] name.toList
  simp [nodeMetricName, Text.lower] at hlength
  omega

namespace TableReading

variable {t : TableReading} {symbols : SymbolTable}

/-- What a row yields for the nodes: it is listed as a node and writes its formula under the
name of the node, or it is not and leaves the nodes alone. -/
def WritesNode (symbols : SymbolTable) (c : RowContents) : Prop :=
  ((∀ spec, c.metric = some spec → ¬ spec.IsNode) ∧ c.symbols.nodes = symbols.nodes) ∨
    ∃ spec, c.metric = some spec ∧ spec.IsNode ∧
      c.symbols.nodes = symbols.nodes.insert spec.tableName spec.formula

theorem WritesNode.of_none {c : RowContents} (hmetric : c.metric = none)
    (hnodes : c.symbols.nodes = symbols.nodes) : WritesNode symbols c := by
  refine .inl ⟨?_, hnodes⟩
  intro spec hspec
  exact absurd (hmetric.symm.trans hspec) nofun

theorem WritesNode.with_diagnostics {c : RowContents} (h : WritesNode symbols c)
    (findings : List Diagnostic) : WritesNode symbols { c with diagnostics := findings } := by
  unfold WritesNode at h ⊢
  exact h

theorem addTopdownRow_writesNode (t : TableReading) (symbols : SymbolTable) (row : Row)
    (hint : Option String) : WritesNode symbols (t.addTopdownRow symbols row hint) := by
  rcases t.addTopdownRow_cases symbols row hint with
    ⟨hmetric, _, hnodes⟩ | ⟨spec, hmetric, hnode, _, _, hnodes⟩
  · exact .of_none hmetric hnodes
  · exact .inr ⟨spec, hmetric, hnode, hnodes⟩

theorem addInfoRow_writesNode (t : TableReading) (symbols : SymbolTable) (row : Row)
    (hint : Option String) : WritesNode symbols (t.addInfoRow symbols row hint) := by
  unfold addInfoRow
  cases t.formula? row with
  | none => exact .of_none rfl rfl
  | some formula =>
    refine .inl ⟨?_, rfl⟩
    rintro _ ⟨⟩ hnode
    exact SymbolTable.nodeMetricName_ne _ hnode.symm

theorem addAuxRow_writesNode (t : TableReading) (symbols : SymbolTable) (row : Row) :
    WritesNode symbols (t.addAuxRow symbols row) := by
  unfold addAuxRow
  cases t.formula? row with
  | none => exact .of_none rfl rfl
  | some formula =>
    dsimp only
    split
    · exact .of_none rfl rfl
    · exact .of_none rfl rfl

theorem addRow_writesNode (t : TableReading) (symbols : SymbolTable) (row : Row) :
    WritesNode symbols (t.addRow symbols row) := by
  unfold addRow
  refine WritesNode.with_diagnostics ?_ _
  cases t.rowKind row with
  | topdown => exact t.addTopdownRow_writesNode symbols row (t.locate row).1
  | info => exact t.addInfoRow_writesNode symbols row (t.locate row).1
  | aux => exact t.addAuxRow_writesNode symbols row
  | other => exact .of_none rfl rfl

theorem getElem?_nodes_addRows (t : TableReading) (symbols : SymbolTable) (rows : List Row)
    (name : String) :
    (t.addRows symbols rows).symbols.nodes[name]? =
      ((lastNodeRow? (t.addRows symbols rows).metrics name).map (·.formula)).or
        symbols.nodes[name]? := by
  refine @getElem?_addRows_of_writes t SymbolTable.nodes (fun spec => decide spec.IsNode) ?_
    symbols rows name
  intro symbols row
  rcases t.addRow_writesNode symbols row with ⟨hother, hnodes⟩ | ⟨spec, hmetric, hnode, hnodes⟩
  · refine .inl ⟨?_, hnodes⟩
    intro spec hspec
    exact decide_eq_false (hother spec hspec)
  · exact .inr ⟨spec, hmetric, decide_eq_true hnode, hnodes⟩

end TableReading

/-- The formula kept for a node is that of the last row of the node. -/
theorem getElem?_nodes_of_buildTable {text arch : String} {column : FormulaColumn}
    {rules : Rules} {built : BuiltTable} (h : buildTable text arch column rules = .ok built)
    (name : String) :
    built.contents.symbols.nodes[name]? =
      (lastNodeRow? built.contents.metrics name).map (·.formula) := by
  obtain ⟨t, rows, hcontents⟩ := exists_of_buildTable h
  rw [hcontents]
  simpa using t.getElem?_nodes_addRows {} rows name

theorem exists_lastNodeRow {specs : List MetricSpec} {spec : MetricSpec} (hspec : spec ∈ specs)
    (hnode : spec.IsNode) : ∃ last, lastNodeRow? specs spec.tableName = some last := by
  have hlisted : (decide spec.IsNode && spec.tableName == spec.tableName) = true := by
    simp [hnode]
  obtain ⟨last, _, hlast⟩ := @exists_findRev?_of_mem _ specs
    (fun other => decide other.IsNode && other.tableName == spec.tableName) spec hspec hlisted
  exact ⟨last, hlast⟩

/-! ## The records of nodes -/

/-- The tree of the record of a row, with the slots term where it is needed. -/
def Formula.Scope.RecordTree (s : Scope) (spec : MetricSpec) (tree : Expr) : Prop :=
  ∃ own, s.resolve (s.recordFormula spec) = .ok own ∧
    withCompanionSlots s.rules.slots own = .ok tree

/-- A reference to a node resolves to what the last row of the node says.  If that reads as
the same tree as the formula of an emitted row of the node, the reference and the record have
the same value. -/
theorem value_of_node_reference {ctx : ExtractionContext} {text : String}
    {column : FormulaColumn} {built : BuiltTable} {extra : List ExtraMetric}
    {spec : MetricSpec} {reference : String} {modifiers : List String} {terms : Option String}
    {inlined : Expr} (hbuilt : buildTable text ctx.arch column ctx.rules = .ok built)
    (hspec : spec ∈ built.contents.metrics) (hnode : spec.IsNode)
    (hemitted : EmitsRow ctx extra text built.contents spec)
    (hconstant : ¬ ctx.rules.IsConstant spec.tableName)
    (hparse : (Scope.ofArch built.contents.symbols ctx.rules ctx.arch ctx.pmu).parseFragment
      reference = .ok (.symbol ⟨.hash, spec.tableName, modifiers, terms⟩))
    (hresolve : (Scope.ofArch built.contents.symbols ctx.rules ctx.arch ctx.pmu).resolve
      reference = .ok inlined) :
    let scope := Scope.ofArch built.contents.symbols ctx.rules ctx.arch ctx.pmu
    ∃ last node tree, lastNodeRow? built.contents.metrics spec.tableName = some last ∧
      scope.resolve last.formula = .ok node ∧ (inlined = node ∨ inlined = .paren node) ∧
      scope.RecordTree spec tree ∧
      (∃ r ∈ (extractMetrics ctx extra text).metrics, r.name = spec.name ∧
        r.expr = tree.render) ∧
      (scope.parseFragment (scope.recordFormula spec) = scope.parseFragment last.formula →
        ∀ (ι : Interpretation) (symbols : Symbol → ℚ), ctx.rules.slots.IsNeutral ι symbols →
          inlined.value ι symbols = tree.value ι symbols) := by
  intro scope
  obtain ⟨last, hlast⟩ := exists_lastNodeRow hspec hnode
  have hformula : scope.table.nodes[spec.tableName]? = some last.formula := by
    have hnodes := getElem?_nodes_of_buildTable hbuilt spec.tableName
    rw [hlast] at hnodes
    exact hnodes
  obtain ⟨node, hlastResolve, hinlined⟩ := Scope.resolve_node hconstant hformula hparse hresolve
  obtain ⟨d, hdraft, hrecord⟩ := hemitted
  obtain ⟨_, _, _, text, htext, rfl⟩ := draftOfSpec_eq_ok_iff.1 hdraft
  obtain ⟨own, tree, hown, htree, rfl⟩ := resolveText_eq_ok_iff.1 htext
  refine ⟨last, node, tree, hlast, hlastResolve, hinlined, ⟨own, hown, htree⟩,
    ⟨_, hrecord, rfl, rfl⟩, ?_⟩
  intro hsame ι symbols hneutral
  have hnode : own = node := by
    rw [Scope.resolve_congr hsame, hlastResolve] at hown
    exact (Except.ok.inj hown).symm
  have hvalue : inlined.value ι symbols = node.value ι symbols := by
    rcases hinlined with rfl | rfl
    · rfl
    · rfl
  rw [hvalue, ← hnode, value_withCompanionSlots htree hneutral]

/-! ### A repeated node -/

/-- The rows of `Bound` count different events, and the event of `Rest` asks for slots. -/
def boundText : String :=
  "Key,Level1,Metric Description,SKL\nFE,Bound,Idle,CYCLES\nFE,Bound,Idle,INSTS\nFE,Rest,Other,topdown_rest\n"

def boundTable : BuiltTable :=
  ⟨"SKL", TableReading.addRows
    ⟨⟨["Key", "Level1", "Metric Description", "SKL"]⟩, ["SKL"], "SKL", plainRules⟩ {}
    [["FE", "Bound", "Idle", "CYCLES"], ["FE", "Bound", "Idle", "INSTS"],
      ["FE", "Rest", "Other", "topdown_rest"]]⟩

theorem buildTable_boundText :
    buildTable boundText "SKL" ⟨"SKL", [], none⟩ plainRules = .ok boundTable :=
  buildTable_of_split (by cbv) rfl rfl rfl

def boundContext : ExtractionContext :=
  { plainContext with
    catalog := ({} : EventCatalog).registerAll
      [{ name := "CYCLES" }, { name := "INSTS" }, { name := "topdown_rest" },
        { name := "SLOTS" }] }

def boundScope : Scope :=
  Scope.ofArch boundTable.contents.symbols plainRules "SKL" "cpu"

/-- A row of a node of the first level for which nothing but a formula is given. -/
def nodeRow (name description formula : String) : MetricSpec :=
  ⟨SymbolTable.nodeMetricName name, name, formula, description, some "TopdownL1", none,
    some "100%"⟩

def nodeDraft (name description formula : String) : Draft :=
  ⟨SymbolTable.nodeMetricName name, formula, some "TopdownL1", description, none,
    some "100%", true⟩

theorem metrics_boundTable :
    boundTable.contents.metrics =
      [nodeRow "Bound" "Idle" "CYCLES", nodeRow "Bound" "Idle" "INSTS",
        nodeRow "Rest" "Other" "topdown_rest"] :=
  rfl

theorem draftOfSpec_nodeRow {name description formula text : String}
    (havailable : isUnavailable formula = false)
    (htext : resolveText boundScope formula = .ok text) :
    draftOfSpec boundContext boundScope (nodeRow name description formula) =
      .ok (nodeDraft name description text) :=
  draftOfSpec_eq_ok_iff.2 ⟨List.not_mem_nil, List.not_mem_nil, havailable, text, htext, rfl⟩

theorem parseFragment_events :
    boundScope.parseFragment "CYCLES" = .ok (.symbol (.bare "CYCLES")) ∧
      boundScope.parseFragment "INSTS" = .ok (.symbol (.bare "INSTS")) ∧
      boundScope.parseFragment "topdown_rest" = .ok (.symbol (.bare "topdown_rest")) :=
  ⟨Scope.parseFragment_of_render rfl rfl (by decide) (by decide),
    Scope.parseFragment_of_render rfl rfl (by decide) (by decide),
    Scope.parseFragment_of_render rfl rfl (by decide) (by decide)⟩

/-- A reference to a node that counts one event. -/
theorem resolve_reference_of_event {s : Scope} {reference name event : String}
    (hparse : s.parseFragment reference = .ok (.symbol ⟨.hash, name, [], none⟩))
    (hconstant : ¬ s.rules.IsConstant name) (hnode : s.table.nodes[name]? = some event)
    (hevent : s.parseFragment event = .ok (.symbol (.bare event)))
    (hinfo : s.table.info[event]? = none) :
    s.resolve reference = .ok (.event (.plain event)) := by
  have hstep : s.substitute (.symbol ⟨.hash, name, [], none⟩) = .ok (.symbol (.bare event)) := by
    rw [Scope.substitute, Scope.step_node hconstant hnode, hevent]
    rfl
  rw [(Scope.resolve_of_parse hparse (Expr.simplified_symbol _)).1,
    show passLimit = 62 + 1 + 1 from rfl,
    (Scope.settle_of_pass rfl hstep (Expr.simplified_symbol _) (62 + 1)).1]
  exact Scope.settle_of_event hinfo 62

/-- The slots term of the rules. -/
def zeroSlots : Expr :=
  .binary .mul (.num "0") (.symbol (.bare "SLOTS"))

theorem parse_zeroSlots : parse "0 * SLOTS" = .ok zeroSlots :=
  Expr.Levelled.parse_render (show zeroSlots.Levelled by decide) (by decide)

theorem isNeutral_of_parse {slots : SlotsRule} (hslots : parse slots.term = .ok zeroSlots)
    (ι : Interpretation) (symbols : Symbol → ℚ) : slots.IsNeutral ι symbols := by
  intro term hterm
  obtain rfl := Except.ok.inj (hterm.symm.trans hslots)
  rw [zeroSlots, Expr.value, Expr.value, number_zero, Interpretation.apply, zero_mul]

theorem isNeutral_zeroSlots (ι : Interpretation) (symbols : Symbol → ℚ) :
    plainRules.slots.IsNeutral ι symbols :=
  isNeutral_of_parse parse_zeroSlots ι symbols

def restTree : Expr :=
  .binary .add (.event (.plain "topdown_rest")) zeroSlots

theorem withCompanionSlots_topdown_rest :
    withCompanionSlots plainRules.slots (.event (.plain "topdown_rest")) = .ok restTree := by
  have hfamily : Text.contains "topdown_rest" "topdown" = true := rfl
  have htoken : Text.contains "topdown_rest" "SLOTS" = false := rfl
  have hrender : (Expr.event (.plain "topdown_rest")).render = "topdown_rest" := rfl
  unfold withCompanionSlots
  rw [hrender]
  show (if Text.contains "topdown_rest" "topdown" && !Text.contains "topdown_rest" "SLOTS" then _
    else _) = _
  rw [hfamily, htoken]
  exact bind_eq_ok_iff.2 ⟨zeroSlots, parse_zeroSlots, rfl⟩

theorem draftOfSpec_boundScope :
    draftOfSpec boundContext boundScope (nodeRow "Bound" "Idle" "CYCLES") =
        .ok (nodeDraft "Bound" "Idle" "CYCLES") ∧
      draftOfSpec boundContext boundScope (nodeRow "Bound" "Idle" "INSTS") =
        .ok (nodeDraft "Bound" "Idle" "INSTS") ∧
      draftOfSpec boundContext boundScope (nodeRow "Rest" "Other" "topdown_rest") =
        .ok (nodeDraft "Rest" "Other" "topdown_rest + 0 * SLOTS") := by
  obtain ⟨hcycles, hinsts, hrest⟩ := parseFragment_events
  have hslots : resolveText boundScope "topdown_rest" = .ok "topdown_rest + 0 * SLOTS" :=
    resolveText_eq_ok_iff.2 ⟨_, restTree, Scope.resolve_of_event hrest rfl,
      withCompanionSlots_topdown_rest, rfl⟩
  exact ⟨draftOfSpec_nodeRow (by decide)
      (resolveText_of_event hcycles rfl rfl),
    draftOfSpec_nodeRow (by decide)
      (resolveText_of_event hinsts rfl rfl),
    draftOfSpec_nodeRow (by decide) hslots⟩

theorem records_boundText :
    (extractMetrics boundContext [] boundText).metrics =
      [(nodeDraft "Bound" "Idle" "CYCLES").toMetric plainRules "cpu",
        (nodeDraft "Rest" "Other" "topdown_rest + 0 * SLOTS").toMetric plainRules "cpu"] := by
  obtain ⟨hcycles, hinsts, hrest⟩ := draftOfSpec_boundScope
  have huncore : uncoreFrequency? boundScope = none :=
    uncoreFrequency?_eq_none rfl
  have hdrafts : extractionDrafts boundContext [] boundTable.contents =
      [nodeDraft "Bound" "Idle" "CYCLES", nodeDraft "Bound" "Idle" "INSTS",
        nodeDraft "Rest" "Other" "topdown_rest + 0 * SLOTS"] := by
    show (partitionDrafts (boundTable.contents.metrics.map (draftOfSpec boundContext boundScope) ++
      (uncoreFrequency? boundScope).toList)).1 ++ [] = _
    rw [metrics_boundTable, huncore]
    simp only [List.map_cons, List.map_nil, hcycles, hinsts, hrest]
    rfl
  have hcolumn : boundContext.rules.columnFor? boundContext.arch = some ⟨"SKL", [], none⟩ := by
    decide
  rw [extractMetrics_of_buildTable hcolumn buildTable_boundText, extractContents_metrics,
    hdrafts]
  decide +kernel

theorem emitsRow_bound :
    EmitsRow boundContext [] boundText boundTable.contents (nodeRow "Bound" "Idle" "CYCLES") ∧
      EmitsRow boundContext [] boundText boundTable.contents
        (nodeRow "Rest" "Other" "topdown_rest") := by
  obtain ⟨hcycles, _, hrest⟩ := draftOfSpec_boundScope
  refine ⟨⟨_, hcycles, ?_⟩, ⟨_, hrest, ?_⟩⟩
  · rw [records_boundText]
    exact List.mem_cons_self
  · rw [records_boundText]
    exact List.mem_cons_of_mem _ List.mem_cons_self

theorem not_isConstant_plainRules {name : String} (hname : name ≠ "Memory") :
    ¬ plainRules.IsConstant name := by
  rintro (hkeep | hreplaced | hmemory)
  · exact List.not_mem_nil hkeep
  · cases hreplaced
  · exact hname hmemory

theorem Formula.Scope.RecordTree.unique {s : Scope} {spec : MetricSpec} {tree other : Expr}
    (h : s.RecordTree spec tree) (hother : s.RecordTree spec other) : tree = other := by
  obtain ⟨own, hown, htree⟩ := h
  obtain ⟨own', hown', hother⟩ := hother
  obtain rfl := Except.ok.inj (hown.symm.trans hown')
  exact Except.ok.inj (htree.symm.trans hother)

/-- `Rest` stands in one row, so that its record and a reference to it differ in the slots term
only. -/
theorem value_of_rest_reference :
    EmitsRow boundContext [] boundText boundTable.contents
        (nodeRow "Rest" "Other" "topdown_rest") ∧
      nodeRow "Rest" "Other" "topdown_rest" ∈ boundTable.contents.metrics ∧
      (nodeRow "Rest" "Other" "topdown_rest").IsNode ∧ ¬ plainRules.IsConstant "Rest" ∧
      boundScope.parseFragment "#Rest" = .ok (.symbol ⟨.hash, "Rest", [], none⟩) ∧
      boundScope.resolve "#Rest" = .ok (.event (.plain "topdown_rest")) ∧
      boundScope.RecordTree (nodeRow "Rest" "Other" "topdown_rest") restTree ∧
      ∀ (ι : Interpretation) (symbols : Symbol → ℚ),
        (Expr.event (.plain "topdown_rest")).value ι symbols = restTree.value ι symbols := by
  have hmem : nodeRow "Rest" "Other" "topdown_rest" ∈ boundTable.contents.metrics := by
    rw [metrics_boundTable]
    simp
  have hconstant : ¬ plainRules.IsConstant "Rest" := not_isConstant_plainRules (by decide)
  have hparse : boundScope.parseFragment "#Rest" = .ok (.symbol ⟨.hash, "Rest", [], none⟩) :=
    Scope.parseFragment_of_render rfl rfl (by decide) (by decide)
  have hevent := parseFragment_events.2.2
  have hinfo : boundScope.table.info["topdown_rest"]? = none := rfl
  have hresolve : boundScope.resolve "#Rest" = .ok (.event (.plain "topdown_rest")) :=
    resolve_reference_of_event hparse hconstant rfl hevent hinfo
  have htree : boundScope.RecordTree (nodeRow "Rest" "Other" "topdown_rest") restTree :=
    ⟨_, Scope.resolve_of_event hevent hinfo, withCompanionSlots_topdown_rest⟩
  refine ⟨emitsRow_bound.2, hmem, rfl, hconstant, hparse, hresolve, htree, ?_⟩
  intro ι symbols
  obtain ⟨last, node, tree, hlast, _, _, htree', _, hvalue⟩ :=
    @value_of_node_reference boundContext _ _ _ _ _ _ _ _ _ buildTable_boundText hmem rfl
      emitsRow_bound.2 hconstant hparse hresolve
  have hformula : last = nodeRow "Rest" "Other" "topdown_rest" := by
    rw [metrics_boundTable] at hlast
    exact (Option.some.inj hlast).symm
  rw [htree.unique htree']
  exact hvalue (by rw [hformula]; rfl) ι symbols (isNeutral_zeroSlots ι symbols)

/-- An interpretation under which nothing but cycles is counted. -/
def cyclesOnly : Interpretation :=
  { cyclicInterpretation with event := fun e => if e.name = "CYCLES" then 1 else 0 }

/-- The record of `Bound` counts cycles, yet a reference to it counts instructions. -/
theorem value_of_bound_reference :
    EmitsRow boundContext [] boundText boundTable.contents (nodeRow "Bound" "Idle" "CYCLES") ∧
      nodeRow "Bound" "Idle" "CYCLES" ∈ boundTable.contents.metrics ∧
      (nodeRow "Bound" "Idle" "CYCLES").IsNode ∧ ¬ plainRules.IsConstant "Bound" ∧
      boundScope.parseFragment "#Bound" = .ok (.symbol ⟨.hash, "Bound", [], none⟩) ∧
      boundScope.resolve "#Bound" = .ok (.event (.plain "INSTS")) ∧
      boundScope.RecordTree (nodeRow "Bound" "Idle" "CYCLES") (.event (.plain "CYCLES")) ∧
      (∃ r ∈ (extractMetrics boundContext [] boundText).metrics, r.name = "tma_bound" ∧
        r.expr = "CYCLES") ∧
      ∃ (ι : Interpretation) (symbols : Symbol → ℚ), plainRules.slots.IsNeutral ι symbols ∧
        (Expr.event (.plain "INSTS")).value ι symbols ≠
          (Expr.event (.plain "CYCLES")).value ι symbols := by
  have hmem : nodeRow "Bound" "Idle" "CYCLES" ∈ boundTable.contents.metrics := by
    rw [metrics_boundTable]
    simp
  have hconstant : ¬ plainRules.IsConstant "Bound" := not_isConstant_plainRules (by decide)
  have hparse : boundScope.parseFragment "#Bound" =
      .ok (.symbol ⟨.hash, "Bound", [], none⟩) :=
    Scope.parseFragment_of_render rfl rfl (by decide) (by decide)
  have hresolve : boundScope.resolve "#Bound" = .ok (.event (.plain "INSTS")) :=
    resolve_reference_of_event hparse hconstant rfl parseFragment_events.2.1 rfl
  have htree : boundScope.RecordTree (nodeRow "Bound" "Idle" "CYCLES")
      (.event (.plain "CYCLES")) :=
    ⟨_, Scope.resolve_of_event parseFragment_events.1 rfl,
      withCompanionSlots_of_not_family rfl⟩
  refine ⟨emitsRow_bound.1, hmem, rfl, hconstant, hparse, hresolve, htree, ?_,
    cyclesOnly, fun _ => 0, isNeutral_zeroSlots _ _, ?_⟩
  · rw [records_boundText]
    exact ⟨_, List.mem_cons_self, rfl, rfl⟩
  · simp [Expr.value, cyclesOnly, EventRef.plain]

end TopdownMetrics

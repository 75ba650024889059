import TopdownMetrics.Proofs.EmittedRecords
import TopdownMetrics.Proofs.TableRows

/-!
# The place of auxiliary rows

An auxiliary row lists no metric and only keeps a fragment under its name.  So reading a table
is reading its other rows, with the fragments of its auxiliary rows put in at the end.  If the
names are distinct, the order in which they are put in does not matter either, and a formula is
resolved against the fragments of the whole table: auxiliary rows may stand anywhere.
-/

namespace TopdownMetrics

namespace SymbolTable

/-- The name under which a fragment is kept: one mark in front is left out. -/
def auxKey (name : String) : String :=
  match name.toList with
  | '#' :: cs => String.ofList cs
  | _ => name

/-- The same symbols with other fragments. -/
def withAux (symbols : SymbolTable) (aux : Std.TreeMap String String) : SymbolTable :=
  { symbols with aux := aux }

end SymbolTable

namespace Header

/-- The key of the row starts with `Aux`, and no kind that is looked at before claims it. -/
def IsAuxRow (h : Header) (rules : Rules) (row : Row) : Prop :=
  (∀ start ∈ rules.topdownPrefixes, Text.startsWith (h.cell row keyColumn) start = false) ∧
    Text.startsWith (h.cell row keyColumn) "Info" = false ∧
    Text.startsWith (h.cell row keyColumn) "Aux" = true

instance (h : Header) (rules : Rules) : DecidablePred (h.IsAuxRow rules) := fun row =>
  inferInstanceAs (Decidable (
    (∀ start ∈ rules.topdownPrefixes, Text.startsWith (h.cell row keyColumn) start = false) ∧
      Text.startsWith (h.cell row keyColumn) "Info" = false ∧
      Text.startsWith (h.cell row keyColumn) "Aux" = true))

def auxName (h : Header) (row : Row) : String :=
  SymbolTable.auxKey (h.cell row firstLevelColumn)

/-- Two tables under one header have the same rows in the same order, but for the places of
their auxiliary rows. -/
structure MovesAuxRows (h : Header) (rules : Rules) (rows rows' : List Row) : Prop where
  others : rows.filter (¬ h.IsAuxRow rules ·) = rows'.filter (¬ h.IsAuxRow rules ·)
  aux : (rows.filter (h.IsAuxRow rules ·)).Perm (rows'.filter (h.IsAuxRow rules ·))

end Header

namespace TableReading

variable {t : TableReading} {symbols : SymbolTable} {row : Row} {rows : List Row}

theorem rowKind_eq_aux_iff : t.rowKind row = .aux ↔ t.header.IsAuxRow t.rules row := by
  unfold rowKind Header.IsAuxRow
  dsimp only
  split
  · rename_i htopdown
    obtain ⟨start, hstart, hmatch⟩ := List.any_eq_true.1 htopdown
    refine iff_of_false nofun ?_
    rintro ⟨hnone, -⟩
    exact absurd (hnone start hstart) (by simp [hmatch])
  · rename_i htopdown
    have hnone : ∀ start ∈ t.rules.topdownPrefixes,
        Text.startsWith (t.header.cell row Header.keyColumn) start = false := by
      simpa using htopdown
    split
    · rename_i hinfo
      simp [hinfo]
    · rename_i hinfo
      split
      · rename_i haux
        simpa [hinfo, haux] using hnone
      · rename_i haux
        simp [haux]

/-- What an auxiliary row puts in, if it has a formula that is available. -/
def fragment? (t : TableReading) (row : Row) : Option (String × String) :=
  ((t.formula? row).filter (· != "#NA")).map fun formula => (t.header.auxName row, formula)

theorem addAuxRow_eq (t : TableReading) (symbols : SymbolTable) (row : Row) :
    t.addAuxRow symbols row =
      ⟨symbols.withAux (symbols.aux.insertMany (t.fragment? row).toList), none, []⟩ := by
  unfold addAuxRow fragment?
  cases t.formula? row with
  | none => rfl
  | some formula =>
    by_cases hna : formula = "#NA"
    · subst hna
      rfl
    · have hkept : (some formula).filter (· != "#NA") = some formula := by simp [hna]
      rw [hkept]
      exact if_neg hna

theorem addTopdownRow_withAux (t : TableReading) (symbols : SymbolTable) (row : Row)
    (hint : Option String) (aux : Std.TreeMap String String) :
    t.addTopdownRow (symbols.withAux aux) row hint =
      let contents := t.addTopdownRow symbols row hint
      { contents with symbols := contents.symbols.withAux aux } := by
  have hancestors : (symbols.withAux aux).ancestors = symbols.ancestors := rfl
  unfold addTopdownRow
  rw [hancestors]
  cases t.levelAndName? row with
  | none => rfl
  | some found =>
    obtain ⟨level, name⟩ := found
    dsimp only
    cases enter? symbols.ancestors level name with
    | none => rfl
    | some ancestors =>
      dsimp only
      cases t.formula? row with
      | none => rfl
      | some formula =>
        dsimp only
        cases (if 1 < level then ancestors[level - 2]? else none) with
        | none => rfl
        | some parent => rfl

theorem addInfoRow_withAux (t : TableReading) (symbols : SymbolTable) (row : Row)
    (hint : Option String) (aux : Std.TreeMap String String) :
    t.addInfoRow (symbols.withAux aux) row hint =
      let contents := t.addInfoRow symbols row hint
      { contents with symbols := contents.symbols.withAux aux } := by
  unfold addInfoRow
  cases t.formula? row with
  | none => rfl
  | some formula => rfl

/-- A row that is not auxiliary neither reads the fragments nor changes them. -/
theorem addRow_withAux (h : ¬ t.header.IsAuxRow t.rules row) (symbols : SymbolTable)
    (aux : Std.TreeMap String String) :
    t.addRow (symbols.withAux aux) row =
      let contents := t.addRow symbols row
      { contents with symbols := contents.symbols.withAux aux } := by
  unfold addRow
  cases hkind : t.rowKind row with
  | topdown => simp only [t.addTopdownRow_withAux]
  | info => simp only [t.addInfoRow_withAux]
  | aux => exact absurd (rowKind_eq_aux_iff.1 hkind) h
  | other => rfl

theorem aux_addRow (h : ¬ t.header.IsAuxRow t.rules row) (symbols : SymbolTable) :
    (t.addRow symbols row).symbols.aux = symbols.aux :=
  congrArg (·.symbols.aux) (addRow_withAux h symbols symbols.aux)

theorem addRow_of_aux (h : t.header.IsAuxRow t.rules row) (symbols : SymbolTable) :
    (t.addRow symbols row).metric = none ∧
      (t.addRow symbols row).symbols =
        symbols.withAux (symbols.aux.insertMany (t.fragment? row).toList) := by
  unfold addRow
  rw [rowKind_eq_aux_iff.2 h]
  simp only [addAuxRow_eq, and_self]

theorem addRows_withAux (h : ∀ row ∈ rows, ¬ t.header.IsAuxRow t.rules row)
    (symbols : SymbolTable) (aux : Std.TreeMap String String) :
    t.addRows (symbols.withAux aux) rows =
      let contents := t.addRows symbols rows
      { contents with symbols := contents.symbols.withAux aux } := by
  induction rows generalizing symbols with
  | nil => rfl
  | cons row rows ih =>
    simp only [addRows, addRow_withAux (h row List.mem_cons_self),
      ih fun row hrow => h row (List.mem_cons_of_mem _ hrow)]

/-- Reading a table is reading the rows that are not auxiliary, with the fragments of those
that are put in afterwards. -/
theorem addRows_eq_filter (t : TableReading) (symbols : SymbolTable) (rows : List Row) :
    let others := t.addRows symbols (rows.filter (¬ t.header.IsAuxRow t.rules ·))
    (t.addRows symbols rows).metrics = others.metrics ∧
      (t.addRows symbols rows).symbols = others.symbols.withAux (symbols.aux.insertMany
        ((rows.filter (t.header.IsAuxRow t.rules ·)).filterMap t.fragment?)) := by
  induction rows generalizing symbols with
  | nil => exact ⟨rfl, rfl⟩
  | cons row rows ih =>
    have hothers : ∀ row ∈ rows.filter (¬ t.header.IsAuxRow t.rules ·),
        ¬ t.header.IsAuxRow t.rules row := by
      simp
    obtain ⟨hmetrics, hsymbols⟩ := ih (t.addRow symbols row).symbols
    by_cases haux : t.header.IsAuxRow t.rules row
    · obtain ⟨hnone, hafter⟩ := addRow_of_aux haux symbols
      rw [hafter, addRows_withAux hothers] at hmetrics hsymbols
      have hdropped : (row :: rows).filter (¬ t.header.IsAuxRow t.rules ·) =
          rows.filter (¬ t.header.IsAuxRow t.rules ·) :=
        List.filter_cons_of_neg (by simpa using haux)
      have hkept : (row :: rows).filter (t.header.IsAuxRow t.rules ·) =
          row :: rows.filter (t.header.IsAuxRow t.rules ·) :=
        List.filter_cons_of_pos (decide_eq_true haux)
      simp only [addRows, hnone, hafter, hdropped, hkept, Option.toList_none, List.nil_append]
      refine ⟨hmetrics, hsymbols.trans ?_⟩
      cases hfragment : t.fragment? row with
      | none => rw [List.filterMap_cons_none hfragment]; rfl
      | some fragment =>
        rw [List.filterMap_cons_some hfragment, Std.TreeMap.insertMany_cons]
        rfl
    · rw [aux_addRow haux] at hsymbols
      simp [addRows, hmetrics, hsymbols, haux]

theorem fst_of_fragment? {fragment : String × String} (h : t.fragment? row = some fragment) :
    fragment.1 = t.header.auxName row := by
  obtain ⟨formula, _, rfl⟩ := Option.map_eq_some_iff.1 h
  rfl

/-- Rows of distinct names put in fragments of distinct names. -/
theorem nodup_fragments (h : (rows.map t.header.auxName).Nodup) :
    ((rows.filterMap t.fragment?).map (·.1)).Nodup := by
  rw [List.Nodup, List.pairwise_map] at h
  rw [List.Nodup, List.pairwise_map, List.pairwise_filterMap]
  refine h.imp ?_
  intro row other hne fragment hfragment fragment' hfragment'
  rw [fst_of_fragment? hfragment, fst_of_fragment? hfragment']
  exact hne

end TableReading

/-- Entries of distinct names may be put in in any order. -/
theorem getElem?_insertMany_of_perm {entries entries' : List (String × String)}
    (hperm : entries.Perm entries') (hnames : (entries.map (·.1)).Nodup)
    (kept : Std.TreeMap String String) (name : String) :
    (kept.insertMany entries)[name]? = (kept.insertMany entries')[name]? := by
  have hdistinct : ∀ {l : List (String × String)}, (l.map (·.1)).Nodup →
      l.Pairwise fun a b => ¬ compare a.1 b.1 = .eq := by
    intro l h
    simpa [List.Nodup, List.pairwise_map] using h
  have hnames' : (entries'.map (·.1)).Nodup := (hperm.map _).nodup_iff.1 hnames
  by_cases hmem : name ∈ entries.map (·.1)
  · obtain ⟨⟨_, text⟩, hentry, rfl⟩ := List.mem_map.1 hmem
    rw [Std.TreeMap.getElem?_insertMany_list_of_mem Std.ReflCmp.compare_self (hdistinct hnames)
        hentry,
      Std.TreeMap.getElem?_insertMany_list_of_mem Std.ReflCmp.compare_self (hdistinct hnames')
        (hperm.subset hentry)]
  · have hmem' : name ∉ entries'.map (·.1) := fun h => hmem ((hperm.map _).symm.subset h)
    rw [Std.TreeMap.getElem?_insertMany_list_of_contains_eq_false (by simpa using hmem),
      Std.TreeMap.getElem?_insertMany_list_of_contains_eq_false (by simpa using hmem')]

namespace Formula.Scope

/-- The same scope with other fragments. -/
def withAux (s : Scope) (aux : Std.TreeMap String String) : Scope :=
  { s with table := s.table.withAux aux }

section

variable {s : Scope} {aux : Std.TreeMap String String}

theorem step_withAux (h : ∀ name : String, aux[name]? = s.table.aux[name]?) (symbol : Symbol) :
    (s.withAux aux).step symbol = s.step symbol := by
  obtain ⟨sigil, name, modifiers, terms⟩ := symbol
  cases sigil with
  | aggregate => rfl
  | sum => rfl
  | bare => rfl
  | hash =>
    show (s.withAux aux).hashReference name = s.hashReference name
    have hfragment : (s.withAux aux).table.nodes[name]?.or (s.withAux aux).table.aux[name]? =
        s.table.nodes[name]?.or s.table.aux[name]? :=
      congrArg s.table.nodes[name]?.or (h name)
    unfold hashReference
    rw [hfragment]
    rfl

mutual

theorem substitute_withAux (h : ∀ name : String, aux[name]? = s.table.aux[name]?) (e : Expr) :
    (s.withAux aux).substitute e = s.substitute e := by
  cases e with
  | symbol symbol => exact step_withAux h symbol
  | neg operand => simp only [substitute, substitute_withAux h operand]
  | binary op lhs rhs =>
    simp only [substitute, substitute_withAux h lhs, substitute_withAux h rhs]
  | call function arguments => simp only [substitute, substituteList_withAux h arguments]
  | cond chosen condition otherwise =>
    simp only [substitute, substitute_withAux h chosen, substitute_withAux h condition,
      substitute_withAux h otherwise]
  | paren inner => simp only [substitute, substitute_withAux h inner]
  | _ => rfl

theorem substituteList_withAux (h : ∀ name : String, aux[name]? = s.table.aux[name]?)
    (es : List Expr) : (s.withAux aux).substituteList es = s.substituteList es := by
  cases es with
  | nil => rfl
  | cons e es => simp only [substituteList, substitute_withAux h e, substituteList_withAux h es]

end

theorem settle_withAux (h : ∀ name : String, aux[name]? = s.table.aux[name]?) (passes : Nat)
    (e : Expr) : (s.withAux aux).settle passes e = s.settle passes e := by
  induction passes generalizing e with
  | zero => rfl
  | succ passes ih => simp only [settle, substitute_withAux h, ih]

/-- A formula is resolved by what is kept under each name. -/
theorem resolve_withAux (h : ∀ name : String, aux[name]? = s.table.aux[name]?)
    (formula : String) : (s.withAux aux).resolve formula = s.resolve formula := by
  have hparse : (s.withAux aux).parseFragment formula = s.parseFragment formula := rfl
  simp only [resolve, hparse, settle_withAux h]

end

end Formula.Scope

open Formula

variable {ctx : ExtractionContext} {scope : Scope} {aux : Std.TreeMap String String}

theorem draftOfSpec_withAux (h : ∀ name : String, aux[name]? = scope.table.aux[name]?)
    (spec : MetricSpec) :
    draftOfSpec ctx (scope.withAux aux) spec = draftOfSpec ctx scope spec := by
  have htext : ∀ formula, resolveText (scope.withAux aux) formula = resolveText scope formula := by
    intro formula
    unfold resolveText
    rw [Scope.resolve_withAux h]
    rfl
  simp only [draftOfSpec, htext]
  rfl

theorem uncoreFrequency?_withAux (h : ∀ name : String, aux[name]? = scope.table.aux[name]?) :
    uncoreFrequency? (scope.withAux aux) = uncoreFrequency? scope := by
  unfold uncoreFrequency? uncoreFrequencyDraft
  rw [Scope.resolve_withAux h]
  rfl

theorem extractionDrafts_withAux {contents contents' : TableContents} (extra : List ExtraMetric)
    (hmetrics : contents'.metrics = contents.metrics)
    (hsymbols : contents'.symbols = contents.symbols.withAux aux)
    (h : ∀ name : String, aux[name]? = contents.symbols.aux[name]?) :
    extractionDrafts ctx extra contents' = extractionDrafts ctx extra contents := by
  have hscope : Scope.ofArch contents'.symbols ctx.rules ctx.arch ctx.pmu =
      (Scope.ofArch contents.symbols ctx.rules ctx.arch ctx.pmu).withAux aux := by
    rw [hsymbols]
    rfl
  have hdrafts : draftOfSpec ctx
        ((Scope.ofArch contents.symbols ctx.rules ctx.arch ctx.pmu).withAux aux) =
      draftOfSpec ctx (Scope.ofArch contents.symbols ctx.rules ctx.arch ctx.pmu) :=
    funext (draftOfSpec_withAux h)
  unfold extractionDrafts
  dsimp only
  rw [hscope, hmetrics, hdrafts, uncoreFrequency?_withAux h]

theorem extractionDrafts_addRows {t : TableReading} {rows rows' : List Row}
    (extra : List ExtraMetric) (hmoved : t.header.MovesAuxRows t.rules rows rows')
    (hnames : ((rows.filter (t.header.IsAuxRow t.rules ·)).map t.header.auxName).Nodup) :
    extractionDrafts ctx extra (t.addRows {} rows) =
      extractionDrafts ctx extra (t.addRows {} rows') := by
  obtain ⟨hmetrics, hsymbols⟩ := t.addRows_eq_filter {} rows
  obtain ⟨hmetrics', hsymbols'⟩ := t.addRows_eq_filter {} rows'
  rw [← hmoved.others] at hmetrics' hsymbols'
  refine extractionDrafts_withAux extra (hmetrics.trans hmetrics'.symm)
    (hsymbols.trans (by rw [hsymbols']; rfl)) ?_
  intro name
  rw [hsymbols']
  exact getElem?_insertMany_of_perm (hmoved.aux.filterMap t.fragment?)
    (TableReading.nodup_fragments hnames) _ name

/-! ## Whole tables -/

/-- What the header alone decides: whether the table can be read, and from which columns. -/
def Header.readable (header : Header) (column : FormulaColumn) (rules : Rules) :
    Except TableError (String × List String) := do
  header.require Header.firstLevelColumn
  header.require Header.descriptionColumn
  chooseColumn header column rules

theorem buildTable_eq_of_split {text : String} {header : Header} {rows : List Row}
    (hsplit : splitHeader? (Csv.rows text) = some (header, rows)) (arch : String)
    (column : FormulaColumn) (rules : Rules) :
    buildTable text arch column rules = (header.readable column rules).map fun columns =>
      ⟨columns.1, TableReading.addRows ⟨header, columns.2, arch, rules⟩ {} rows⟩ := by
  unfold buildTable Header.readable
  rw [hsplit]
  dsimp only
  cases header.require Header.firstLevelColumn with
  | error e => rfl
  | ok _ =>
    cases header.require Header.descriptionColumn with
    | error e => rfl
    | ok _ =>
      cases chooseColumn header column rules with
      | error e => rfl
      | ok columns => rfl

/-- Auxiliary rows of distinct names may stand anywhere in a table. -/
theorem metrics_of_movesAuxRows (ctx : ExtractionContext) (extra : List ExtraMetric)
    {text text' : String} {header : Header} {rows rows' : List Row}
    (hsplit : splitHeader? (Csv.rows text) = some (header, rows))
    (hsplit' : splitHeader? (Csv.rows text') = some (header, rows'))
    (hmoved : header.MovesAuxRows ctx.rules rows rows')
    (hnames : ((rows.filter (header.IsAuxRow ctx.rules ·)).map header.auxName).Nodup) :
    (extractMetrics ctx extra text).metrics = (extractMetrics ctx extra text').metrics := by
  unfold extractMetrics
  cases ctx.rules.columnFor? ctx.arch with
  | none => rfl
  | some column =>
    dsimp only
    rw [buildTable_eq_of_split hsplit, buildTable_eq_of_split hsplit']
    cases header.readable column ctx.rules with
    | error e => rfl
    | ok columns =>
      show (extractContents ctx extra _).metrics = (extractContents ctx extra _).metrics
      rw [extractContents_metrics, extractContents_metrics]
      have hdrafts := @extractionDrafts_addRows ctx ⟨header, columns.2, ctx.arch, ctx.rules⟩
        rows rows' extra hmoved hnames
      exact congrArg (fun drafts =>
        (Emission.ofDrafts ctx.rules ctx.pmu (checkReferences ctx drafts).1).records) hdrafts

/-! ### Fragments behind their use -/

def partContext : ExtractionContext :=
  { plainContext with catalog := ({} : EventCatalog).registerAll [{ name := "CYCLES" }] }

def partHeader : Header :=
  ⟨["Key", "Level1", "Metric Description", "SKL"]⟩

def leadingText : String :=
  "Key,Level1,Metric Description,SKL\nAux,#Half,,1 / 2\nAux,Part,,#Half / 3\nFE,Idle,Share,#Part * CYCLES\n"

def leadingRows : List Row :=
  [["Aux", "#Half", "", "1 / 2"], ["Aux", "Part", "", "#Half / 3"],
    ["FE", "Idle", "Share", "#Part * CYCLES"]]

def trailingText : String :=
  "Key,Level1,Metric Description,SKL\nFE,Idle,Share,#Part * CYCLES\nAux,Part,,#Half / 3\nAux,#Half,,1 / 2\n"

def trailingRows : List Row :=
  [["FE", "Idle", "Share", "#Part * CYCLES"], ["Aux", "Part", "", "#Half / 3"],
    ["Aux", "#Half", "", "1 / 2"]]

theorem metrics_leadingText_eq_trailingText :
    splitHeader? (Csv.rows leadingText) = some (partHeader, leadingRows) ∧
      splitHeader? (Csv.rows trailingText) = some (partHeader, trailingRows) ∧
      partHeader.MovesAuxRows plainRules leadingRows trailingRows ∧
      (leadingRows.filter (partHeader.IsAuxRow plainRules ·)).map partHeader.auxName =
        ["Half", "Part"] ∧
      (extractMetrics partContext [] leadingText).metrics =
        (extractMetrics partContext [] trailingText).metrics := by
  have hleading : splitHeader? (Csv.rows leadingText) = some (partHeader, leadingRows) := by
    decide +kernel
  have htrailing : splitHeader? (Csv.rows trailingText) = some (partHeader, trailingRows) := by
    decide +kernel
  have hmoved : partHeader.MovesAuxRows plainRules leadingRows trailingRows :=
    ⟨by decide +kernel, by decide +kernel⟩
  have hnames : (leadingRows.filter (partHeader.IsAuxRow plainRules ·)).map partHeader.auxName =
      ["Half", "Part"] := by
    decide +kernel
  refine ⟨hleading, htrailing, hmoved, hnames, ?_⟩
  exact metrics_of_movesAuxRows partContext [] hleading htrailing hmoved (by
    rw [show partContext.rules = plainRules from rfl, hnames]
    decide)

end TopdownMetrics

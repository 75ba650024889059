import TopdownMetrics.Proofs.EmittedRecords
import TopdownMetrics.Proofs.FilledTable
import TopdownMetrics.Proofs.TableRows

/-!
# The hierarchy of topdown rows

While rows are read, the chain of ancestors is all that is kept of the levels of earlier rows.
It is enough: for each level below that of the next row it holds the name of the nearest
accepted row that stands higher.  So a row is an orphan exactly if it is more than one level
below the last accepted row, and the parent of any other row is the nearest accepted row of a
lower level, which is one level up.
-/

namespace TopdownMetrics

namespace TableReading

variable {t : TableReading} {symbols : SymbolTable} {row : Row} {level : Nat} {name : String}

/-- The level and the name of a topdown row that names a metric. -/
def topdown? (t : TableReading) (row : Row) : Option (Nat × String) :=
  if t.rowKind row = .topdown then t.levelAndName? row else none

/-- The warning about a row that is skipped as an orphan. -/
def orphanWarning (level : Nat) (name : String) : Diagnostic :=
  .warning (.skipped name
    ("level " ++ toString level ++ " has no level " ++ toString (level - 1) ++ " parent"))

/-- The level and the name of a topdown row that names a metric and is not skipped as an
orphan. -/
def accepted? (t : TableReading) (symbols : SymbolTable) (row : Row) : Option (Nat × String) :=
  (t.topdown? row).filter fun (level, name) =>
    !(t.addRow symbols row).diagnostics.contains (orphanWarning level name)

/-- The levels and names of the accepted rows, in order. -/
def acceptedRows (t : TableReading) (symbols : SymbolTable) : List Row → List (Nat × String)
  | [] => []
  | row :: rows =>
    (t.accepted? symbols row).toList ++ t.acceptedRows (t.addRow symbols row).symbols rows

/-- The level of the last accepted row; zero, if there is none. -/
def lastLevel (accepted : List (Nat × String)) : Nat :=
  (accepted.getLast?.map (·.1)).getD 0

/-- The last accepted row of a level below the given one. -/
def nearestAbove (accepted : List (Nat × String)) (level : Nat) : Option (Nat × String) :=
  accepted.findRev? (·.1 < level)

/-! ## One row -/

theorem one_le_levelNumber (column : String) : 1 ≤ Header.levelNumber column := by
  unfold Header.levelNumber
  dsimp only
  generalize Text.dropRepeated "Level".toList column.toList.length column.toList = number
  split_ifs
  · exact Nat.le_max_right _ _
  · exact le_rfl
  · exact le_rfl

theorem topdown?_eq_some_iff :
    t.topdown? row = some (level, name) ↔
      t.rowKind row = .topdown ∧ t.levelAndName? row = some (level, name) := by
  unfold topdown?
  split
  · rename_i hkind
    simp [hkind]
  · rename_i hkind
    simp [hkind]

theorem one_le_of_topdown? (h : t.topdown? row = some (level, name)) : 1 ≤ level := by
  have hfound := (topdown?_eq_some_iff.1 h).2
  have hmem := List.mem_of_find?_eq_some hfound
  obtain ⟨column, _, hcolumn⟩ := List.mem_map.1 hmem
  have hlevel : Header.levelNumber column = level := congrArg Prod.fst hcolumn
  rw [← hlevel]
  exact one_le_levelNumber column

theorem orphanWarning_notMem_locate (t : TableReading) (row : Row) (level : Nat)
    (name : String) : orphanWarning level name ∉ (t.locate row).2 := by
  unfold locate
  split
  · exact List.not_mem_nil
  · simp [orphanWarning, Diagnostic.info, Diagnostic.warning]

/-- All that an orphan row leaves behind are findings. -/
theorem addRow_of_orphan (htopdown : t.topdown? row = some (level, name))
    (horphan : symbols.ancestors.length + 1 < level) :
    t.addRow symbols row =
      ⟨symbols, none, (t.locate row).2 ++ [orphanWarning level name]⟩ := by
  obtain ⟨hkind, hfound⟩ := topdown?_eq_some_iff.1 htopdown
  have henter : enter? symbols.ancestors level name = none := if_pos horphan
  simp [addRow, hkind, addTopdownRow, hfound, henter, orphanWarning]

/-- The parent of an accepted row is taken from the chain of ancestors in front of it. -/
def parent? (ancestors : List String) (level : Nat) : Option String :=
  if 1 < level then ancestors[level - 2]? else none

theorem parent?_take (ancestors : List String) (level : Nat) (name : String)
    (hlevel : level ≤ ancestors.length + 1) :
    parent? (ancestors.take (level - 1) ++ [name]) level = parent? ancestors level := by
  unfold parent?
  split
  · rename_i hbelow
    have hlength : level - 2 < (ancestors.take (level - 1)).length := by
      rw [List.length_take]
      omega
    rw [List.getElem?_append_left hlength, List.getElem?_take_of_lt (by omega)]
  · rfl

/-- What an accepted row yields: it enters the chain of ancestors, and with a formula it is
listed in the group of its parent and adds an edge from there. -/
structure Accepts (t : TableReading) (symbols : SymbolTable) (row : Row) (level : Nat)
    (name : String) (c : RowContents) : Prop where
  ancestors_eq : c.symbols.ancestors = symbols.ancestors.take (level - 1) ++ [name]
  not_orphan : orphanWarning level name ∉ c.diagnostics
  children_of_none : t.formula? row = none → c.symbols.children = symbols.children
  children_of_formula : ∀ formula, t.formula? row = some formula →
    c.symbols.children = match parent? symbols.ancestors level with
      | some parent => (symbols.addChild parent name).children
      | none => symbols.children
  groups_of_formula : ∀ formula, t.formula? row = some formula →
    ∃ spec, c.metric = some spec ∧
      spec.groups = some (topdownGroups level (t.header.cell row Header.groupColumn)
        (parent? symbols.ancestors level))

theorem addTopdownRow_accepts (hfound : t.levelAndName? row = some (level, name))
    (hlevel : level ≤ symbols.ancestors.length + 1) (hint : Option String) :
    t.Accepts symbols row level name (t.addTopdownRow symbols row hint) := by
  have henter : enter? symbols.ancestors level name =
      some (symbols.ancestors.take (level - 1) ++ [name]) := if_neg (by omega)
  have hparent : (if 1 < level then
      (symbols.ancestors.take (level - 1) ++ [name])[level - 2]? else none) =
      parent? symbols.ancestors level :=
    parent?_take symbols.ancestors level name hlevel
  cases hformula : t.formula? row with
  | none =>
    have hcontents : t.addTopdownRow symbols row hint =
        ⟨{ symbols with ancestors := symbols.ancestors.take (level - 1) ++ [name] }, none,
          [.info (.missingFormula name t.arch)]⟩ := by
      simp [addTopdownRow, hfound, henter, hformula]
    rw [hcontents]
    constructor <;> simp [orphanWarning, Diagnostic.info, Diagnostic.warning, hformula]
  | some formula =>
    cases hfront : parent? symbols.ancestors level with
    | none =>
      rw [hfront] at hparent
      constructor <;>
        simp [addTopdownRow, hfound, henter, hformula, hparent, hfront, SymbolTable.addNode]
    | some parent =>
      rw [hfront] at hparent
      constructor <;>
        simp [addTopdownRow, hfound, henter, hformula, hparent, hfront, SymbolTable.addNode,
          SymbolTable.addChild]

theorem addRow_accepts (htopdown : t.topdown? row = some (level, name))
    (hlevel : level ≤ symbols.ancestors.length + 1) :
    t.Accepts symbols row level name (t.addRow symbols row) := by
  obtain ⟨hkind, hfound⟩ := topdown?_eq_some_iff.1 htopdown
  have hcontents : t.addRow symbols row = { t.addTopdownRow symbols row (t.locate row).1 with
      diagnostics := (t.locate row).2 ++
        (t.addTopdownRow symbols row (t.locate row).1).diagnostics } := by
    simp [addRow, hkind]
  have haccepts := addTopdownRow_accepts hfound hlevel (t.locate row).1
  rw [hcontents]
  refine ⟨haccepts.ancestors_eq, ?_, haccepts.children_of_none, haccepts.children_of_formula,
    haccepts.groups_of_formula⟩
  intro hmem
  rcases List.mem_append.1 hmem with hmem | hmem
  · exact t.orphanWarning_notMem_locate row level name hmem
  · exact haccepts.not_orphan hmem

theorem addRow_of_not_topdown (htopdown : t.topdown? row = none) :
    (t.addRow symbols row).symbols.ancestors = symbols.ancestors ∧
      (t.addRow symbols row).symbols.children = symbols.children := by
  unfold topdown? at htopdown
  cases hkind : t.rowKind row with
  | topdown =>
    have hfound : t.levelAndName? row = none := by simpa [hkind] using htopdown
    simp [addRow, hkind, addTopdownRow, hfound]
  | info =>
    cases hformula : t.formula? row with
    | none => simp [addRow, hkind, addInfoRow, hformula]
    | some formula => simp [addRow, hkind, addInfoRow, hformula, SymbolTable.addInfo]
  | aux =>
    cases hformula : t.formula? row with
    | none => simp [addRow, hkind, addAuxRow, hformula]
    | some formula =>
      by_cases hna : formula = "#NA"
      · simp [addRow, hkind, addAuxRow, hformula, hna]
      · simp [addRow, hkind, addAuxRow, hformula, hna, SymbolTable.addAux]
  | other => simp [addRow, hkind]

theorem accepted?_eq_some_iff :
    t.accepted? symbols row = some (level, name) ↔
      t.topdown? row = some (level, name) ∧ level ≤ symbols.ancestors.length + 1 := by
  unfold accepted?
  rw [Option.filter_eq_some_iff]
  refine and_congr_right fun htopdown => ?_
  by_cases hlevel : level ≤ symbols.ancestors.length + 1
  · have hnone := (addRow_accepts htopdown hlevel).not_orphan
    simp [hnone, hlevel]
  · have horphan := addRow_of_orphan htopdown (Nat.lt_of_not_le hlevel)
    simp [horphan, hlevel]

theorem accepted?_cases (t : TableReading) (symbols : SymbolTable) (row : Row) :
    (t.accepted? symbols row = none ∧
        (t.addRow symbols row).symbols.ancestors = symbols.ancestors ∧
        (t.addRow symbols row).symbols.children = symbols.children) ∨
      ∃ level name, t.accepted? symbols row = some (level, name) := by
  cases hfound : t.accepted? symbols row with
  | some found => exact .inr ⟨found.1, found.2, rfl⟩
  | none =>
    refine .inl ⟨rfl, ?_⟩
    cases htopdown : t.topdown? row with
    | none => exact addRow_of_not_topdown htopdown
    | some found =>
      obtain ⟨level, name⟩ := found
      have horphan : symbols.ancestors.length + 1 < level := by
        by_contra hlevel
        have haccepted := accepted?_eq_some_iff.2 ⟨htopdown, Nat.le_of_not_lt hlevel⟩
        rw [hfound] at haccepted
        cases haccepted
      rw [addRow_of_orphan htopdown horphan]
      exact ⟨rfl, rfl⟩

/-! ## The chain of ancestors -/

/-- What the chain of ancestors holds behind the accepted rows: for each level down to that of
the next child, the nearest row above is one level up and named in the chain. -/
structure Chain (accepted : List (Nat × String)) (ancestors : List String) : Prop where
  length_eq : ancestors.length = lastLevel accepted
  nearest : ∀ (i : Nat) (parent : String), ancestors[i]? = some parent →
    nearestAbove accepted (i + 2) = some (i + 1, parent)

theorem nearestAbove_concat (accepted : List (Nat × String)) (last : Nat × String)
    (level : Nat) :
    nearestAbove (accepted ++ [last]) level =
      if last.1 < level then some last else nearestAbove accepted level := by
  unfold nearestAbove
  rw [List.findRev?_eq_find?_reverse, List.findRev?_eq_find?_reverse, List.reverse_append]
  by_cases hlast : last.1 < level
  · simp [hlast]
  · simp [hlast]

theorem Chain.concat {accepted : List (Nat × String)} {ancestors : List String}
    (h : Chain accepted ancestors) (hpos : 1 ≤ level) (hlevel : level ≤ ancestors.length + 1)
    (name : String) :
    Chain (accepted ++ [(level, name)]) (ancestors.take (level - 1) ++ [name]) where
  length_eq := by
    have hlast : lastLevel (accepted ++ [(level, name)]) = level := by simp [lastLevel]
    rw [hlast, List.length_append, List.length_take, List.length_singleton]
    omega
  nearest := by
    intro i parent hparent
    rw [nearestAbove_concat]
    have htake : (ancestors.take (level - 1)).length = level - 1 := by
      rw [List.length_take]
      omega
    by_cases hi : i < level - 1
    · rw [List.getElem?_append_left (by omega), List.getElem?_take_of_lt hi] at hparent
      rw [if_neg (by omega)]
      exact h.nearest i parent hparent
    · rw [List.getElem?_append_right (by omega), htake] at hparent
      have hlast : i = level - 1 := by
        have hbound := (List.getElem?_eq_some_iff.1 hparent).1
        rw [List.length_singleton] at hbound
        omega
      have hname : name = parent := by simpa [hlast] using hparent
      rw [if_pos (by omega), hname, hlast, Nat.sub_add_cancel hpos]

theorem addRows_append (t : TableReading) (symbols : SymbolTable) (before after : List Row) :
    t.addRows symbols (before ++ after) =
      ⟨(t.addRows (t.addRows symbols before).symbols after).symbols,
        (t.addRows symbols before).metrics ++
          (t.addRows (t.addRows symbols before).symbols after).metrics,
        (t.addRows symbols before).diagnostics ++
          (t.addRows (t.addRows symbols before).symbols after).diagnostics⟩ := by
  induction before generalizing symbols with
  | nil => rfl
  | cons first before ih => simp only [List.cons_append, addRows, ih, List.append_assoc]

theorem addRows_concat (t : TableReading) (symbols : SymbolTable) (rows : List Row)
    (row : Row) :
    (t.addRows symbols (rows ++ [row])).symbols =
      (t.addRow (t.addRows symbols rows).symbols row).symbols := by
  rw [addRows_append]
  rfl

theorem acceptedRows_concat (t : TableReading) (symbols : SymbolTable) (rows : List Row)
    (row : Row) :
    t.acceptedRows symbols (rows ++ [row]) =
      t.acceptedRows symbols rows ++
        (t.accepted? (t.addRows symbols rows).symbols row).toList := by
  induction rows generalizing symbols with
  | nil => simp [acceptedRows, addRows]
  | cons first rows ih =>
    simp only [List.cons_append, acceptedRows, addRows, ih, List.append_assoc]

theorem chain_addRows (t : TableReading) (rows : List Row) :
    Chain (t.acceptedRows {} rows) (t.addRows {} rows).symbols.ancestors := by
  induction rows using List.reverseRecOn with
  | nil =>
    refine ⟨rfl, ?_⟩
    intro i parent hparent
    simp [addRows] at hparent
  | append_singleton rows row ih =>
    rw [addRows_concat, acceptedRows_concat]
    rcases t.accepted?_cases (t.addRows {} rows).symbols row with
      ⟨hnone, hancestors, _⟩ | ⟨level, name, hsome⟩
    · rw [hnone, hancestors]
      simpa using ih
    · obtain ⟨htopdown, hlevel⟩ := accepted?_eq_some_iff.1 hsome
      rw [hsome, (addRow_accepts htopdown hlevel).ancestors_eq]
      exact ih.concat (one_le_of_topdown? htopdown) hlevel name

/-- The parent of an accepted row below the first level is the nearest accepted row above it,
which is one level up. -/
theorem Chain.parent?_eq {accepted : List (Nat × String)} {ancestors : List String}
    (h : Chain accepted ancestors) (hpos : 2 ≤ level) (hlevel : level ≤ ancestors.length + 1) :
    ∃ parent, parent? ancestors level = some parent ∧
      nearestAbove accepted level = some (level - 1, parent) := by
  have hbound : level - 2 < ancestors.length := by omega
  have hparent : ancestors[level - 2]? = some ancestors[level - 2] :=
    List.getElem?_eq_getElem hbound
  refine ⟨ancestors[level - 2], ?_, ?_⟩
  · unfold parent?
    rw [if_pos (by omega), hparent]
  · have hnearest := h.nearest (level - 2) _ hparent
    rwa [Nat.sub_add_cancel hpos, show level - 2 + 1 = level - 1 by omega] at hnearest

/-! ## The edges of the hierarchy -/

/-- The row behind `before` is accepted below the first level and has a formula, and the
nearest accepted row above it has the name of the parent. -/
def Links (t : TableReading) (before : List Row) (row : Row) (parent child : String) : Prop :=
  ∃ level, t.accepted? (t.addRows {} before).symbols row = some (level, child) ∧ 2 ≤ level ∧
    (t.formula? row).isSome = true ∧
    nearestAbove (t.acceptedRows {} before) level = some (level - 1, parent)

theorem addRow_of_formula {before : List Row} {formula : String}
    (haccepted : t.accepted? (t.addRows {} before).symbols row = some (level, name))
    (hpos : 2 ≤ level) (hformula : t.formula? row = some formula) :
    let symbols := (t.addRows {} before).symbols
    ∃ parent, nearestAbove (t.acceptedRows {} before) level = some (level - 1, parent) ∧
      (t.addRow symbols row).symbols.children = (symbols.addChild parent name).children ∧
      ∃ spec, (t.addRow symbols row).metric = some spec ∧
        spec.groups = some (topdownGroups level (t.header.cell row Header.groupColumn)
          (some parent)) := by
  intro symbols
  obtain ⟨htopdown, hlevel⟩ := accepted?_eq_some_iff.1 haccepted
  obtain ⟨parent, hparent, hnearest⟩ := (t.chain_addRows before).parent?_eq hpos hlevel
  have haccepts := addRow_accepts htopdown hlevel
  have hchildren := haccepts.children_of_formula formula hformula
  have hspec := haccepts.groups_of_formula formula hformula
  rw [hparent] at hchildren hspec
  exact ⟨parent, hnearest, hchildren, hspec⟩

theorem children_addRow_of_not
    (h : ∀ level name, t.accepted? symbols row = some (level, name) → 2 ≤ level →
      t.formula? row = none) :
    (t.addRow symbols row).symbols.children = symbols.children := by
  rcases t.accepted?_cases symbols row with ⟨_, _, hchildren⟩ | ⟨level, name, hsome⟩
  · exact hchildren
  obtain ⟨htopdown, hlevel⟩ := accepted?_eq_some_iff.1 hsome
  have haccepts := addRow_accepts htopdown hlevel
  cases hformula : t.formula? row with
  | none => exact haccepts.children_of_none hformula
  | some formula =>
    have hfirst : ¬ 2 ≤ level := by
      intro hpos
      have hnone := h level name hsome hpos
      rw [hformula] at hnone
      cases hnone
    have hparent : parent? symbols.ancestors level = none := if_neg (by omega)
    rw [haccepts.children_of_formula formula hformula, hparent]

theorem mem_childrenOf_addRow_iff (t : TableReading) (before : List Row) (row : Row)
    (parent child : String) :
    child ∈ (t.addRow (t.addRows {} before).symbols row).symbols.childrenOf parent ↔
      t.Links before row parent child ∨
        child ∈ (t.addRows {} before).symbols.childrenOf parent := by
  by_cases hadds : ∃ level name formula,
      t.accepted? (t.addRows {} before).symbols row = some (level, name) ∧ 2 ≤ level ∧
        t.formula? row = some formula
  · obtain ⟨level, name, formula, haccepted, hpos, hformula⟩ := hadds
    obtain ⟨nearest, hnearest, hchildren, _⟩ := addRow_of_formula haccepted hpos hformula
    have hlinks : t.Links before row parent child ↔ nearest = parent ∧ child = name := by
      unfold Links
      rw [haccepted, hformula]
      constructor
      · rintro ⟨level, hsome, _, _, hparent⟩
        cases hsome
        rw [hnearest] at hparent
        cases hparent
        exact ⟨rfl, rfl⟩
      · rintro ⟨rfl, rfl⟩
        exact ⟨level, rfl, hpos, rfl, hnearest⟩
    rw [hlinks, ← SymbolTable.mem_childrenOf_addChild_iff]
    unfold SymbolTable.childrenOf
    rw [hchildren]
  · have hlinks : ¬ t.Links before row parent child := by
      rintro ⟨level, haccepted, hpos, hformula, _⟩
      obtain ⟨formula, hformula⟩ := Option.isSome_iff_exists.1 hformula
      exact hadds ⟨level, child, formula, haccepted, hpos, hformula⟩
    have hchildren : (t.addRow (t.addRows {} before).symbols row).symbols.children =
        (t.addRows {} before).symbols.children := by
      apply children_addRow_of_not
      intro level name haccepted hpos
      by_contra hformula
      obtain ⟨formula, hformula⟩ := Option.ne_none_iff_exists'.1 hformula
      exact hadds ⟨level, name, formula, haccepted, hpos, hformula⟩
    unfold SymbolTable.childrenOf
    rw [hchildren]
    simp [hlinks]

theorem mem_childrenOf_addRows_iff (t : TableReading) (rows : List Row)
    (parent child : String) :
    child ∈ (t.addRows {} rows).symbols.childrenOf parent ↔
      ∃ before row, before ++ [row] <+: rows ∧ t.Links before row parent child := by
  induction rows using List.reverseRecOn with
  | nil => simp [addRows, SymbolTable.childrenOf]
  | append_singleton rows row ih =>
    rw [addRows_concat, mem_childrenOf_addRow_iff, ih]
    constructor
    · rintro (hlinks | ⟨before, earlier, hprefix, hlinks⟩)
      · exact ⟨rows, row, List.prefix_rfl, hlinks⟩
      · exact ⟨before, earlier, hprefix.trans (List.prefix_append rows [row]), hlinks⟩
    · rintro ⟨before, earlier, hprefix, hlinks⟩
      rcases List.prefix_concat_iff.1 hprefix with heq | hprefix
      · obtain ⟨rfl, hrow⟩ := List.append_inj' heq rfl
        obtain rfl := List.singleton_inj.1 hrow
        exact .inl hlinks
      · exact .inr ⟨before, earlier, hprefix, hlinks⟩

/-- How the rows of a table make up its hierarchy. -/
structure FollowsRows (t : TableReading) (rows : List Row) : Prop where
  /-- A row that names a metric is skipped as an orphan exactly if it is more than one level
  below the last accepted row. -/
  orphan_iff : ∀ before row level name, before ++ [row] <+: rows →
    t.topdown? row = some (level, name) →
      (orphanWarning level name ∈ (t.addRow (t.addRows {} before).symbols row).diagnostics ↔
        lastLevel (t.acceptedRows {} before) + 1 < level)
  /-- A row that is skipped as an orphan leaves findings only: the rest of the table is read as
  if the row did not stand there. -/
  orphan_skipped : ∀ before row after level name, before ++ row :: after = rows →
    t.topdown? row = some (level, name) → lastLevel (t.acceptedRows {} before) + 1 < level →
      t.addRow (t.addRows {} before).symbols row =
          ⟨(t.addRows {} before).symbols, none,
            (t.locate row).2 ++ [orphanWarning level name]⟩ ∧
        (t.addRows {} rows).symbols = (t.addRows {} (before ++ after)).symbols ∧
        (t.addRows {} rows).metrics = (t.addRows {} (before ++ after)).metrics
  /-- An accepted row below the first level adds one edge and is in the group of its parent,
  the nearest accepted row above it, which is one level up. -/
  edge : ∀ before row level name formula, before ++ [row] <+: rows →
    t.accepted? (t.addRows {} before).symbols row = some (level, name) → 2 ≤ level →
    t.formula? row = some formula →
      ∃ parent, nearestAbove (t.acceptedRows {} before) level = some (level - 1, parent) ∧
        (∀ p c, c ∈ (t.addRow (t.addRows {} before).symbols row).symbols.childrenOf p ↔
          (p = parent ∧ c = name) ∨ c ∈ (t.addRows {} before).symbols.childrenOf p) ∧
        ∃ spec, (t.addRow (t.addRows {} before).symbols row).metric = some spec ∧
          spec.groups = some ("TopdownL" ++ toString level ++
            (if t.header.cell row Header.groupColumn = "" then ""
              else ";" ++ t.header.cell row Header.groupColumn) ++
            (";tma_" ++ Text.lower parent ++ "_group"))
  /-- There are no other edges. -/
  edges_iff : ∀ parent child, child ∈ (t.addRows {} rows).symbols.childrenOf parent ↔
    ∃ before row, before ++ [row] <+: rows ∧ t.Links before row parent child

theorem followsRows (t : TableReading) (rows : List Row) : t.FollowsRows rows where
  orphan_iff := by
    intro before row level name _ htopdown
    have hlength := (t.chain_addRows before).length_eq
    rw [← hlength]
    constructor
    · intro hwarning
      by_contra hlevel
      exact (addRow_accepts htopdown (Nat.le_of_not_lt hlevel)).not_orphan hwarning
    · intro horphan
      rw [addRow_of_orphan htopdown horphan]
      exact List.mem_append_right _ (List.mem_singleton_self _)
  orphan_skipped := by
    intro before row after level name hrows htopdown hlevel
    rw [← (t.chain_addRows before).length_eq] at hlevel
    have hrow := addRow_of_orphan htopdown hlevel
    have hskipped : t.addRows (t.addRows {} before).symbols (row :: after) =
        { t.addRows (t.addRows {} before).symbols after with
          diagnostics := (t.locate row).2 ++ [orphanWarning level name] ++
            (t.addRows (t.addRows {} before).symbols after).diagnostics } := by
      rw [addRows, hrow]
      rfl
    refine ⟨hrow, ?_, ?_⟩
    · rw [← hrows, addRows_append, addRows_append, hskipped]
    · rw [← hrows, addRows_append, addRows_append, hskipped]
  edge := by
    intro before row level name formula _ haccepted hpos hformula
    obtain ⟨parent, hnearest, hchildren, hspec⟩ := addRow_of_formula haccepted hpos hformula
    refine ⟨parent, hnearest, ?_, hspec⟩
    intro p c
    rw [@eq_comm _ p parent, ← SymbolTable.mem_childrenOf_addChild_iff]
    unfold SymbolTable.childrenOf
    rw [hchildren]
  edges_iff := t.mem_childrenOf_addRows_iff rows

end TableReading

/-- The hierarchy of every table that is read follows the rows behind its header. -/
theorem hierarchy_of_buildTable {text arch : String} {column : FormulaColumn} {rules : Rules}
    {built : BuiltTable} (h : buildTable text arch column rules = .ok built) :
    ∃ header rows search, splitHeader? (Csv.rows text) = some (header, rows) ∧
      chooseColumn header column rules = .ok (built.column, search) ∧
      built.contents = TableReading.addRows ⟨header, search, arch, rules⟩ {} rows ∧
      TableReading.FollowsRows ⟨header, search, arch, rules⟩ rows := by
  obtain ⟨header, rows, search, hsplit, hcolumn, hcontents⟩ := exists_reading_of_buildTable h
  exact ⟨header, rows, search, hsplit, hcolumn, hcontents, TableReading.followsRows _ rows⟩

/-! ### A table with an orphan -/

/-- The second row is two levels below the first. -/
def nestedText : String :=
  "Key,Level1,Level2,Level3,Metric Description,SKL\nFE,Frontend,,,Idle,IDLE\nFE,,,Misses,Missed,MISSES\nFE,,Latency,,Stalled,STALLS\n"

def nestedTable : BuiltTable :=
  ⟨"SKL", TableReading.addRows
    ⟨⟨["Key", "Level1", "Level2", "Level3", "Metric Description", "SKL"]⟩, ["SKL"], "SKL",
      plainRules⟩ {}
    [["FE", "Frontend", "", "", "Idle", "IDLE"], ["FE", "", "", "Misses", "Missed", "MISSES"],
      ["FE", "", "Latency", "", "Stalled", "STALLS"]]⟩

theorem buildTable_nestedText :
    buildTable nestedText "SKL" ⟨"SKL", [], none⟩ plainRules = .ok nestedTable :=
  buildTable_of_split (by cbv) rfl rfl rfl

/-- The orphan leaves a warning and nothing else: only the other rows have metrics and nodes,
and the third row is a child of the first. -/
theorem hierarchy_nestedText :
    buildTable nestedText "SKL" ⟨"SKL", [], none⟩ plainRules = .ok nestedTable ∧
      nestedTable.contents.metrics.map (·.tableName) = ["Frontend", "Latency"] ∧
      nestedTable.contents.symbols.nodes.keys = ["Frontend", "Latency"] ∧
      nestedTable.contents.symbols.childrenOf "Frontend" = ["Latency"] ∧
      nestedTable.contents.diagnostics =
        [.warning (.skipped "Misses" "level 3 has no level 2 parent")] ∧
      ∃ header rows search, splitHeader? (Csv.rows nestedText) = some (header, rows) ∧
        chooseColumn header ⟨"SKL", [], none⟩ plainRules = .ok (nestedTable.column, search) ∧
        nestedTable.contents =
          TableReading.addRows ⟨header, search, "SKL", plainRules⟩ {} rows ∧
        TableReading.FollowsRows ⟨header, search, "SKL", plainRules⟩ rows := by
  refine ⟨buildTable_nestedText, ?_, ?_, ?_, ?_, hierarchy_of_buildTable buildTable_nestedText⟩
  · decide +kernel
  · decide +kernel
  · decide +kernel
  · decide +kernel

end TopdownMetrics

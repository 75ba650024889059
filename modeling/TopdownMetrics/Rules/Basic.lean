import TopdownMetrics.Rules.Fixup

/-!
# Rules

Everything that depends on an architecture is data: which words a formula may keep,
which column of a table holds an architecture's formulas, which spellings have to be
mended, which metrics are left out.
-/

namespace TopdownMetrics

/-- When a formula uses an event of the family, the slots event has to be counted
too. -/
structure SlotsRule where
  family : String
  token : String
  /-- The term that is added for the event; its weight is zero. -/
  term : String
  deriving DecidableEq, Repr, Inhabited

/-- What becomes of the runtime constants `#name`. -/
structure ContextRules where
  /-- Constants that stay in the formula with their mark. -/
  keep : List String
  /-- Constants with a replacement text. -/
  replacements : List (String × String)
  deriving DecidableEq, Repr, Inhabited

/-- A formula column of a table and where to look when its cell is empty. -/
structure FormulaColumn where
  column : String
  fallbacks : List String
  /-- The column used instead when the table lacks this one. -/
  alternate : Option String
  deriving DecidableEq, Repr, Inhabited

def FormulaColumn.searchOrder (c : FormulaColumn) : List String :=
  c.column :: c.fallbacks

/-- The rules of one architecture. -/
structure ArchRules where
  /-- The formula column, when it is not found by the architecture's name. -/
  formulaColumn : Option String
  fixups : List Fixup
  /-- Names of shared fixup lists that follow the own ones. -/
  fixupSets : List String
  /-- A cell that mentions one of these counts as empty. -/
  bannedEvents : List String
  droppedMetrics : List String
  /-- Formulas that replace those of the table. -/
  forcedFormulas : List (String × String)
  /-- The value of `#Memory`. -/
  memory : Bool
  deriving DecidableEq, Repr, Inhabited

/-- The rules of an architecture about which nothing is declared. -/
def ArchRules.undeclared : ArchRules where
  formulaColumn := none
  fixups := []
  fixupSets := []
  bannedEvents := []
  droppedMetrics := []
  forcedFormulas := []
  memory := true

/-- The idle states of a group of architectures that have residency counters. -/
structure IdleStateRule where
  archs : List String
  core : List Nat
  package : List Nat
  deriving DecidableEq, Repr, Inhabited

structure Rules where
  /-- The words that may remain in a formula without naming an event. -/
  keywords : List String
  /-- Words that start so may remain as well. -/
  keywordPrefixes : List String
  /-- Metrics that are never emitted and inlined where they are referenced. -/
  ignoredMetrics : List String
  /-- Metrics that need the watchdog on hardware counters switched off. -/
  watchdogMetrics : List String
  /-- The starts of the keys of topdown rows. -/
  topdownPrefixes : List String
  slots : SlotsRule
  /-- The group of a metric for which the table has none. -/
  metricGroups : List (String × String)
  context : ContextRules
  commonFixups : List Fixup
  fixupSets : List (String × List Fixup)
  formulaColumns : List FormulaColumn
  /-- The declared architectures in order of their names. -/
  archs : List (String × ArchRules)
  idleStates : List IdleStateRule
  deriving DecidableEq, Repr, Inhabited

namespace Rules

def arch (rules : Rules) (name : String) : ArchRules :=
  (rules.archs.lookup name).getD .undeclared

/-- The fixups of an architecture: its own, those of the shared lists it names, and
the common ones. -/
def fixupsFor (rules : Rules) (name : String) : List Fixup :=
  let arch := rules.arch name
  arch.fixups ++
    arch.fixupSets.flatMap (fun set => (rules.fixupSets.lookup set).getD []) ++
    rules.commonFixups

/-- The formula column of an architecture: the one that its rules name, or else the
first one whose name contains the name of the architecture. -/
def columnFor? (rules : Rules) (name : String) : Option FormulaColumn :=
  match (rules.arch name).formulaColumn with
  | some column => rules.formulaColumns.find? (·.column == column)
  | none => rules.formulaColumns.find? (Text.contains ·.column name)

/-- Whether a word may remain in a formula without naming an event. -/
def isKeyword (rules : Rules) (word : String) : Bool :=
  rules.keywords.contains word || rules.keywordPrefixes.any (Text.startsWith word ·)

def idleStatesFor? (rules : Rules) (name : String) : Option IdleStateRule :=
  rules.idleStates.find? (·.archs.contains name)

end Rules

end TopdownMetrics

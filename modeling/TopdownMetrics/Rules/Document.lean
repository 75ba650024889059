import TopdownMetrics.Rules.Basic
import TopdownMetrics.Text.Sorted
import TopdownMetrics.Toml.Document

/-!
# Rules from a configuration document

A record is written as a table, or as the array of its fields in their order.
Entries that no rule knows are passed over; an entry of the wrong kind makes the
document unusable.  The fixups of architectures and of shared lists must not bring
a bare separator into a formula.
-/

namespace TopdownMetrics

/-- Why a rule set cannot be used. -/
inductive RulesError where
  /-- The text is not a configuration document or does not hold rules. -/
  | malformed
  /-- A replacement contains a separator without a backslash. -/
  | unescapedSeparator (pattern : String) (separator : Char) (offset : Nat)
  /-- The file cannot be read. -/
  | unreadable
  deriving DecidableEq, Repr

def RulesError.message : RulesError → String
  | .malformed => "Invalid rules TOML"
  | .unescapedSeparator pattern separator offset =>
    "Fixup replacement for '" ++ pattern ++ "' has an unescaped '" ++ separator.toString ++
      "' at byte " ++ toString offset
  | .unreadable => "Failed to read rules file"

namespace Rules.Document

open Toml (Value Entries)

abbrev Reader (α : Type) := Value → Option α

def string : Reader String
  | .string s => some s
  | _ => none

def boolean : Reader Bool
  | .boolean b => some b
  | _ => none

def word32 : Reader Nat
  | .integer n => if 0 ≤ n ∧ n < UInt32.size then some n.toNat else none
  | _ => none

def list {α : Type} (item : Reader α) : Reader (List α)
  | .array items => items.mapM item
  | .tables items => items.mapM item
  | _ => none

def dictionary {α : Type} (item : Reader α) : Reader (List (String × α))
  | .table _ entries => entries.mapM fun (k, v) => (item v).map (k, ·)
  | _ => none

abbrev Fields := String → Option Value

/-- The fields of a record that has the given field names. -/
def fields (names : List String) : Reader Fields
  | .table _ entries => some fun name => List.lookup name entries
  | .array items => some fun name => List.lookup name (names.zip items)
  | .tables items => some fun name => List.lookup name (names.zip items)
  | _ => none

def required {α : Type} (fs : Fields) (name : String) (item : Reader α) : Option α :=
  (fs name).bind item

def defaulting {α : Type} (fs : Fields) (name : String) (item : Reader α) (default : α) :
    Option α :=
  match fs name with
  | some v => item v
  | none => some default

def fixup : Reader Fixup := fun v => do
  let fs ← fields ["from", "to"] v
  return ⟨← required fs "from" string, ← required fs "to" string⟩

def slotsRule : Reader SlotsRule := fun v => do
  let fs ← fields ["family", "token", "term"] v
  return ⟨← required fs "family" string, ← required fs "token" string,
    ← required fs "term" string⟩

def contextRules : Reader ContextRules := fun v => do
  let fs ← fields ["keep", "replace"] v
  return ⟨← required fs "keep" (list string),
    ← defaulting fs "replace" (dictionary string) []⟩

def formulaColumn : Reader FormulaColumn := fun v => do
  let fs ← fields ["column", "fallbacks", "alternate"] v
  return {
    column := ← required fs "column" string
    fallbacks := ← defaulting fs "fallbacks" (list string) []
    alternate := ← defaulting fs "alternate" (fun v => (string v).map some) none }

def archRules : Reader ArchRules := fun v => do
  let fs ← fields ["tma_column", "fixups", "fixup_sets", "banned_events",
    "dropped_metrics", "forced_formulas", "memory"] v
  return {
    formulaColumn := ← defaulting fs "tma_column" (fun v => (string v).map some) none
    fixups := ← defaulting fs "fixups" (list fixup) []
    fixupSets := ← defaulting fs "fixup_sets" (list string) []
    bannedEvents := ← defaulting fs "banned_events" (list string) []
    droppedMetrics := Text.distinctSorted (← defaulting fs "dropped_metrics" (list string) [])
    forcedFormulas := ← defaulting fs "forced_formulas" (dictionary string) []
    memory := ← defaulting fs "memory" boolean true }

def idleStateRule : Reader IdleStateRule := fun v => do
  let fs ← fields ["archs", "core", "pkg"] v
  return ⟨← required fs "archs" (list string), ← required fs "core" (list word32),
    ← required fs "pkg" (list word32)⟩

def rules (entries : Entries) : Option Rules := do
  let fs : Fields := fun name => List.lookup name entries
  let archs ← defaulting fs "arch" (dictionary archRules) []
  return {
    keywords := ← required fs "keywords" (list string)
    keywordPrefixes := ← defaulting fs "keyword_prefixes" (list string) []
    ignoredMetrics := Text.distinctSorted (← defaulting fs "ignored_metrics" (list string) [])
    watchdogMetrics := Text.distinctSorted (← defaulting fs "no_nmi_watchdog" (list string) [])
    topdownPrefixes := ← required fs "topdown_prefixes" (list string)
    slots := ← required fs "slots" slotsRule
    metricGroups := ← defaulting fs "metric_groups" (dictionary string) []
    context := ← required fs "context" contextRules
    commonFixups := ← defaulting fs "common_fixups" (list fixup) []
    fixupSets := ← defaulting fs "fixup_sets" (dictionary (list fixup)) []
    formulaColumns := ← required fs "tma_columns" (list formulaColumn)
    archs := archs.mergeSort fun a b => decide (a.1 ≤ b.1)
    idleStates := ← defaulting fs "cstates" (list idleStateRule) [] }

end Rules.Document

namespace Rules

/-- The fixups whose replacements must not contain a bare separator: those of the
shared lists and those of the architectures. -/
def checkedFixups (rules : Rules) : List Fixup :=
  rules.fixupSets.flatMap (·.2) ++ rules.archs.flatMap (·.2.fixups)

def checkFixup (f : Fixup) : Except RulesError Unit :=
  match f.bareSeparator? with
  | some (separator, offset) => .error (.unescapedSeparator f.pattern separator offset)
  | none => .ok ()

def ofText (text : String) : Except RulesError Rules :=
  match (Toml.parse? text).bind Document.rules with
  | none => .error .malformed
  | some rules => do
    rules.checkedFixups.forM checkFixup
    return rules

end Rules

end TopdownMetrics

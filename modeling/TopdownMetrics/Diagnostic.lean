/-!
# Findings

A metric that cannot be emitted as it stands is dropped, and a finding says why.  No
finding stops the extraction.
-/

namespace TopdownMetrics

inductive Severity where
  | info
  | warning
  deriving DecidableEq, Repr, Inhabited

def Severity.text : Severity → String
  | .info => "info"
  | .warning => "warning"

/-- Why a metric or a whole table was not emitted as it stands. -/
inductive Finding where
  | missingFormula (metric arch : String)
  | unresolvedSymbol (metric symbol : String)
  | invalidFormula (metric reason : String)
  /-- A metric of the name was emitted already, with another formula. -/
  | duplicateMetric (metric existing new : String)
  | malformedTable (arch column : String)
  | skipped (metric reason : String)
  deriving DecidableEq, Repr, Inhabited

def Finding.text : Finding → String
  | .missingFormula metric arch => "No formula for '" ++ metric ++ "' on " ++ arch
  | .unresolvedSymbol metric symbol =>
    "Dropping '" ++ metric ++ "': '" ++ symbol ++ "' is not an event, keyword or metric"
  | .invalidFormula metric reason => "Dropping '" ++ metric ++ "': " ++ reason
  | .duplicateMetric metric existing new =>
    "Duplicate metric '" ++ metric ++ "' with a different formula\n\tnew: " ++ new ++
      "\n\texisting: " ++ existing
  | .malformedTable arch column =>
    "Table for " ++ arch ++ " is missing column '" ++ column ++ "'"
  | .skipped metric reason => "Skipping '" ++ metric ++ "': " ++ reason

structure Diagnostic where
  severity : Severity
  finding : Finding
  deriving DecidableEq, Repr, Inhabited

namespace Diagnostic

def info (f : Finding) : Diagnostic := ⟨.info, f⟩

def warning (f : Finding) : Diagnostic := ⟨.warning, f⟩

def text (d : Diagnostic) : String :=
  d.severity.text ++ ": " ++ d.finding.text

end Diagnostic

end TopdownMetrics

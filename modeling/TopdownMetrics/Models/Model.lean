import Std.Data.TreeMap
import TopdownMetrics.Models.Pattern
import TopdownMetrics.Text.Case
import TopdownMetrics.Text.Quoted
import TopdownMetrics.Text.Sorted

/-!
# Processor models

A model stands for a family of processors with its identifiers and the files that
describe its events and metrics.
-/

namespace TopdownMetrics

/-- The kinds of files that a model may refer to beside those with its events. -/
inductive AuxiliaryFile where
  /-- The table of metrics. -/
  | metricTable
  /-- The table of metrics for efficient cores. -/
  | efficientMetricTable
  /-- The table of rewrites for uncore events. -/
  | uncoreRewrites
  /-- The list of metrics that are given beside the table. -/
  | extraMetrics
  deriving DecidableEq, Repr

def AuxiliaryFile.kind : AuxiliaryFile → String
  | .metricTable => "tma metrics"
  | .efficientMetricTable => "e-core tma metrics"
  | .uncoreRewrites => "uncore csv"
  | .extraMetrics => "extra metrics"

structure Model where
  /-- A short code such as `SKL`. -/
  shortname : String
  /-- A name in lower case such as `skylake`. -/
  longname : String
  version : String
  /-- The distinct identifiers of its processors in ascending order. -/
  identifiers : List String
  /-- Where its files are, by kind. -/
  files : Std.TreeMap String String

namespace Model

/-- The model with the given names, whose long one may be in any case, and with the
given identifiers in any order. -/
def build (shortname longname version : String) (identifiers : List String)
    (files : Std.TreeMap String String) : Model where
  shortname := shortname
  longname := Text.lower longname
  version := version
  identifiers := Text.distinctSorted identifiers
  files := files

def hasFile (m : Model) (kind : String) : Bool :=
  m.files.contains kind

def isHybrid (m : Model) : Bool :=
  m.hasFile "atom" && m.hasFile "core"

/-- The line of the model in a map of identifiers to directories. -/
def mapLine? (m : Model) : Option String :=
  (Pattern.ofList? m.identifiers).map fun pattern =>
    pattern ++ "," ++ Text.lower m.version ++ "," ++ m.longname ++ ",core"

/-- The names, identifiers and files in several lines. -/
def summary (m : Model) : String :=
  m.shortname ++ " / " ++ m.longname ++ "\n" ++
    "\tmodels=" ++ Text.quoteList m.identifiers ++ "\n" ++
    "\tfiles:\n" ++
    String.join (m.files.toList.map fun (kind, url) => "\t\t" ++ kind ++ " = " ++ url ++ "\n")

end Model

end TopdownMetrics

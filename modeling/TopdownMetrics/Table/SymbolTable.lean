import Std.Data.TreeMap
import Std.Data.TreeSet
import TopdownMetrics.Text.Case

/-!
# Symbols of a formula table

The names that formulas of one architecture may refer to, each with its own formula
text.  A topdown node is known under the name it has in the table and is emitted
under its canonical name.
-/

namespace TopdownMetrics

structure SymbolTable where
  /-- Auxiliary fragments, by name without the mark. -/
  aux : Std.TreeMap String String := ∅
  /-- The formulas of all metrics, topdown or informational, by table name. -/
  info : Std.TreeMap String String := ∅
  /-- The formulas of topdown nodes. -/
  nodes : Std.TreeMap String String := ∅
  /-- The names under which topdown nodes are emitted. -/
  metricNames : Std.TreeMap String String := ∅
  /-- The chain of nodes from the root to the last topdown row. -/
  ancestors : List String := []
  children : Std.TreeMap String (Std.TreeSet String) := ∅

namespace SymbolTable

def nodeMetricName (name : String) : String :=
  "tma_" ++ Text.lower name

def addNode (t : SymbolTable) (name formula : String) : SymbolTable :=
  { t with
    nodes := t.nodes.insert name formula
    info := t.info.insert name formula
    metricNames := t.metricNames.insert name (nodeMetricName name) }

def addInfo (t : SymbolTable) (name formula : String) : SymbolTable :=
  { t with info := t.info.insert name formula }

/-- Auxiliary names may be given with or without their mark. -/
def addAux (t : SymbolTable) (name formula : String) : SymbolTable :=
  let key := match name.toList with
    | '#' :: cs => String.ofList cs
    | _ => name
  { t with aux := t.aux.insert key formula }

def addChild (t : SymbolTable) (parent child : String) : SymbolTable :=
  { t with children := t.children.insert parent ((t.children.getD parent ∅).insert child) }

/-- The children of a node in order of their names. -/
def childrenOf (t : SymbolTable) (parent : String) : List String :=
  (t.children.getD parent ∅).toList

/-- The name to which a reference to `name` resolves. -/
def canonicalName (t : SymbolTable) (name : String) : String :=
  t.metricNames.getD name name

end SymbolTable

end TopdownMetrics

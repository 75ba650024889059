import Std.Data.TreeMap
import TopdownMetrics.Diagnostic
import TopdownMetrics.Metrics.Draft

/-!
# Emitting records

Of the records of one name the first is emitted.  A later one with the same formula is
dropped quietly, one with another formula with a warning.  The record of a name is found
through an index, which holds the position of each record and nothing else.
-/

namespace TopdownMetrics

/-- The records that have been emitted and the findings about those that have not. -/
structure Emission where
  records : List Metric
  /-- Where the record of a name stands. -/
  positions : Std.TreeMap String Nat
  diagnostics : List Diagnostic
  position_iff : ∀ (name : String) (i : Nat),
    positions[name]? = some i ↔ (records.map (·.name))[i]? = some name

namespace Emission

variable {e : Emission} {m : Metric} {name : String} {i : Nat}

instance : EmptyCollection Emission where
  emptyCollection :=
    { records := []
      positions := ∅
      diagnostics := []
      position_iff := by simp }

@[simp] theorem records_empty : (∅ : Emission).records = [] :=
  rfl

theorem lt_length_of_position (h : e.positions[name]? = some i) : i < e.records.length := by
  have hname := (e.position_iff name i).1 h
  have hlt := (List.getElem?_eq_some_iff.1 hname).1
  rwa [List.length_map] at hlt

/-- A record of a new name stands behind all others. -/
theorem position_iff_concat (h : e.positions[m.name]? = none) (name : String) (i : Nat) :
    (e.positions.insert m.name e.records.length)[name]? = some i ↔
      ((e.records ++ [m]).map (·.name))[i]? = some name := by
  have hnew : (e.records.map (·.name))[i]? ≠ some m.name := by
    intro hi
    rw [(e.position_iff m.name i).2 hi] at h
    cases h
  rw [Std.TreeMap.getElem?_insert, List.map_append, List.getElem?_append]
  by_cases hname : m.name = name
  · subst hname
    grind
  · have hold := e.position_iff name i
    have hother : compare m.name name ≠ .eq := by simpa using hname
    rw [if_neg hother]
    grind

/-- Adds a record of a new name. -/
def append (e : Emission) (m : Metric) (h : e.positions[m.name]? = none) : Emission where
  records := e.records ++ [m]
  positions := e.positions.insert m.name e.records.length
  diagnostics := e.diagnostics
  position_iff := position_iff_concat h

@[simp] theorem records_append (h : e.positions[m.name]? = none) :
    (e.append m h).records = e.records ++ [m] :=
  rfl

@[simp] theorem diagnostics_append (h : e.positions[m.name]? = none) :
    (e.append m h).diagnostics = e.diagnostics :=
  rfl

/-- Adds a record, unless its name is taken; says whether it was added. -/
def push (e : Emission) (m : Metric) : Emission × Bool :=
  match h : e.positions[m.name]? with
  | none => (e.append m h, true)
  | some i =>
    let existing := e.records.get ⟨i, lt_length_of_position h⟩
    if existing.expr = m.expr then (e, false)
    else
      ({ e with diagnostics := e.diagnostics ++
          [.warning (.duplicateMetric m.name existing.expr m.expr)] }, false)

def ofDrafts (rules : Rules) (pmu : String) (ds : List Draft) : Emission :=
  ds.foldl (fun e d => (e.push (d.toMetric rules pmu)).1) ∅

end Emission

end TopdownMetrics

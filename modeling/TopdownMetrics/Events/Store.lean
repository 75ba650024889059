import TopdownMetrics.Events.Catalog

/-!
# The event records of a model

Records are kept by topic in the order in which they were added; an index finds the
last record of each name.  The catalog beside them holds the events that formulas may
refer to.
-/

namespace TopdownMetrics

/-- The kinds of files that hold events, in the order in which they are read. -/
def eventFileKinds : List String := ["atom", "core", "uncore", "uncore experimental"]

/-- Where a record stands. -/
structure RecordPosition where
  topic : String
  index : Nat
  deriving DecidableEq, Repr, Inhabited

structure EventStore where
  catalog : EventCatalog := {}
  topics : Std.TreeMap String (Array EventRecord) := ∅
  positions : Std.TreeMap String RecordPosition := ∅

namespace EventStore

def push (s : EventStore) (topic : String) (r : EventRecord) : EventStore :=
  let records := s.topics.getD topic #[]
  { s with
    topics := s.topics.insert topic (records.push r)
    positions := match r["EventName"]? with
      | some name => s.positions.insert name ⟨topic, records.size⟩
      | none => s.positions }

/-- The last record of a name. -/
def record? (s : EventStore) (name : String) : Option EventRecord := do
  let position ← s.positions[name]?
  (← s.topics[position.topic]?)[position.index]?

/-- Replaces the last record of a name. -/
def setRecord (s : EventStore) (name : String) (r : EventRecord) : EventStore :=
  match s.positions[name]? with
  | none => s
  | some position =>
    { s with
      topics := s.topics.modify position.topic (·.setIfInBounds position.index r) }

/-- Adds a copy of a record under a new name in the same topic. -/
def cloneAs? (s : EventStore) (name newName : String) : Option EventStore := do
  let position ← s.positions[name]?
  let record ← s.record? name
  return s.push position.topic (record.insert "EventName" newName)

def recordCount (s : EventStore) : Nat :=
  s.topics.foldl (fun n _ records => n + records.size) 0

/-- How the events of a file are marked: on a hybrid model by the unit of their cores,
and uncore events as counted once for each package. -/
structure FileMarks where
  unit : Option String
  perPackage : Bool

def FileMarks.ofKind (kind : String) (hybrid : Bool) : FileMarks where
  unit := if hybrid ∧ (kind = "atom" ∨ kind = "core") then some ("cpu_" ++ kind) else none
  perPackage := Text.startsWith kind "uncore"

/-- A unit of its own takes precedence over that of the file. -/
def FileMarks.mark (marks : FileMarks) (r : EventRecord) : EventRecord :=
  let r := match marks.unit with
    | some unit => r.insertIfNew "Unit" unit
    | none => r
  if marks.perPackage then r.insert "PerPkg" "1" else r

/-- Adds the events of a file that can be used, the first of each name only.  The list
of names seen so far belongs to this file. -/
def addEvents (marks : FileMarks) (s : EventStore) (seen : List String) (added : Nat) :
    List Event → EventStore × Nat
  | [] => (s, added)
  | e :: es =>
    match e.record? with
    | none => addEvents marks s seen added es
    | some r =>
      if seen.contains e.name then addEvents marks s seen added es
      else
        let s := s.push e.topic (marks.mark r)
        let s := { s with catalog := (s.catalog.register e).1 }
        addEvents marks s (e.name :: seen) (added + 1) es

/-- Adds the events of a file and returns their number; nothing, if the text is no
event file. -/
def addFile? (s : EventStore) (kind text : String) (hybrid : Bool) :
    Option (EventStore × Nat) :=
  (Event.ofFile? text).map (addEvents (.ofKind kind hybrid) s [] 0)

end EventStore

end TopdownMetrics

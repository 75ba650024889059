import TopdownMetrics.Csv.Reader
import TopdownMetrics.Events.Store

/-!
# Rewriting uncore events

A table of rewrites describes uncore events anew, sets their filters, scales and unit
masks, and attaches metrics to them.  A row either changes the record of its event or,
if it gives a new name, adds a changed copy.
-/

namespace TopdownMetrics

/-- A row of the table of rewrites. -/
structure UncoreRow where
  /-- The name of the event, possibly with a unit mask behind a colon. -/
  event : String
  newName : String
  description : String
  filter : String
  scale : String
  formula : String
  deriving DecidableEq, Repr, Inhabited

namespace UncoreRow

/-- The row in the cells of a table; missing cells are empty. -/
def ofCells (cells : List String) : UncoreRow :=
  let cell (i : Nat) : String := Text.trim (cells[i]?.getD "")
  ⟨cell 0, cell 1, cell 2, cell 3, cell 4, cell 5⟩

/-- The spellings of filters and the terms they become, in the order in which they are
replaced. -/
def filterTerms : List (String × String) :=
  [("State=", ",filter_state="), ("Match=", ",filter_opc="), (":opc=", ",filter_opc="),
   (":nc=", ",filter_nc="), (":tid=", ",filter_tid="), (":state=", ",filter_state="),
   (":filter1=", ",config1="), ("fc, chnl", "")]

/-- The name of the event and its unit mask, without the letter in front of it. -/
def nameAndMask (row : UncoreRow) : String × Option String :=
  match Text.cut? [':'] row.event.toList with
  | some (name, mask) => (String.ofList name, (Text.dropBytes? 1 mask).map String.ofList)
  | none => (row.event, none)

/-- The spelling of a name for the caching agent of later models. -/
def agentName (name : String) : String :=
  Text.replace (Text.replace name "_C_" "_CHA_") "_H_" "_CHA_"

/-- The event that a name refers to.  If there is no such event, or only a deprecated
one, the name may refer to an event of the caching agent. -/
def resolveName (catalog : EventCatalog) (name : String) : String :=
  let usable := (catalog.lookup? name).any (!·.isDeprecated)
  let renamed := agentName name
  if !usable && renamed != name && (catalog.lookup? renamed).isSome then renamed else name

/-- The characters of a unit mask at the start of a filter. -/
def isMaskChar (c : Char) : Bool :=
  c.isDigit || c == 'x' || ('a' ≤ c && c ≤ 'f')

/-- Splits a unit mask `:u…` off the start of a filter.  A mask that is no number is
dropped. -/
def splitMask (filter : List Char) : Option (Option String) × List Char :=
  match filter with
  | ':' :: 'u' :: rest =>
    let digits := rest.takeWhile isMaskChar
    if digits = [] then (none, filter)
    else
      (some ((hexWord? (Text.dropRepeated ['0', 'x'] digits.length digits)).map hexText),
        rest.dropWhile isMaskChar)
  | _ => (none, filter)

/-- The filter in terms of the unit, and the unit mask it sets. -/
def filterAndMask (row : UncoreRow) (filterValue : String) : String × Option String :=
  let filter := if row.filter = "Filter1" then "config1=" ++ filterValue else row.filter
  let filter := filterTerms.foldl (fun f (spelling, term) => Text.replace f spelling term) filter
  let (mask, rest) := splitMask filter.toList
  (Text.trimMatches (· == ',') (String.ofList rest), mask.join)

def scaleUnit (row : UncoreRow) : String :=
  if Text.contains row.scale "(" then
    String.ofList (row.scale.toList.filter fun c => c != '(' && c != ')')
  else
    row.scale ++ "Bytes"

/-- A name without the marks of uncore units, `UNC_` with a letter and `_`. -/
def dropUnitMarks : (skip : Nat) → List Char → List Char
  | _, [] => []
  | skip + 1, _ :: cs => dropUnitMarks skip cs
  | 0, c :: cs =>
    match c :: cs with
    | 'U' :: 'N' :: 'C' :: '_' :: l :: '_' :: _ =>
      if 'A' ≤ l ∧ l ≤ 'Z' then dropUnitMarks 5 cs else c :: dropUnitMarks 0 cs
    | _ => c :: dropUnitMarks 0 cs

/-- The name and the formula of the attached metric.  A quotient is a percentage of its
own name, in which `X` stands for the event. -/
def metric (row : UncoreRow) (target : String) : String × String :=
  if Text.contains row.formula "/" && !Text.contains target "LATENCY" then
    let formula := Text.replace row.formula "X/" (target ++ "/")
    (Text.lower (String.ofList (dropUnitMarks 0 target.toList)),
      "(" ++ Text.replace formula "/" " / " ++ ") * 100")
  else
    (target, row.formula)

/-- The values that the row sets in the record of its target. -/
def updates (row : UncoreRow) (name target filterValue : String) (mask : Option String) :
    List (String × String) :=
  let description :=
    if row.newName = "" ∨ row.description = "" then row.description
    else row.description ++ ". Derived from " ++ Text.lower name
  let (filter, filterMask) :=
    if row.filter = "" then ("", none) else row.filterAndMask filterValue
  let nonempty (key value : String) : List (String × String) :=
    if value = "" then [] else [(key, value)]
  nonempty "BriefDescription" description ++
    nonempty "Filter" filter ++
    ((filterMask.or mask).map fun m => ("UMask", m)).toList ++
    (if row.scale = "" then [] else [("ScaleUnit", row.scaleUnit)]) ++
    (if row.formula = "" then []
     else [("MetricName", (row.metric target).1), ("MetricExpr", (row.metric target).2)])

/-- Applies the row to the record of its event or to a copy; nothing, if there is no such
event. -/
def applyTo? (row : UncoreRow) (s : EventStore) : Option EventStore := do
  let (given, mask) := row.nameAndMask
  let name := resolveName s.catalog given
  let source ← s.catalog.lookup? name
  let target := if row.newName = "" then name else row.newName
  let s ← if row.newName = "" then some s else s.cloneAs? name row.newName
  let record ← s.record? target
  let changes := row.updates name target (source.filterValue.getD "") mask
  return s.setRecord target (changes.foldl (fun r (key, value) => r.insert key value) record)

end UncoreRow

namespace EventStore

/-- Applies the rows of a table of rewrites in order and counts those that apply. -/
def applyUncoreRows (s : EventStore) (rows : List UncoreRow) : EventStore × Nat :=
  rows.foldl
    (fun (s, count) row => match row.applyTo? s with
      | some s => (s, count + 1)
      | none => (s, count))
    (s, 0)

def applyUncoreText (s : EventStore) (text : String) : EventStore × Nat :=
  s.applyUncoreRows ((Csv.rows text).map UncoreRow.ofCells)

end EventStore

end TopdownMetrics

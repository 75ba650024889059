import Std.Data.TreeMap
import TopdownMetrics.Events.Topic
import TopdownMetrics.Json.Printer
import TopdownMetrics.Json.Reader
import TopdownMetrics.Text.Blank
import TopdownMetrics.Text.Case

/-!
# Events

Event files list events as objects with free-form values.  An `Event` holds the
cleaned values; a `Record` is the form in which an event is written.
-/

namespace TopdownMetrics

/-- A hexadecimal number of 64 bits, with an optional plus sign. -/
def hexWord? (cs : List Char) : Option Nat :=
  let ds := match cs with
    | '+' :: ds => ds
    | ds => ds
  if ds = [] then none
  else
    match ds.mapM Json.hexDigit? with
    | some values =>
      let n := values.foldl (fun n d => 16 * n + d) 0
      if n < UInt64.size then some n else none
    | none => none

def hexText (n : Nat) : String :=
  "0x" ++ String.ofList (Nat.toDigits 16 n)

/-- The canonical form of a hexadecimal number; other texts are kept. -/
def canonicalHex (text : String) : String :=
  let cs := text.toList
  let cs := Text.dropRepeated ['0', 'x'] cs.length cs
  let cs := Text.dropRepeated ['0', 'X'] cs.length cs
  match hexWord? cs with
  | some n => hexText n
  | none => text

/-- An event in the form in which it is written: values by key, in order of keys. -/
abbrev EventRecord := Std.TreeMap String String

structure Event where
  name : String
  anyThread : Option String := none
  counterMask : Option String := none
  dataLa : Option String := none
  deprecated : Option String := none
  edgeDetect : Option String := none
  errata : Option String := none
  eventCode : Option String := none
  fcMask : Option String := none
  filter : Option String := none
  filterValue : Option String := none
  invert : Option String := none
  msrIndex : Option String := none
  msrValue : Option String := none
  pebs : Option String := none
  portMask : Option String := none
  sampleAfterValue : Option String := none
  umask : Option String := none
  unit : Option String := none
  briefDescription : Option String := none
  publicDescription : Option String := none
  topic : String := ""
  deriving DecidableEq, Repr, Inhabited

namespace Event

/-- The values that mean that nothing is set. -/
def unsetValues : List String := ["0", "0x0", "0x00", "na", "null", "tbd"]

/-- Filters without an encoding; they are left out. -/
def removedFilters : List String :=
  ["cbofilter", "chafilter", "pcufilter", "qpimask", "uboxfilter", "fc, chnl", "chnl", "ctrctrl"]

def unusableFilters : List String := ["ha_addrmatch", "ha_opcodematch", "irpfilter"]

/-- The text of a value; values that are not strings are written compactly. -/
def valueText : Json → Option String
  | .string s => some s
  | .null => none
  | v => some v.compact

/-- Trade marks written out, byte order marks removed. -/
def cleanMarks (text : String) : String :=
  Text.replace (Text.replace (Text.replace text "\u00ae" "(R)") "\u2122" "(TM)") "\ufeff" ""

/-- The cleaned value of a key; nothing for placeholders. -/
def clean? (raw : Json.Members) (key : String) : Option String := do
  let text ← valueText (← raw.get? key)
  if text = "" ∨ unsetValues.contains text then none
  else some (cleanMarks (Text.trim text))

def fixName (name : String) : String :=
  match Text.dropPrefix? "OFFCORE_RESPONSE_0".toList name.toList with
  | some rest => "OFFCORE_RESPONSE" ++ String.ofList rest
  | none =>
    match Text.dropPrefix? "OFFCORE_RESPONSE:request=".toList name.toList with
    | none => name
    | some rest =>
      match Text.cut? ":response=".toList rest with
      | some (request, response) =>
        "OFFCORE_RESPONSE." ++ String.ofList request ++ "." ++ String.ofList response
      | none => name

/-- The unit mask: its first part, behind the digits of the extension. -/
def umask? (raw : Json.Members) : Option String := do
  let whole ← clean? raw "UMask"
  let first := Text.trimChars (whole.toList.takeWhile (· ≠ ','))
  let combined := match clean? raw "UMaskExt" with
    | some extension => extension ++ String.ofList ((Text.dropBytes? 2 first).getD [])
    | none => String.ofList first
  return canonicalHex combined

/-- Whether the event is counted by a counter of its own. -/
def isFixed (raw : Json.Members) : Bool :=
  match raw.get? "Counter" with
  | some (.string s) => s.toList.map Char.toLower == "fixed".toList
  | _ => false

/-- The filter in the form in which it is written. -/
def filter? (raw : Json.Members) : Option String := do
  let filter ← clean? raw "Filter"
  let lower := Text.lower filter
  if removedFilters.any (Text.startsWith lower ·) then none
  else if filter = "Filter1" then
    some ("config1=" ++ (clean? raw "FILTER_VALUE").getD "")
  else some filter

/-- The short description; one event has none in its file. -/
def brief? (raw : Json.Members) (name : String) : Option String :=
  (clean? raw "BriefDescription").or <| (clean? raw "Description").or <|
    if name = "OFFCORE_RESPONSE.COREWB.ANY_RESPONSE" then some "COREWB & ANY_RESPONSE"
    else none

/-- The long description, if it says more than the short one. -/
def public? (raw : Json.Members) (brief : Option String) : Option String :=
  ((clean? raw "PublicDescription").or (clean? raw "Description")).filter fun long =>
    !brief.any (Text.contains · long)

/-- The unit; the socket clock has a unit of its own. -/
def unit? (raw : Json.Members) (name : String) : Option String :=
  match clean? raw "Unit" with
  | some unit => if unit = "NCU" ∧ name = "UNC_CLOCK.SOCKET" then some "CLOCK" else some unit
  | none => none

/-- The event that an object describes; nothing, if the object has no event name. -/
def ofMembers? (raw : Json.Members) : Option Event := do
  let name := fixName (← clean? raw "EventName")
  let unit := unit? raw name
  let fixed := isFixed raw
  let brief := brief? raw name
  return {
    name := name
    anyThread := clean? raw "AnyThread"
    counterMask := clean? raw "CounterMask"
    dataLa := clean? raw "Data_LA"
    deprecated := clean? raw "Deprecated"
    edgeDetect := clean? raw "EdgeDetect"
    errata := clean? raw "Errata"
    eventCode := if fixed then some "0xff" else clean? raw "EventCode"
    fcMask := clean? raw "FCMask"
    filter := filter? raw
    filterValue := clean? raw "FILTER_VALUE"
    invert := clean? raw "Invert"
    msrIndex := clean? raw "MSRIndex"
    msrValue := clean? raw "MSRValue"
    pebs := clean? raw "PEBS"
    portMask := clean? raw "PortMask"
    sampleAfterValue := clean? raw "SampleAfterValue"
    umask := if fixed || unit == some "PCU" then none else umask? raw
    unit := unit
    briefDescription := brief
    publicDescription := public? raw brief
    topic := topicOf name unit }

def isDeprecated (e : Event) : Bool :=
  e.deprecated == some "1"

def isUnusable (e : Event) : Bool :=
  e.filter.any fun filter => unusableFilters.any (Text.startsWith (Text.lower filter) ·)

def fields (e : Event) : List (String × Option String) :=
  [("AnyThread", e.anyThread), ("BriefDescription", e.briefDescription),
   ("CounterMask", e.counterMask), ("Data_LA", e.dataLa), ("Deprecated", e.deprecated),
   ("EdgeDetect", e.edgeDetect), ("Errata", e.errata), ("EventCode", e.eventCode),
   ("FCMask", e.fcMask), ("Filter", e.filter), ("Invert", e.invert),
   ("MSRIndex", e.msrIndex), ("MSRValue", e.msrValue), ("PEBS", e.pebs),
   ("PortMask", e.portMask), ("PublicDescription", e.publicDescription),
   ("SampleAfterValue", e.sampleAfterValue), ("UMask", e.umask), ("Unit", e.unit)]

def record? (e : Event) : Option EventRecord :=
  if e.isUnusable then none
  else
    some <| e.fields.foldl
      (fun r (key, value) => match value with
        | some value => r.insert key value
        | none => r)
      ((∅ : EventRecord).insert "EventName" e.name)

/-- The objects of an event file: an array, or an object that holds it as `Events`. -/
def fileObjects? (v : Json) : Option (List Json.Members) :=
  let objects (items : List Json) : Option (List Json.Members) :=
    items.mapM fun
      | .object members => some members
      | _ => none
  match v with
  | .array items => objects items
  | .object members =>
    match members.filter (·.1 == "Events") with
    | [(_, .array items)] => objects items
    | _ => none
  | _ => none

/-- The events of an event file; nothing, if the text is none. -/
def ofFile? (text : String) : Option (List Event) := do
  let text := String.ofList (text.toList.dropWhile (· = '\ufeff'))
  let objects ← fileObjects? (← Json.parse? text)
  return objects.filterMap ofMembers?

end Event

end TopdownMetrics

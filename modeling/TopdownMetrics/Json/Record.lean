import TopdownMetrics.Json.Reader

/-!
# Records in JSON

A record is written as an object with the names of its fields, or as the array of its
fields in order.  Members that are no fields are passed over; a field must not be given
twice.
-/

namespace TopdownMetrics.Json

abbrev Fields := String → Option Json

/-- The fields of a record that has the given field names. -/
def fields? (names : List String) : Json → Option Fields
  | .object members =>
    if names.all fun name => (members.filter (·.1 == name)).length ≤ 1 then
      some fun name => List.lookup name members
    else none
  | .array items =>
    if items.length ≤ names.length then some fun name => List.lookup name (names.zip items)
    else none
  | _ => none

def string? : Json → Option String
  | .string s => some s
  | _ => none

/-- A string or `null`. -/
def nullableString? : Json → Option (Option String)
  | .string s => some (some s)
  | .null => some none
  | _ => none

def Fields.required? {α : Type} (fs : Fields) (name : String) (read : Json → Option α) :
    Option α :=
  (fs name).bind read

def Fields.defaulting? {α : Type} (fs : Fields) (name : String) (read : Json → Option α)
    (default : α) : Option α :=
  match fs name with
  | some v => read v
  | none => some default

def Fields.text? (fs : Fields) (name : String) : Option (Option String) :=
  fs.defaulting? name nullableString? none

/-! ## Lists of records -/

open Scanner

/-- A member of a record, if it is one of its fields.  Other members are passed over. -/
def fieldMember (names : List String) (fuel : Nat) : Scanner (Option (String × Json)) := do
  let (name, v) ← member .keep fuel fun name =>
    if names.contains name then some <$> value .keep fuel depthLimit
    else do
      passedOver fuel
      return none
  return v.map (name, ·)

def recordValue (names : List String) (fuel : Nat) : Scanner Json := do
  if (← peek?) = some '\x7b' then
    char '\x7b'
    return .object ((← items fuel '\x7d' (fieldMember names fuel)).filterMap id)
  else
    value .keep fuel depthLimit

/-- The records with the given field names in the text of an array. -/
def parseRecords? (names : List String) (text : String) : Option (List Json) :=
  let document : Scanner (List Json) := do
    blanks
    char '['
    let records ← items text.length ']' (recordValue names text.length)
    blanks
    return records
  runAll? document text

end TopdownMetrics.Json

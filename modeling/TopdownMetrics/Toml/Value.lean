import TopdownMetrics.Text.Substring

/-!
# Values of a configuration document

Tables remember how they came about, because that decides whether a later line of
the document may extend them.
-/

namespace TopdownMetrics.Toml

/-- How a table was introduced. -/
inductive Origin where
  /-- By a header of its own. -/
  | header
  /-- As the parent of a table with a header. -/
  | implied
  /-- As a part of a dotted key. -/
  | dotted
  /-- In braces; nothing can extend it. -/
  | inline
  deriving DecidableEq, Repr, Inhabited

inductive Value where
  | string (s : String)
  | integer (n : Int)
  /-- A floating-point number, kept as it was written. -/
  | float (source : String)
  | boolean (b : Bool)
  /-- A date, a time or both, kept as written. -/
  | datetime (source : String)
  /-- An array in brackets. -/
  | array (items : List Value)
  /-- The tables under one `[[header]]`, first to last. -/
  | tables (items : List Value)
  | table (origin : Origin) (entries : List (String × Value))
  deriving Repr, Inhabited

abbrev Entries := List (String × Value)

end TopdownMetrics.Toml

/-! # Toml.Basic — the values of a TOML document

Settings are made of texts, switches and lists, so numbers and dates keep nothing but their kind
once they are known to be well formed. A table remembers how it came about, for that decides whether
and how it may be extended.
-/

namespace ClassSurface.Toml

/-- How a table came about. -/
inductive Origin where
  /-- By a header of its own, or as the root. -/
  | header
  /-- As a step on the way to a header. -/
  | implied
  /-- As a step of a dotted key. -/
  | dotted
  /-- Between braces; such a table is complete. -/
  | inline
  deriving DecidableEq, Repr, Inhabited

inductive Value where
  | string (value : String)
  | boolean (value : Bool)
  | number
  | dateTime
  | array (items : List Value)
  /-- The tables under repeated headers in double brackets, the last one being the open one. -/
  | tables (items : List (List (String × Value)))
  | table (origin : Origin) (entries : List (String × Value))
  deriving Inhabited

/-- The entries of a table, in the order in which they were made. -/
abbrev Entries := List (String × Value)

end ClassSurface.Toml

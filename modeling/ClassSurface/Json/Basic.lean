/-! # Json.Basic — JSON texts as trees

A tree keeps what a reader may still want to refuse: numbers as they are written, and the absence of
a string where an escape names half a surrogate pair and nothing completes it.
-/

namespace ClassSurface

/-- A number as it is written, sign and groups of digits apart. -/
structure Json.Numeral where
  negative : Bool
  whole : List Char
  fraction : List Char := []
  /-- Whether the exponent is negative, and its digits. -/
  exponent : Option (Bool × List Char) := none
  deriving DecidableEq, Repr, Inhabited

inductive Json where
  | null
  | bool (value : Bool)
  | number (value : Json.Numeral)
  /-- A string; `none` stands for a literal that denotes no text. -/
  | string (value : Option String)
  | array (items : List Json)
  | object (members : List (Option String × Json))
  deriving Inhabited

end ClassSurface

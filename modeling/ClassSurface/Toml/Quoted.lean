import ClassSurface.Text.Digit

/-! # Toml.Quoted — the strings of TOML

Basic strings stand between double quotes and know escapes, literal strings stand between single
quotes and know none. Either may span lines between tripled quotes: a line end right behind the
opening ones is dropped, and up to two quotes right before the closing ones belong to the text. A
backslash at the end of a line swallows the line end and all blanks and line ends after it.
-/

namespace ClassSurface.Toml

open Text

def isGap (c : Char) : Bool := c == ' ' || c == '\t'

/-- A character that may stand in comments and strings: no control other than the tab. -/
def isPlain (c : Char) : Bool := c == '\t' || (0x20 ≤ c.toNat && c.toNat != 0x7F)

/-- What follows a line end at the start of a text. -/
def afterNewline? : List Char → Option (List Char)
  | '\n' :: s => some s
  | '\r' :: '\n' :: s => some s
  | _ => none

def scalarValue? (ds : List Char) : Option Char := do
  let n ← hexValue? ds
  if h : n.isValidChar then some (Char.ofNatAux n h) else none

/-- The character that an escape stands for, and the text behind it. -/
def escape? : List Char → Option (Char × List Char)
  | 'b' :: s => some ('\x08', s)
  | 't' :: s => some ('\t', s)
  | 'n' :: s => some ('\n', s)
  | 'f' :: s => some ('\x0c', s)
  | 'r' :: s => some ('\r', s)
  | 'e' :: s => some ('\x1b', s)
  | '"' :: s => some ('"', s)
  | '\\' :: s => some ('\\', s)
  | 'x' :: s => if 2 ≤ s.length then (scalarValue? (s.take 2)).map (·, s.drop 2) else none
  | 'u' :: s => if 4 ≤ s.length then (scalarValue? (s.take 4)).map (·, s.drop 4) else none
  | 'U' :: s => if 8 ≤ s.length then (scalarValue? (s.take 8)).map (·, s.drop 8) else none
  | _ => none

/-- The rest of a literal string on one line. -/
def literal : List Char → Option (List Char × List Char)
  | [] => none
  | '\'' :: s => some ([], s)
  | c :: s => if isPlain c then (literal s).map fun (text, rest) => (c :: text, rest) else none

/-- The rest of a basic string on one line, in at most as many steps as there are characters. -/
def basic : Nat → List Char → Option (List Char × List Char)
  | 0, _ => none
  | _ + 1, [] => none
  | _ + 1, '"' :: s => some ([], s)
  | steps + 1, '\\' :: s => do
    let (c, s) ← escape? s
    let (text, rest) ← basic steps s
    some (c :: text, rest)
  | steps + 1, c :: s =>
    if isPlain c then (basic steps s).map fun (text, rest) => (c :: text, rest) else none

/-- The quotes that belong to the text right before the closing ones, and the text behind all of
them. -/
def closingQuotes (quote : Char) : List Char → List Char × List Char
  | a :: b :: s =>
    if a = quote ∧ b = quote then ([a, b], s)
    else if a = quote then ([a], b :: s)
    else ([], a :: b :: s)
  | [a] => if a = quote then ([a], []) else ([], [a])
  | [] => ([], [])

/-- The rest of a literal string that may span lines. -/
def multilineLiteral : List Char → Option (List Char × List Char)
  | [] => none
  | '\'' :: '\'' :: '\'' :: s => some (closingQuotes '\'' s)
  | '\n' :: s => (multilineLiteral s).map fun (text, rest) => ('\n' :: text, rest)
  | '\r' :: '\n' :: s => (multilineLiteral s).map fun (text, rest) => ('\r' :: '\n' :: text, rest)
  | c :: s =>
    if isPlain c then (multilineLiteral s).map fun (text, rest) => (c :: text, rest) else none

/-- What follows the blanks and line ends at the start of a text. -/
def skipBlankLines : List Char → List Char
  | '\r' :: '\n' :: s => skipBlankLines s
  | c :: s => if isGap c || c == '\n' then skipBlankLines s else c :: s
  | [] => []

/-- What follows a backslash that ends its line. -/
def afterLineEnd? (s : List Char) : Option (List Char) :=
  (afterNewline? (s.dropWhile isGap)).map skipBlankLines

/-- The rest of a basic string that may span lines, in at most as many steps as there are
characters. -/
def multilineBasic : Nat → List Char → Option (List Char × List Char)
  | 0, _ => none
  | _ + 1, [] => none
  | _ + 1, '"' :: '"' :: '"' :: s => some (closingQuotes '"' s)
  | steps + 1, '\\' :: s =>
    match afterLineEnd? s with
    | some s => multilineBasic steps s
    | none => do
      let (c, s) ← escape? s
      let (text, rest) ← multilineBasic steps s
      some (c :: text, rest)
  | steps + 1, '\n' :: s => (multilineBasic steps s).map fun (text, rest) => ('\n' :: text, rest)
  | steps + 1, '\r' :: '\n' :: s =>
    (multilineBasic steps s).map fun (text, rest) => ('\r' :: '\n' :: text, rest)
  | steps + 1, c :: s =>
    if isPlain c then (multilineBasic steps s).map fun (text, rest) => (c :: text, rest) else none

/-- A string at the start of a text, on one line. -/
def lineString : List Char → Option (List Char × List Char)
  | '"' :: s => basic (s.length + 1) s
  | '\'' :: s => literal s
  | _ => none

/-- A string of any form at the start of a text. -/
def anyString : List Char → Option (List Char × List Char)
  | '"' :: '"' :: '"' :: s =>
    let s := (afterNewline? s).getD s
    multilineBasic (s.length + 1) s
  | '\'' :: '\'' :: '\'' :: s => multilineLiteral ((afterNewline? s).getD s)
  | s => lineString s

end ClassSurface.Toml

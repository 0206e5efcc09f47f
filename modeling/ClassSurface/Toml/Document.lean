import ClassSurface.Toml.Quoted
import ClassSurface.Toml.Scalar
import ClassSurface.Toml.Table

/-! # Toml.Document — reading a TOML text

`read? s` is the root table of the document `s`. Lines end at `\n` or `\r\n`; a byte order mark in
front is passed over. Inside brackets and braces line ends and comments may stand between items and
on either side of an equals sign, and a comma behind the last item.
-/

namespace ClassSurface.Toml

/-- How deep arrays and inline tables may nest, and how long a dotted key may be. -/
def maxNesting : Nat := 80

/-! ### Gaps and keys -/

def skipGap (s : List Char) : List Char := s.dropWhile isGap

/-- What follows blanks, line ends and comments. -/
def skipLinesWithin : Nat → List Char → List Char
  | 0, s => s
  | steps + 1, s =>
    match skipGap s with
    | '\n' :: s => skipLinesWithin steps s
    | '\r' :: '\n' :: s => skipLinesWithin steps s
    | '#' :: s => skipLinesWithin steps (s.dropWhile isPlain)
    | s => s

def skipLines (s : List Char) : List Char := skipLinesWithin (s.length + 1) s

/-- What follows the end of a line, a comment before it included; the text may also end here. -/
def endOfLine? (s : List Char) : Option (List Char) :=
  let s := skipGap s
  let s := match s with
    | '#' :: s => s.dropWhile isPlain
    | s => s
  if s.isEmpty then some [] else afterNewline? s

def isBareKey (c : Char) : Bool := c.isAlphanum || c == '_' || c == '-'

def simpleKey (s : List Char) : Option (String × List Char) :=
  match lineString s with
  | some (name, rest) => some (String.ofList name, rest)
  | none =>
    let name := s.takeWhile isBareKey
    if name.isEmpty then none else some (String.ofList name, s.dropWhile isBareKey)

/-- A key of at most so many parts divided by points, the last part apart, and what follows it and
its gap. -/
def dottedKey : Nat → List Char → Option (List String × String × List Char)
  | 0, _ => none
  | parts + 1, s => do
    let (name, s) ← simpleKey s
    match skipGap s with
    | '.' :: s => do
      let (path, last, s) ← dottedKey parts (skipGap s)
      some (name :: path, last, s)
    | s => some ([], name, s)

/-! ### Values -/

def isWordChar (c : Char) : Bool :=
  c.isAlphanum || c == '_' || c == '+' || c == '-' || c == '.' || c == ':'

/-- A boolean, a number, or a date, of which the time may stand behind a space. -/
def scalar (s : List Char) : Option (Value × List Char) :=
  let word := s.takeWhile isWordChar
  let rest := s.dropWhile isWordChar
  if word = "true".toList then some (.boolean true, rest)
  else if word = "false".toList then some (.boolean false, rest)
  else if isNumber word then some (.number, rest)
  else if isDate word then
    match rest with
    | ' ' :: d :: s =>
      if d.isDigit then
        let time := (d :: s).takeWhile isWordChar
        if isZonedTime time then some (.dateTime, (d :: s).dropWhile isWordChar) else none
      else some (.dateTime, rest)
    | _ => some (.dateTime, rest)
  else if isDateTime word then some (.dateTime, rest)
  else none

mutual

/-- A value at the start of a text, with `levels` of nesting left. Every call of the three functions
takes a character or is followed by one that does, so the steps are bounded by the length of the
text. -/
def value : Nat → Nat → List Char → Option (Value × List Char)
  | 0, _, _ => none
  | _ + 1, 0, '[' :: _ => none
  | _ + 1, 0, '{' :: _ => none
  | steps + 1, levels + 1, '[' :: s => do
    let (items, s) ← items steps levels (skipLines s)
    some (.array items, s)
  | steps + 1, levels + 1, '{' :: s => do
    let (t, s) ← members steps levels [] (skipLines s)
    some (.table .inline t, s)
  | _ + 1, _, s =>
    match s with
    | '"' :: _ => (anyString s).map fun (text, rest) => (.string (String.ofList text), rest)
    | '\'' :: _ => (anyString s).map fun (text, rest) => (.string (String.ofList text), rest)
    | _ => scalar s

/-- The items of an array up to its closing bracket. -/
def items : Nat → Nat → List Char → Option (List Value × List Char)
  | 0, _, _ => none
  | _ + 1, _, ']' :: s => some ([], s)
  | steps + 1, levels, s => do
    let (item, s) ← value steps levels s
    match skipLines s with
    | ',' :: s => do
      let (more, s) ← items steps levels (skipLines s)
      some (item :: more, s)
    | ']' :: s => some ([item], s)
    | _ => none

/-- The members of an inline table up to its closing brace, added to those read so far. -/
def members : Nat → Nat → Entries → List Char → Option (Entries × List Char)
  | 0, _, _, _ => none
  | _ + 1, _, t, '}' :: s => some (t, s)
  | steps + 1, levels, t, s => do
    let (path, name, s) ← dottedKey maxNesting s
    match skipLines s with
    | '=' :: s => do
      let (v, s) ← value steps levels (skipLines s)
      let t ← insertAt t path name v
      match skipLines s with
      | ',' :: s => members steps levels t (skipLines s)
      | '}' :: s => some (t, s)
      | _ => none
    | _ => none

end

/-! ### Lines -/

/-- A line that says something. -/
inductive Statement where
  | entry (path : List String) (name : String) (value : Value)
  | table (path : List String) (name : String)
  | appended (path : List String) (name : String)

/-- The statement at the start of a text, and what follows its line. -/
def statement : List Char → Option (Statement × List Char)
  | '[' :: '[' :: s => do
    let (path, name, s) ← dottedKey maxNesting (skipGap s)
    match s with
    | ']' :: ']' :: s => (endOfLine? s).map (.appended path name, ·)
    | _ => none
  | '[' :: s => do
    let (path, name, s) ← dottedKey maxNesting (skipGap s)
    match s with
    | ']' :: s => (endOfLine? s).map (.table path name, ·)
    | _ => none
  | s => do
    let (path, name, s) ← dottedKey maxNesting s
    match s with
    | '=' :: s => do
      let s := skipGap s
      let (v, s) ← value (2 * s.length + 2) maxNesting s
      (endOfLine? s).map (.entry path name v, ·)
    | _ => none

/-- All statements of a text. A statement takes at least one character. -/
def statements : Nat → List Char → Option (List Statement)
  | steps, s =>
    match steps, skipLines s with
    | _, [] => some []
    | 0, _ => none
    | steps + 1, s => do
      let (first, s) ← statement s
      let more ← statements steps s
      some (first :: more)

/-- The entries right after a header, or at the top of a document, made one by one. -/
def addEntries (t : Entries) : List Statement → Option Entries
  | .entry path name v :: rest => do addEntries (← insertAt t path name v) rest
  | _ => some t

/-- Carries out the headers, each with the entries after it. -/
def addSections (root : Entries) : List Statement → Option Entries
  | [] => some root
  | .entry .. :: rest => addSections root rest
  | .table path name :: rest => do
    addSections (← openTable root path name (addEntries · rest)) rest
  | .appended path name :: rest => do
    addSections (← appendTable root path name (addEntries · rest)) rest

/-- The root table of a document. -/
def read? (s : String) : Option Entries := do
  let s := match s.toList with
    | '\uFEFF' :: s => s
    | s => s
  let all ← statements s.length s
  addSections (← addEntries [] all) all

end ClassSurface.Toml

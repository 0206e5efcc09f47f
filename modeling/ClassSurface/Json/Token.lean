import ClassSurface.Json.Basic
import ClassSurface.Text.Digit

/-! # Json.Token — the tokens of a JSON text

`tokens` splits a text into punctuation, literals, numbers and strings. It refuses whatever is no
token of strict JSON: leading zeros or a plus sign, a byte order mark, control characters and
unknown escapes inside strings.
-/

namespace ClassSurface.Json

open Text

inductive Token where
  | openArray
  | closeArray
  | openObject
  | closeObject
  | comma
  | colon
  | null
  | bool (value : Bool)
  | number (value : Numeral)
  | string (value : Option String)
  deriving DecidableEq, Repr

def isSpace (c : Char) : Bool := c == ' ' || c == '\t' || c == '\n' || c == '\r'

/-! ### Strings -/

/-- One character of a string literal, or one half of a surrogate pair given by an escape. -/
inductive Unit16 where
  | char (c : Char)
  | half (code : Nat)
  deriving DecidableEq, Repr

def isHighHalf (n : Nat) : Bool := 0xD800 ≤ n && n < 0xDC00

def isLowHalf (n : Nat) : Bool := 0xDC00 ≤ n && n < 0xE000

/-- The text of a string literal; a half without its partner leaves none. -/
def joinHalves : List Unit16 → Option (List Char)
  | [] => some []
  | .char c :: us => (joinHalves us).map (c :: ·)
  | .half h :: .half l :: us =>
    if isHighHalf h && isLowHalf l then
      (joinHalves us).map (Char.ofNat (0x10000 + (h - 0xD800) * 0x400 + (l - 0xDC00)) :: ·)
    else none
  | .half _ :: _ => none

def escaped? : Char → Option Char
  | '"' => some '"'
  | '\\' => some '\\'
  | '/' => some '/'
  | 'b' => some '\x08'
  | 'f' => some '\x0c'
  | 'n' => some '\n'
  | 'r' => some '\r'
  | 't' => some '\t'
  | _ => none

def codeUnit (n : Nat) : Unit16 :=
  if isHighHalf n || isLowHalf n then .half n else .char (Char.ofNat n)

/-- The rest of a string literal after its opening quote, and the text behind its closing one. -/
def scanString : List Char → Option (List Unit16 × List Char)
  | [] => none
  | '"' :: s => some ([], s)
  | '\\' :: 'u' :: a :: b :: c :: d :: s => do
    let n ← hexValue? [a, b, c, d]
    let (us, rest) ← scanString s
    some (codeUnit n :: us, rest)
  | '\\' :: e :: s => do
    let c ← escaped? e
    let (us, rest) ← scanString s
    some (.char c :: us, rest)
  | c :: s =>
    if c.toNat < 0x20 || c == '\\' then none
    else do
      let (us, rest) ← scanString s
      some (.char c :: us, rest)

/-! ### Numbers -/

/-- A point must be followed by a digit. -/
def scanFraction : List Char → Option (List Char × List Char)
  | '.' :: s =>
    let (digits, rest) := spanDigits s
    if digits.isEmpty then none else some (digits, rest)
  | s => some ([], s)

def scanExponent : List Char → Option (Option (Bool × List Char) × List Char)
  | c :: s =>
    if c == 'e' || c == 'E' then
      let (negative, s) := match s with
        | '+' :: s => (false, s)
        | '-' :: s => (true, s)
        | s => (false, s)
      let (digits, rest) := spanDigits s
      if digits.isEmpty then none else some (some (negative, digits), rest)
    else some (none, c :: s)
  | [] => some (none, [])

/-- The whole part: one zero, or digits of which the first is not zero. -/
def scanWhole : List Char → Option (List Char × List Char)
  | '0' :: s => some (['0'], s)
  | s =>
    let (digits, rest) := spanDigits s
    if digits.isEmpty then none else some (digits, rest)

def scanNumber (s : List Char) : Option (Numeral × List Char) := do
  let (negative, s) := match s with
    | '-' :: s => (true, s)
    | s => (false, s)
  let (whole, s) ← scanWhole s
  let (fraction, s) ← scanFraction s
  let (exponent, s) ← scanExponent s
  some ({ negative, whole, fraction, exponent }, s)

/-! ### Tokens -/

/-- The token at the start of a text that starts with no space. -/
def scanToken : List Char → Option (Token × List Char)
  | '[' :: s => some (.openArray, s)
  | ']' :: s => some (.closeArray, s)
  | '{' :: s => some (.openObject, s)
  | '}' :: s => some (.closeObject, s)
  | ',' :: s => some (.comma, s)
  | ':' :: s => some (.colon, s)
  | 'n' :: 'u' :: 'l' :: 'l' :: s => some (.null, s)
  | 't' :: 'r' :: 'u' :: 'e' :: s => some (.bool true, s)
  | 'f' :: 'a' :: 'l' :: 's' :: 'e' :: s => some (.bool false, s)
  | '"' :: s => do
    let (us, rest) ← scanString s
    some (.string ((joinHalves us).map String.ofList), rest)
  | s => do
    let (value, rest) ← scanNumber s
    some (.number value, rest)

/-- All tokens of a text. A token takes at least one character, so the length of the text is steps
enough. -/
def tokensWithin : Nat → List Char → Option (List Token)
  | _, [] => some []
  | 0, _ :: _ => none
  | steps + 1, c :: s =>
    if isSpace c then tokensWithin steps s
    else do
      let (token, rest) ← scanToken (c :: s)
      let more ← tokensWithin steps rest
      some (token :: more)

def tokens (s : List Char) : Option (List Token) := tokensWithin s.length s

end ClassSurface.Json

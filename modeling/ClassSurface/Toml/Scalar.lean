import ClassSurface.Text.Digit

/-! # Toml.Scalar — well-formed numbers, dates and times

The predicates here take a whole word. Digits may be grouped by single underscores inside numbers.
An integer must fit 128 bits, a floating-point number must not be beyond the largest finite one. In
a time the seconds may be left out, and only seconds may have a fraction.
-/

namespace ClassSurface.Toml

open Text

/-- A row of digits of the given kind, underscores between them dropped, and what follows it. -/
def digitRow (isDigit : Char → Bool) : List Char → List Char × List Char
  | '_' :: c :: s =>
    if isDigit c then
      let (digits, rest) := digitRow isDigit s
      (c :: digits, rest)
    else ([], '_' :: c :: s)
  | c :: s =>
    if isDigit c then
      let (digits, rest) := digitRow isDigit s
      (c :: digits, rest)
    else ([], c :: s)
  | [] => ([], [])

/-- A row of at least one digit, which starts with a digit. -/
def digitRow? (isDigit : Char → Bool) (s : List Char) : Option (List Char × List Char) :=
  match s with
  | c :: _ => if isDigit c then some (digitRow isDigit s) else none
  | [] => none

/-! ### Numbers -/

/-- Integers are kept in 128 bits, with a sign or without. -/
def fitsInteger (negative : Bool) (magnitude : Nat) : Bool :=
  if negative then magnitude ≤ 1 <<< 127 else magnitude < 1 <<< 128

/-- Whether `digits · 10 ^ exponent` rounds to a finite number. -/
def isFinite (digits : Nat) (exponent : Int) : Bool :=
  let limit := (1 <<< 1024) - (1 <<< 970)
  let length : Int := (Nat.toDigits 10 digits).length
  if digits = 0 || length + exponent < 300 then true
  else if 310 < length + exponent then false
  else digits * Nat.pow 10 exponent.toNat < limit * Nat.pow 10 (-exponent).toNat

/-- An integer in another base, after its mark. -/
def isBased (base : Nat) (isDigit : Char → Bool) (s : List Char) : Bool :=
  match digitRow? isDigit s with
  | some (digits, []) =>
    fitsInteger false (digits.foldl (fun n d => n * base + (hexDigit? d).getD 0) 0)
  | _ => false

/-- A decimal exponent, with its mark, at the start of a text. -/
def exponent? : List Char → Option (Int × List Char)
  | c :: s =>
    if c == 'e' || c == 'E' then
      let (negative, s) := match s with
        | '+' :: s => (false, s)
        | '-' :: s => (true, s)
        | s => (false, s)
      (digitRow? Char.isDigit s).map fun (digits, rest) =>
        (if negative then -(digitsValue digits : Int) else digitsValue digits, rest)
    else none
  | [] => none

/-- A decimal number without its sign. -/
def isDecimal (negative : Bool) (s : List Char) : Bool :=
  match digitRow? Char.isDigit s with
  | none => false
  | some (whole, rest) =>
    let leadingZero := whole.head? == some '0' && 1 < whole.length
    !leadingZero &&
      match rest with
      | [] => fitsInteger negative (digitsValue whole)
      | '.' :: s =>
        match digitRow? Char.isDigit s with
        | none => false
        | some (fraction, []) =>
          isFinite (digitsValue (whole ++ fraction)) (-(fraction.length : Int))
        | some (fraction, rest) =>
          match exponent? rest with
          | some (e, []) => isFinite (digitsValue (whole ++ fraction)) (e - fraction.length)
          | _ => false
      | rest =>
        match exponent? rest with
        | some (e, []) => isFinite (digitsValue whole) e
        | _ => false

def isUnsigned (negative : Bool) (s : List Char) : Bool :=
  s == ['i', 'n', 'f'] || s == ['n', 'a', 'n'] || isDecimal negative s

def isNumber : List Char → Bool
  | '0' :: 'x' :: s => isBased 16 (hexDigit? · |>.isSome) s
  | '0' :: 'o' :: s => isBased 8 (fun c => '0' ≤ c && c ≤ '7') s
  | '0' :: 'b' :: s => isBased 2 (fun c => c == '0' || c == '1') s
  | '+' :: s => isUnsigned false s
  | '-' :: s => isUnsigned true s
  | s => isUnsigned false s

/-! ### Dates and times -/

/-- A number of exactly `width` digits at the start of a text. -/
def fixedNumber? (width : Nat) (s : List Char) : Option (Nat × List Char) :=
  let digits := s.take width
  if digits.length = width ∧ digits.all Char.isDigit then some (digitsValue digits, s.drop width)
  else none

def isLeapYear (year : Nat) : Bool := (year % 4 == 0 && year % 100 != 0) || year % 400 == 0

def daysInMonth (year month : Nat) : Nat :=
  if month = 2 then (if isLeapYear year then 29 else 28)
  else if month = 4 ∨ month = 6 ∨ month = 9 ∨ month = 11 then 30
  else 31

/-- What follows a fixed character. -/
def after? (c : Char) : List Char → Option (List Char)
  | d :: s => if c = d then some s else none
  | [] => none

/-- What follows a date at the start of a text. -/
def afterDate? (s : List Char) : Option (List Char) := do
  let (year, s) ← fixedNumber? 4 s
  let (month, s) ← fixedNumber? 2 (← after? '-' s)
  let (day, s) ← fixedNumber? 2 (← after? '-' s)
  if 1 ≤ month ∧ month ≤ 12 ∧ 1 ≤ day ∧ day ≤ daysInMonth year month then some s else none

/-- What follows hours and minutes at the start of a text. -/
def afterMinutes? (s : List Char) : Option (List Char) := do
  let (hour, s) ← fixedNumber? 2 s
  let (minute, s) ← fixedNumber? 2 (← after? ':' s)
  if hour ≤ 23 ∧ minute ≤ 59 then some s else none

/-- What follows a time at the start of a text. -/
def afterTime? (s : List Char) : Option (List Char) := do
  let s ← afterMinutes? s
  match s with
  | ':' :: s =>
    let (second, s) ← fixedNumber? 2 s
    if second ≤ 60 then
      match s with
      | '.' :: s =>
        let (digits, rest) := spanDigits s
        if digits.isEmpty then none else some rest
      | s => some s
    else none
  | s => some s

/-- What follows an offset from universal time, which may be absent. -/
def afterOffset? : List Char → Option (List Char)
  | 'Z' :: s => some s
  | 'z' :: s => some s
  | '+' :: s => afterMinutes? s
  | '-' :: s => afterMinutes? s
  | s => some s

def isDate (s : List Char) : Bool := afterDate? s == some []

def isTime (s : List Char) : Bool := afterTime? s == some []

/-- A time with or without an offset. -/
def isZonedTime (s : List Char) : Bool := (afterTime? s).bind afterOffset? == some []

/-- A date, a time, or both in one word. -/
def isDateTime (s : List Char) : Bool :=
  isTime s ||
    match afterDate? s with
    | some [] => true
    | some ('T' :: s) => isZonedTime s
    | some ('t' :: s) => isZonedTime s
    | _ => false

end ClassSurface.Toml

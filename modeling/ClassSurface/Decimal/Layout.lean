import ClassSurface.Decimal.Shortest

/-! # Decimal.Layout — writing a decimal down

A `Layout` settles what the shortest digits leave open: which of two equally near decimals is
written, which magnitudes are written positionally, and whether a whole number keeps a fraction
part. Beyond the positional range one digit stands before the point, and the exponent follows an `e`
with its sign.

* `Layout.plain` writes every number positionally and whole numbers without a point: `1`,
  `0.000000025`. Ties go up.
* `Layout.measure` is for measured quantities: `1.0`, `0.75`, `1.844674407370955e+16`. Ties go to
  the even digit.
-/

namespace ClassSurface.Decimal

/-- How a decimal is laid out. The position of its point is counted in digits from the left: `1.5`
has it after one digit, `0.015` one place to the left of its digits. -/
structure Layout where
  tie : Tie
  positional : Int → Bool
  keepFraction : Bool

def Layout.plain : Layout := { tie := .up, positional := fun _ => true, keepFraction := false }

def Layout.measure : Layout :=
  { tie := .toEven, positional := fun point => -5 < point && point ≤ 16, keepFraction := true }

/-- Digits with the point after `point` of them, filled up with zeros on either side. -/
def positionalText (keepFraction : Bool) (digits : List Char) (point : Int) : List Char :=
  if point ≤ 0 then '0' :: '.' :: (List.replicate (-point).toNat '0' ++ digits)
  else
    let whole := digits.take point.toNat
    let fraction := digits.drop point.toNat
    let whole := whole ++ List.replicate (point.toNat - digits.length) '0'
    if fraction.isEmpty then whole ++ (if keepFraction then ['.', '0'] else [])
    else whole ++ '.' :: fraction

def exponentText (digits : List Char) (point : Int) : List Char :=
  let exponent := (if point < 1 then '-' else '+') :: Nat.toDigits 10 (point - 1).natAbs
  match digits with
  | [] => []
  | [d] => d :: 'e' :: exponent
  | d :: ds => d :: '.' :: ds ++ 'e' :: exponent

def text (layout : Layout) (d : Decimal) : List Char :=
  let digits := Nat.toDigits 10 d.digits
  let point := (digits.length : Int) + d.exponent
  if layout.positional point then positionalText layout.keepFraction digits point
  else exponentText digits point

end ClassSurface.Decimal

namespace ClassSurface

/-- The shortest text that reads back as `x`, laid out as asked. -/
def Binary64.text (layout : Decimal.Layout) (x : Binary64) : String :=
  String.ofList ((if x.negative then ['-'] else []) ++ (Decimal.shortest layout.tie x).text layout)

/-- A finite number is laid out as asked; any other value has a name. -/
def Float64.text (layout : Decimal.Layout) : Float64 → String
  | finite x => x.text layout
  | infinity false => "inf"
  | infinity true => "-inf"
  | nan => "NaN"

end ClassSurface

import ClassSurface.Decimal.Binary64

/-! # Decimal.Shortest — the fewest digits that read back

Every binary64 number owns the interval of reals that round to it; its ends belong to it exactly
when the significand is even. `shortest` finds the decimal `digits · 10 ^ exponent` in that interval
with the fewest digits, and of several the one nearest to the number; which of two equally near ones
it takes is for its user to say (`Tie`). Seventeen digits always suffice.
-/

namespace ClassSurface

/-- The decimal `digits · 10 ^ exponent`. -/
structure Decimal where
  digits : Nat
  exponent : Int
  deriving DecidableEq, Repr, Inhabited

namespace Decimal

/-- Which of two equally near neighbours on a grid is taken. -/
inductive Tie where
  /-- The larger one. -/
  | up
  /-- The one with an even last digit. -/
  | toEven
  deriving DecidableEq, Repr, Inhabited

/-- Whether the neighbour above `d` is taken on a tie. -/
def Tie.takesUpper (tie : Tie) (d : Nat) : Bool :=
  match tie with
  | up => true
  | toEven => d % 2 == 1

/-- Moves trailing zeros of the digits into the exponent. -/
def stripZeros (d : Decimal) : Decimal :=
  let zeros := ((Nat.toDigits 10 d.digits).reverse.takeWhile (· == '0')).length
  if d.digits = 0 then d else ⟨d.digits / Nat.pow 10 zeros, d.exponent + zeros⟩

/-- Four times the significand of the lower end of the interval that rounds to `x`; the gap below a
power of two is half as wide. -/
def lowerEnd (x : Binary64) : Nat :=
  if x.significand = 1 <<< 52 ∧ Binary64.minExponent < x.exponent then 4 * x.significand - 1
  else 4 * x.significand - 2

def upperEnd (x : Binary64) : Nat := 4 * x.significand + 2

/-- Compares `a · 2 ^ p` with `b · 10 ^ t`. -/
def compareScaled (a : Nat) (p : Int) (b : Nat) (t : Int) : Ordering :=
  compare ((a * Nat.pow 10 (-t).toNat) <<< p.toNat) ((b * Nat.pow 10 t.toNat) <<< (-p).toNat)

/-- Whether `d · 10 ^ t` rounds to `x`. -/
def roundsTo (x : Binary64) (d : Nat) (t : Int) : Bool :=
  let p := x.exponent - 2
  let lower := compareScaled (lowerEnd x) p d t
  let upper := compareScaled (upperEnd x) p d t
  if x.significand % 2 = 0 then lower != .gt && upper != .lt else lower == .lt && upper == .gt

/-- The integer part of `x / 10 ^ t`. -/
def floorAt (x : Binary64) (t : Int) : Nat :=
  (x.significand * Nat.pow 10 (-t).toNat) <<< x.exponent.toNat /
    Nat.pow 10 t.toNat <<< (-x.exponent).toNat

/-- The decimals of the grid `10 ^ t` next to `x` that read back as `x`, the nearer one if both do.
-/
def hit? (tie : Tie) (x : Binary64) (t : Int) : Option Decimal :=
  let d := floorAt x t
  match roundsTo x d t, roundsTo x (d + 1) t with
  | true, false => some ⟨d, t⟩
  | false, true => some ⟨d + 1, t⟩
  | true, true =>
    match compareScaled (2 * x.significand) x.exponent (2 * d + 1) t with
    | .lt => some ⟨d, t⟩
    | .eq => some ⟨if tie.takesUpper d then d + 1 else d, t⟩
    | .gt => some ⟨d + 1, t⟩
  | false, false => none

/-- The decimal exponent of a positive `x`: the largest `k` with `10 ^ k ≤ x`. The guess comes from
`log10 2 < 30103 / 100000` and is at most three too high. -/
def leadExponent (x : Binary64) : Int :=
  let guess : Int := ((x.significand.log2 : Int) + 1 + x.exponent) * 30103 / 100000 + 1
  if floorAt x guess ≠ 0 then guess
  else if floorAt x (guess - 1) ≠ 0 then guess - 1
  else if floorAt x (guess - 2) ≠ 0 then guess - 2
  else guess - 3

/-- The first hit on ever finer grids, from `10 ^ t` down. -/
def search (tie : Tie) (x : Binary64) : Nat → Int → Option Decimal
  | 0, _ => none
  | steps + 1, t => (hit? tie x t).orElse fun _ => search tie x steps (t - 1)

/-- The shortest decimal that reads back as the magnitude of `x`. -/
def shortest (tie : Tie) (x : Binary64) : Decimal :=
  if x.significand = 0 then ⟨0, 0⟩
  else stripZeros ((search tie x 17 (leadExponent x)).getD ⟨0, 0⟩)

end Decimal

end ClassSurface

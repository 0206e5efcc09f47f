/-! # Decimal.Binary64 — binary floating-point numbers, exactly

A finite number of the binary64 format is `± significand · 2 ^ exponent`. All arithmetic here is on
natural numbers: an operation forms its exact result as a quotient and rounds it once (`ofRatio?`),
to the nearest number of the format and on a tie to the one with the even significand.

* `ofRatio? n d` is the number nearest to `n / d`, or nothing when that is beyond the largest finite
  one.
* `mul?`, `div?`, `add?` work on magnitudes, the sign of the result is plus.
* `Float64` adds the values of the format that are no finite numbers.
-/

namespace ClassSurface

/-- The number `± significand · 2 ^ exponent`. In normal form the significand is below `2 ^ 53`, and
it is at least `2 ^ 52` unless the exponent is the least one, `-1074`. -/
structure Binary64 where
  negative : Bool := false
  significand : Nat
  exponent : Int
  deriving DecidableEq, Repr, Inhabited

namespace Binary64

def minExponent : Int := -1074

def maxExponent : Int := 971

def zero : Binary64 := { significand := 0, exponent := minExponent }

/-- The numerator of `n / d` in units of `2 ^ e`. -/
def scaledNum (n : Nat) (e : Int) : Nat := n <<< (-e).toNat

/-- The denominator of `n / d` in units of `2 ^ e`. -/
def scaledDen (d : Nat) (e : Int) : Nat := d <<< e.toNat

/-- The quotient `n / d` to the nearest integer, a tie going to the even one. -/
def roundQuotient (n d : Nat) : Nat :=
  let q := n / d
  let r := n % d
  if 2 * r < d then q else if d < 2 * r then q + 1 else if q % 2 = 0 then q else q + 1

/-- The exponent in whose units `n / d` has 53 binary digits, as far as the format goes down. -/
def unitExponent (n d : Nat) : Int :=
  let e : Int := (n.log2 : Int) - d.log2 - 52
  let e := if scaledNum n e / scaledDen d e < 1 <<< 52 then e - 1 else e
  max e minExponent

/-- The number of the format nearest to `n / d`. -/
def ofRatio? (n d : Nat) : Option Binary64 :=
  if n = 0 then some zero
  else
    let e := unitExponent n d
    let m := roundQuotient (scaledNum n e) (scaledDen d e)
    let (m, e) := if m = 1 <<< 53 then (1 <<< 52, e + 1) else (m, e)
    if maxExponent < e then none else some { significand := m, exponent := e }

def ofNat? (n : Nat) : Option Binary64 := ofRatio? n 1

def mul? (x y : Binary64) : Option Binary64 :=
  let e := x.exponent + y.exponent
  ofRatio? ((x.significand * y.significand) <<< e.toNat) (1 <<< (-e).toNat)

def div? (x y : Binary64) : Option Binary64 :=
  let e := x.exponent - y.exponent
  ofRatio? (x.significand <<< e.toNat) (y.significand <<< (-e).toNat)

def add? (x y : Binary64) : Option Binary64 :=
  let e := min x.exponent y.exponent
  let sum := x.significand <<< (x.exponent - e).toNat + y.significand <<< (y.exponent - e).toNat
  ofRatio? (sum <<< e.toNat) (1 <<< (-e).toNat)

def neg (x : Binary64) : Binary64 := { x with negative := !x.negative }

end Binary64

/-- A value of the binary64 format. Values that are not numbers are not told apart. -/
inductive Float64 where
  | finite (value : Binary64)
  | infinity (negative : Bool)
  | nan
  deriving Repr, Inhabited

namespace Float64

/-- The value nearest to a natural number; one beyond the largest finite number is infinite. -/
def ofNat (n : Nat) : Float64 :=
  match Binary64.ofNat? n with
  | some x => finite x
  | none => infinity false

def neg : Float64 → Float64
  | finite x => finite x.neg
  | infinity negative => infinity !negative
  | nan => nan

/-- The value nearest to an integer. -/
def ofInt (n : Int) : Float64 := if n < 0 then (ofNat n.natAbs).neg else ofNat n.natAbs

end Float64

end ClassSurface

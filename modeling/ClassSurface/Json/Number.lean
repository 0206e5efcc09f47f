import ClassSurface.Decimal.Binary64
import ClassSurface.Json.Basic
import ClassSurface.Text.Digit

/-! # Json.Number — the number that a numeral denotes

A numeral without fraction and exponent is an integer as long as it fits 64 bits, with or without a
sign; `-0` and all other numerals are floating point. A floating-point value is worked out from the
leading digits that fit an unsigned 64-bit word: later digits count for their place only, and the
word is then scaled by one product or quotient with a power of ten, so the value is near the exact
one but need not be the nearest. A value beyond the largest finite number is refused, one below the
smallest is zero.
-/

namespace ClassSurface.Json

open Text

inductive Number where
  | integer (value : Int)
  | real (value : Binary64)
  deriving DecidableEq, Repr, Inhabited

/-- One more than the largest unsigned 64-bit word. -/
def wordLimit : Nat := 1 <<< 64

/-- Appends digits to a word while it fits; the digits that no longer do are left over. -/
def fillWord : Nat → List Char → Nat × List Char
  | word, [] => (word, [])
  | word, d :: ds =>
    let next := word * 10 + digitValue d
    if next < wordLimit then fillWord next ds else (word, d :: ds)

/-- The largest power of ten that the format holds. -/
def maxPower : Nat := 308

/-- The power `10 ^ k` rounded to the format, for `k` up to `maxPower`. -/
def powerOfTen (k : Nat) : Binary64 := (Binary64.ofNat? (Nat.pow 10 k)).getD .zero

/-- The product `x · 10 ^ e`, in one step where the format holds the power. Smaller exponents are
approached by way of the largest power, in the given number of steps; larger ones lead out of the
format. -/
def scaleWithin : Nat → Binary64 → Int → Option Binary64
  | steps, x, e =>
    if e.natAbs ≤ maxPower then
      if 0 ≤ e then x.mul? (powerOfTen e.natAbs) else x.div? (powerOfTen e.natAbs)
    else if x.significand = 0 then some x
    else if 0 ≤ e then none
    else
      match steps with
      | 0 => none
      | steps + 1 => (x.div? (powerOfTen maxPower)).bind fun y => scaleWithin steps y (e + maxPower)

/-- The product `x · 10 ^ e`, as near as the steps on the way come. -/
def scaleByTen (x : Binary64) (e : Int) : Option Binary64 := scaleWithin (e.natAbs / maxPower) x e

namespace Numeral

/-- The exponent as a signed number. -/
def exponentValue (n : Numeral) : Int :=
  match n.exponent with
  | none => 0
  | some (negative, ds) => if negative then -(digitsValue ds : Int) else digitsValue ds

/-- The floating-point value, refused when it is too large. -/
def real? (n : Numeral) : Option Binary64 := do
  let (word, wholeLeft) := fillWord 0 n.whole
  let (word, fractionLeft) := fillWord word n.fraction
  let places := n.fraction.length - fractionLeft.length
  let exponent := (wholeLeft.length : Int) - places + n.exponentValue
  let x ← scaleByTen (← Binary64.ofNat? word) exponent
  some (if n.negative then x.neg else x)

def isWhole (n : Numeral) : Bool := n.fraction.isEmpty && n.exponent.isNone

/-- The number denoted, or nothing if it is too large. -/
def number? (n : Numeral) : Option Number :=
  let magnitude := digitsValue n.whole
  if n.isWhole && !n.negative && magnitude < wordLimit then some (.integer magnitude)
  else if n.isWhole && n.negative && 0 < magnitude && magnitude ≤ 1 <<< 63 then
    some (.integer (-magnitude))
  else n.real?.map .real

end Numeral

end ClassSurface.Json

import TemplateAxum.Lib.JsNumber

/-!
# The floats of `serde_json`

A float is written with the fewest digits that determine it. Without the feature `float_roundtrip` it is read as the
quotient of two binary64s, the digits and a power of ten, and each of the three is rounded.
-/

namespace SerdeFloat

open Js (roundDouble)

structure Decimal where
  digits : ℕ
  exponent : ℤ

/-- The decimal of a positive binary64. -/
def shortest (x : ℚ) : Option Decimal :=
  (List.range 17).findSome? fun n =>
    let exponent := Int.log 10 x - n
    let digits := Js.roundEven (x / 10 ^ exponent)
    if roundDouble (digits * 10 ^ exponent) = some x then some ⟨digits.toNat, exponent⟩ else none

/-- Without an exponent, which only very large and very small numbers are written with. -/
def write (d : Decimal) : List Char :=
  let places := (-d.exponent).toNat
  let digits := Nat.toDigits 10 (d.digits * 10 ^ d.exponent.toNat)
  let padded := List.replicate (places + 1 - digits.length) '0' ++ digits
  let whole := padded.length - places
  padded.take whole ++ '.' :: if places = 0 then ['0'] else padded.drop whole

def read (text : List Char) : Option ℚ := do
  let (whole, fraction) := Js.cut (· = '.') text
  let fraction := fraction.getD []
  let significand ← roundDouble (← Js.digits? 10 (whole ++ fraction))
  let power ← roundDouble (10 ^ fraction.length)
  roundDouble (significand / power)

example : read ['2', '.', '5'] = some (5 / 2) := by decide +kernel

end SerdeFloat

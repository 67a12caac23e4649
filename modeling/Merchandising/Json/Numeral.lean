/-
  The numbers of a JSON text.

  A `Numeral` is a number as it is written.  One without fraction and exponent that fits 64 bits,
  signed or unsigned, stands for a whole number; every other one, and `-0`, stands for a double:
  the leading digits that fit 64 bits, rounded, times or divided by a power of ten, rounded again.
  A number that is too large for a double stands for nothing.
-/
import Merchandising.Json.Basic
import Merchandising.Text.Integer

namespace Merchandising.Json

/-- A number as it is written. -/
structure Numeral where
  negative : Bool
  /-- The digits in front of the point. -/
  whole : List Nat
  /-- The digits after the point, empty if there is no point. -/
  fraction : List Nat
  exponent : Option Int
  deriving DecidableEq, Repr

namespace Numeral

/-- Whether there is neither a fraction nor an exponent. -/
def isWhole (n : Numeral) : Bool :=
  n.fraction.isEmpty && n.exponent.isNone

/-- The number that the digits of `ds` after `n` make as long as it fits 64 bits, and how many
    digits were taken. -/
def absorb : Nat → List Nat → Nat × Nat
  | n, [] => (n, 0)
  | n, d :: r =>
    if 10 * n + d < UInt64.size then
      let (m, taken) := absorb (10 * n + d) r
      (m, taken + 1)
    else (n, 0)

/-- The double next to a natural number of 64 bits. -/
def roundNat (n : Nat) : Float :=
  (UInt64.ofNat n).toFloat

/-- The double next to a power of ten. -/
def powerOfTen (e : Nat) : Float :=
  Float.ofScientific 1 false e

/-- `x · 10 ^ e`, rounded at each step; nothing if that is too large for a double. -/
def scale? (x : Float) (e : Int) : Option Float :=
  if e.natAbs ≤ 308 then
    if 0 ≤ e then
      let y := x * powerOfTen e.toNat
      if y.isInf then none else some y
    else some (x / powerOfTen e.natAbs)
  else if x == 0.0 then some x
  else if h : 0 ≤ e then none
  else scale? (x / powerOfTen 308) (e + 308)
termination_by (-e).toNat
decreasing_by omega

/-- The double for a numeral. -/
def float? (n : Numeral) : Option Float :=
  let (coefficient, taken) := absorb 0 n.whole
  let dropped := n.whole.length - taken
  let (coefficient, used) := absorb coefficient n.fraction
  let exponent : Int := (dropped : Int) - used + n.exponent.getD 0
  (scale? (roundNat coefficient) exponent).map fun x => if n.negative then -x else x

/-- The value that a numeral stands for. -/
def value? (n : Numeral) : Option Json :=
  let magnitude := Text.ofDigits n.whole
  if n.isWhole && !n.negative && magnitude < UInt64.size then some (.int magnitude)
  else if n.isWhole && n.negative && 0 < magnitude && Int64.minValue.toInt ≤ -magnitude then
    some (.int (-magnitude))
  else n.float?.map .float

end Numeral

end Merchandising.Json

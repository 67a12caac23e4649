/-
  The shortest decimal that stands for a double.

  A finite double is `mantissa · 2 ^ exponent`; the reals that round to it form an interval, whose
  ends belong to it iff the mantissa is even.  A decimal with `n` digits lies on a grid of powers
  of ten; `shortest` takes the first of the grids `n = 1, 2, …, 17` with a point in the interval,
  and there the point nearest to the double.  All arithmetic is exact.

  * `Binary.ofFloat?` decodes the magnitude of a double;
  * `Tie` says which of two equally near points is taken;
  * `Binary.shortest` is the decimal, without trailing zeros.
-/

namespace Merchandising

/-- The number `coefficient · 10 ^ exponent`. -/
structure Decimal where
  coefficient : Nat
  exponent : Int
  deriving DecidableEq, Repr

namespace Decimal

/-- Which of two equally near points of a grid is taken: the even one or the larger one. -/
inductive Tie where
  | even
  | up
  deriving DecidableEq, Repr

/-- The positive number `mantissa · 2 ^ exponent`; `narrow` if the next double below is only half
    as far as the next one above. -/
structure Binary where
  mantissa : Nat
  exponent : Int
  narrow : Bool
  deriving DecidableEq, Repr

/-- The magnitude of a finite double other than zero. -/
def Binary.ofFloat? (x : Float) : Option Binary :=
  let magnitude := x.toBits.toNat % (1 <<< 63)
  let scale : Nat := magnitude >>> 52
  let fraction : Nat := magnitude % (1 <<< 52)
  if scale = 2047 ∨ magnitude = 0 then none
  else if scale = 0 then some ⟨fraction, -1074, false⟩
  else some ⟨(1 <<< 52) + fraction, (scale : Int) - 1075, fraction == 0 && 1 < scale⟩

/-- The number of decimal digits of `n`; zero has one. -/
def digitCount (n : Nat) : Nat :=
  (Nat.toDigits 10 n).length

/-- The exponent of the leading digit of `num / den`, for positive numbers. -/
def magnitude (num den : Nat) : Int :=
  if den ≤ num then (digitCount (num / den) : Int) - 1 else -(digitCount ((den - 1) / num) : Int)

/-- A number without the zeros at its end. -/
def normalize (coefficient : Nat) (exponent : Int) : Decimal :=
  if h : coefficient ≠ 0 ∧ coefficient % 10 = 0 then
    normalize (coefficient / 10) (exponent + 1)
  else ⟨coefficient, exponent⟩
termination_by coefficient
decreasing_by omega

namespace Binary

/-- The double and the two ends of its interval over a common denominator:
    `(lower, value, upper, denominator)`. -/
def interval (b : Binary) : Nat × Nat × Nat × Nat :=
  let unit := 1 <<< (b.exponent - 2).toNat
  let den := 1 <<< (2 - b.exponent).toNat
  ((4 * b.mantissa - if b.narrow then 1 else 2) * unit, 4 * b.mantissa * unit,
    (4 * b.mantissa + 2) * unit, den)

/-- The point of the grid `10 ^ k` that is nearest to the double among those of its two
    neighbours that round to it. -/
def onGrid? (b : Binary) (tie : Tie) (k : Int) : Option Nat :=
  let (lower, value, upper, den) := b.interval
  let step := Nat.pow 10 k.toNat * den
  let scale := Nat.pow 10 (-k).toNat
  let inside (i : Nat) : Bool :=
    if b.mantissa % 2 = 0 then lower * scale ≤ i * step && i * step ≤ upper * scale
    else lower * scale < i * step && i * step < upper * scale
  let i := value * scale / step
  let below := value * scale - i * step
  let above := (i + 1) * step - value * scale
  if inside i && inside (i + 1) then
    if below < above then some i
    else if above < below then some (i + 1)
    else match tie with
      | .up => some (i + 1)
      | .even => some (if i % 2 = 0 then i else i + 1)
  else if inside i then some i
  else if inside (i + 1) then some (i + 1)
  else none

/-- The decimal with the fewest digits that rounds to the double, and of these the nearest. -/
def shortest (b : Binary) (tie : Tie) : Decimal :=
  let (_, value, _, den) := b.interval
  let top := magnitude value den
  let found := (List.range 17).findSome? fun (n : Nat) =>
    (b.onGrid? tie (top - n)).map fun i => normalize i (top - n)
  found.getD ⟨0, 0⟩

end Binary

end Decimal

end Merchandising

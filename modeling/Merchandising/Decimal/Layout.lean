/-
  How a double is laid out as text: the digits are the shortest that stand for it, the rest is a
  `Layout`.

  A number whose leading digit weighs `10 ^ e` is written without an exponent where the layout
  says so, and otherwise as one digit, a point, the other digits, `e`, a sign and `e`.
-/
import Merchandising.Decimal.Shortest

namespace Merchandising.Decimal

/-- The choices that are open once the digits of a number are known. -/
structure Layout where
  /-- Which of two equally near digit strings is taken. -/
  tie : Tie
  /-- Whether a number whose leading digit weighs `10 ^ e` is written without an exponent. -/
  positional : Int → Bool
  /-- What follows a number that is written without an exponent and has no fraction. -/
  whole : List Char

/-- The digits of a natural number. -/
def digits (n : Nat) : List Char :=
  Nat.toDigits 10 n

/-- A decimal without an exponent. -/
def positionalText (layout : Layout) (d : Decimal) : List Char :=
  let ds := digits d.coefficient
  let point : Int := ds.length + d.exponent
  if 0 ≤ d.exponent then ds ++ List.replicate d.exponent.toNat '0' ++ layout.whole
  else if 0 < point then ds.take point.toNat ++ '.' :: ds.drop point.toNat
  else '0' :: '.' :: List.replicate (-point).toNat '0' ++ ds

/-- A decimal with one digit in front of the point and a signed exponent. -/
def exponentText (d : Decimal) : List Char :=
  let ds := digits d.coefficient
  let e : Int := ds.length + d.exponent - 1
  let mantissa := match ds with
    | [] => []
    | [c] => [c]
    | c :: r => c :: '.' :: r
  mantissa ++ 'e' :: (if e < 0 then '-' else '+') :: digits e.natAbs

/-- The text of a decimal. -/
def text (layout : Layout) (d : Decimal) : List Char :=
  if layout.positional ((digits d.coefficient).length + d.exponent - 1) then positionalText layout d
  else exponentText d

/-- Whether the sign of a double is negative; so is the one of `-0.0`. -/
def isNegative (x : Float) : Bool :=
  1 <<< 63 ≤ x.toBits.toNat

/-- The text of a finite double. -/
def finiteText (layout : Layout) (x : Float) : List Char :=
  let sign := if isNegative x then ['-'] else []
  match Binary.ofFloat? x with
  | some b => sign ++ text layout (b.shortest layout.tie)
  | none => sign ++ text layout ⟨0, 0⟩

end Merchandising.Decimal

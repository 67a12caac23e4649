/-
  The values that documents are compared with.

  * `Scalar` is a truth value, a whole number of 64 bits, a double or a text;
  * `==` compares values of one kind; no value of one kind equals one of another, and doubles are
    compared as numbers, so that `0.0 == -0.0` and no NaN equals itself;
  * `isTruthy` and `int64?` are the loose views of a value as a truth value and a whole number;
  * `plain` is the value as text, a double without an exponent.
-/
import Merchandising.Decimal.Layout
import Merchandising.Text.Blank
import Merchandising.Text.Integer

namespace Merchandising

/-- A value that a document is compared with. -/
inductive Scalar where
  | bool (b : Bool)
  | int (n : Int64)
  | float (x : Float)
  | text (s : String)

namespace Scalar

instance : Inhabited Scalar := ⟨.bool false⟩

/-- Equality of values. -/
def same : Scalar → Scalar → Bool
  | .bool a, .bool b => a == b
  | .int a, .int b => a == b
  | .float a, .float b => a == b
  | .text a, .text b => a == b
  | _, _ => false

instance : BEq Scalar := ⟨same⟩

/-- A word of 64 bits: a whole number if it fits one, and its digits as a text otherwise. -/
def ofWord64 (n : UInt64) : Scalar :=
  ((Text.fit64? n.toNat).map .int).getD (.text (String.ofList (Decimal.digits n.toNat)))

/-- A word of 32 bits. -/
def ofWord32 (n : UInt32) : Scalar :=
  .int (Int64.ofNat n.toNat)

/-- The view of a value as a truth value: a number is true unless it is zero, and a text unless it
    is blank, `0`, or `false` in letters of any case. -/
def isTruthy : Scalar → Bool
  | .bool b => b
  | .int n => n != 0
  | .float x => x != 0.0
  | .text s =>
    let cs := Text.trimChars s.toList
    !(cs.isEmpty || cs == ['0'] || cs.map Char.toLower == ['f', 'a', 'l', 's', 'e'])

/-- The whole number that a double equals, if there is one. -/
def wholeOfFloat? (x : Float) : Option Int :=
  match Decimal.Binary.ofFloat? x with
  | none => if x == 0.0 then some 0 else none
  | some b =>
    let scale := 1 <<< (-b.exponent).toNat
    if b.mantissa % scale = 0 then
      let n : Int := ((b.mantissa / scale) <<< b.exponent.toNat : Nat)
      some (if Decimal.isNegative x then -n else n)
    else none

/-- The integer of 64 bits that is nearest to an integer. -/
def clamp64 (n : Int) : Int64 :=
  Int64.ofInt (max Int64.minValue.toInt (min n Int64.maxValue.toInt))

/-- The view of a value as a whole number: a double without a fraction as the nearest one, and a
    text that spells one. -/
def int64? : Scalar → Option Int64
  | .int n => some n
  | .float x => (wholeOfFloat? x).map clamp64
  | .text s => Text.int64? (Text.trim s)
  | .bool _ => none

/-- The digits of a double in plain text: never an exponent, no point after a whole number, and
    the larger of two equally short and near ones. -/
def plainLayout : Decimal.Layout where
  tie := .up
  positional _ := true
  whole := []

/-- A double as plain text. -/
def plainFloat (x : Float) : String :=
  if x.isNaN then "NaN"
  else if x.isInf then (if Decimal.isNegative x then "-inf" else "inf")
  else String.ofList (Decimal.finiteText plainLayout x)

/-- A value as plain text. -/
def plain : Scalar → String
  | .bool true => "true"
  | .bool false => "false"
  | .int n => if n < 0 then String.ofList ('-' :: Decimal.digits n.toInt.natAbs)
    else String.ofList (Decimal.digits n.toInt.natAbs)
  | .float x => plainFloat x
  | .text s => s

end Scalar

end Merchandising

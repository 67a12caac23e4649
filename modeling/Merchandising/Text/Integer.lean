/-
  Integers written in decimal.

  `int64?` reads an optional sign and at least one digit, nothing else, and refuses what 64 bits
  do not hold.
-/

namespace Merchandising.Text

/-- The value of a decimal digit of ASCII. -/
def digit? (c : Char) : Option Nat :=
  if '0' ≤ c ∧ c ≤ '9' then some (c.toNat - '0'.toNat) else none

/-- The number that a list of digits spells, the first digit weighing most. -/
def ofDigits (ds : List Nat) : Nat :=
  ds.foldl (fun n d => 10 * n + d) 0

/-- The number that one or more decimal digits spell. -/
def natural? (cs : List Char) : Option Nat :=
  if cs.isEmpty then none else (cs.mapM digit?).map ofDigits

/-- A natural number, or one with a sign in front. -/
def integer? : List Char → Option Int
  | '+' :: r => (natural? r).map Int.ofNat
  | '-' :: r => (natural? r).map fun n => -(n : Int)
  | cs => (natural? cs).map Int.ofNat

/-- An integer as a word of 64 bits, if it fits. -/
def fit64? (n : Int) : Option Int64 :=
  if Int64.minValue.toInt ≤ n ∧ n ≤ Int64.maxValue.toInt then some (Int64.ofInt n) else none

/-- A text that spells an integer of 64 bits. -/
def int64? (s : String) : Option Int64 :=
  (integer? s.toList).bind fit64?

end Merchandising.Text

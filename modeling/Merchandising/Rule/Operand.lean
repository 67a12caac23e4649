/-
  The operands of conditions: one value, or a list of values.

  * `values` is the operand as a list; a text may be split at its commas;
  * `single?` is the operand as one value;
  * `plain` is the operand as text.
-/
import Merchandising.Query.Scalar
import Merchandising.Text.Split

namespace Merchandising

/-- What an attribute is compared with. -/
inductive Operand where
  | single (value : Scalar)
  | list (values : List Scalar)

namespace Operand

/-- The parts of a text between commas, without the blanks around them; empty parts are dropped. -/
def splitText (s : String) : List String :=
  ((Text.split ',' s).map Text.trim).filter (· ≠ "")

/-- The operand as a list; a single text is split at its commas if `split` is set. -/
def values (split : Bool) : Operand → List Scalar
  | list values => values
  | single (.text s) => if split then (splitText s).map .text else [.text s]
  | single value => [value]

/-- The only value of an operand. -/
def single? : Operand → Option Scalar
  | single value => some value
  | list [value] => some value
  | list _ => none

/-- The operand as text, the items of a list with spaces between them. -/
def plain : Operand → String
  | single value => value.plain
  | list values => " ".intercalate (values.map Scalar.plain)

/-- The truth value of an operand: a list that does not have exactly one item is false. -/
def isTruthy (o : Operand) : Bool :=
  match o.single? with
  | some value => value.isTruthy
  | none => false

end Operand

end Merchandising

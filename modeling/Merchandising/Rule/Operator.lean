/-
  The operators of rules.

  Each operator has a symbol; a symbol that starts with `!` (`isNegated_eq`) negates the operator
  without it (`positive`).
-/

namespace Merchandising

/-- A comparison of an attribute with an operand. -/
inductive Operator where
  | equal
  | notEqual
  | greater
  | atLeast
  | less
  | atMost
  | contains
  | notContains
  | oneOf
  | notOneOf
  deriving DecidableEq, Repr

namespace Operator

/-- The operators. -/
def all : List Operator :=
  [equal, notEqual, greater, atLeast, less, atMost, contains, notContains, oneOf, notOneOf]

/-- The symbol of an operator. -/
def symbol : Operator → String
  | equal => "=="
  | notEqual => "!="
  | greater => ">"
  | atLeast => ">="
  | less => "<"
  | atMost => "<="
  | contains => "\x7b\x7d"
  | notContains => "!\x7b\x7d"
  | oneOf => "()"
  | notOneOf => "!()"

/-- Whether an operator negates another one. -/
def isNegated : Operator → Bool
  | notEqual | notContains | notOneOf => true
  | _ => false

/-- The operator that a negated one negates, or the operator itself. -/
def positive : Operator → Operator
  | notEqual => equal
  | notContains => contains
  | notOneOf => oneOf
  | op => op

/-- Whether an operator compares by order. -/
def isRange : Operator → Bool
  | greater | atLeast | less | atMost => true
  | _ => false

/-- The operators by their symbols. -/
def bySymbol : List (String × Operator) :=
  all.map fun op => (op.symbol, op)

/-- The operator with a symbol. -/
def ofSymbol? (s : String) : Option Operator :=
  bySymbol.lookup s

/-- The negated operators are those whose symbol starts with an exclamation mark. -/
theorem isNegated_eq (op : Operator) : op.isNegated = (op.symbol.toList.head? == some '!') := by
  cases op <;> decide

end Operator

end Merchandising

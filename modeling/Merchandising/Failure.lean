/-
  What can be wrong with declared fields and rules.

  `Failure` lists the causes; `Failure.message` says them in words.  `bind_eq_ok` and
  `bind_eq_error` say how two steps end of which each may fail.
-/
import Merchandising.Decimal.Layout
import Merchandising.Rule.Operator

namespace Merchandising

/-- What is wrong with an operand. -/
inductive OperandFault where
  /-- It is no number of days. -/
  | notDays
  /-- So many days ago the calendar is not kept. -/
  | outOfCalendar (days : Int)
  /-- The operator compares with a single value. -/
  | notSingle (op : Operator)
  deriving DecidableEq, Repr

/-- Why fields are not compiled or a rule is not translated. -/
inductive Failure where
  /-- No field has the name of the id field. -/
  | unknownIdField (name : String)
  /-- There is no such analyzer, or the field is not analyzed with it. -/
  | unknownAnalyzer (name : String)
  /-- There is no such cross-field. -/
  | unknownDefaultField (name : String)
  /-- The attribute is not compared with this operator. -/
  | unsupportedOperator (code op : String)
  /-- The attribute is not compared with this operand. -/
  | invalidOperand (code : String) (fault : OperandFault)
  /-- Categories refer to each other deeper than there are categories. -/
  | tooDeep
  deriving DecidableEq, Repr

/-- The decimal digits of an integer. -/
def integerText (n : Int) : String :=
  String.ofList (if n < 0 then '-' :: Decimal.digits n.natAbs else Decimal.digits n.natAbs)

/-- The fault in words. -/
def OperandFault.message : OperandFault → String
  | notDays => "expected a number of days"
  | outOfCalendar days => integerText days ++ " days is out of the calendar range"
  | notSingle op => "operator '" ++ op.symbol ++ "' needs a single value"

/-- The failure in words. -/
def Failure.message : Failure → String
  | unknownIdField name => "id field '" ++ name ++ "' is not declared by any field source"
  | unknownAnalyzer name => "unknown analyzer '" ++ name ++ "'"
  | unknownDefaultField name => "unknown default search field '" ++ name ++ "'"
  | unsupportedOperator code op =>
    "operator '" ++ op ++ "' is not supported for attribute '" ++ code ++ "'"
  | invalidOperand code fault =>
    "invalid value for attribute '" ++ code ++ "': " ++ fault.message
  | tooDeep => "categories are nested too deep"

/-! ## Programs that may fail -/

namespace Failure

variable {α β : Type}

theorem bind_eq_error {x : Except Failure α} {g : α → Except Failure β} {e : Failure} :
    x >>= g = .error e ↔ x = .error e ∨ ∃ a, x = .ok a ∧ g a = .error e := by
  cases x <;> simp [bind, Except.bind]

theorem bind_eq_ok {x : Except Failure α} {g : α → Except Failure β} {b : β} :
    x >>= g = .ok b ↔ ∃ a, x = .ok a ∧ g a = .ok b := by
  cases x <;> simp [bind, Except.bind]

theorem pure_eq_ok {a b : α} : (pure a : Except Failure α) = .ok b ↔ a = b := by
  simp [pure, Except.pure]

theorem exists_ok_iff {x : Except Failure α} : (∃ a, x = .ok a) ↔ ∀ e, x ≠ .error e := by
  cases x <;> simp

end Failure

end Merchandising

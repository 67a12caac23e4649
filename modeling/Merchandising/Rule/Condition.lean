/-
  Rules: trees of conditions.

  A `Rule` says that all or any of its children are true, or false (`expected`); a child is a
  condition or a rule.
-/
import Merchandising.Rule.Operand
import Merchandising.Rule.Operator

namespace Merchandising

/-- An attribute compared with an operand. -/
structure Condition where
  /-- The name of the attribute. -/
  code : String
  op : Operator
  operand : Operand

/-- How the children of a rule combine. -/
inductive Aggregator where
  | all
  | any
  deriving DecidableEq, Repr

mutual

/-- All or any of the children are true, or false. -/
inductive Rule where
  | mk (aggregator : Aggregator) (expected : Bool) (children : List RuleNode)

/-- A child of a rule. -/
inductive RuleNode where
  | leaf (condition : Condition)
  | tree (rule : Rule)

end

namespace Rule

/-- How the children combine. -/
def aggregator : Rule → Aggregator
  | mk a _ _ => a

/-- Whether the children are to be true. -/
def expected : Rule → Bool
  | mk _ e _ => e

/-- The children. -/
def children : Rule → List RuleNode
  | mk _ _ cs => cs

/-- A rule over conditions. -/
def ofConditions (a : Aggregator) (conditions : List Condition) : Rule :=
  mk a true (conditions.map .leaf)

/-- The rule that says nothing. -/
def empty : Rule := mk .all true []

instance : Inhabited Rule := ⟨empty⟩

/-- The rule with another expected outcome. -/
def expecting (r : Rule) (expected : Bool) : Rule := mk r.aggregator expected r.children

/-- The rule with one more child. -/
def withRule (r : Rule) (child : Rule) : Rule :=
  mk r.aggregator r.expected (r.children ++ [.tree child])

/-- Whether a rule has no children. -/
def isEmpty (r : Rule) : Bool := r.children.isEmpty

end Rule

end Merchandising

/-
  Rules as JSON, and reading them.

  A condition is a record of its attribute, the symbol of its operator and its operand; a child of
  a rule says of what kind it is.  A rule is always written with all its fields; reading one, its
  children may be left out, and it expects them to be true if nothing else is said.
-/
import Merchandising.Json.Record
import Merchandising.Query.Read
import Merchandising.Rule.Condition

namespace Merchandising

open Json (Place required? defaulted? text? bool? listOf?)

/-! ## Writing -/

/-- An operand. -/
def Operand.toJson : Operand → Json
  | .single value => value.toJson
  | .list values => .list (values.map Scalar.toJson)

/-- The fields of a condition. -/
def Condition.fields (c : Condition) : List (String × Json) :=
  [("attribute", .text c.code), ("operator", .text c.op.symbol), ("value", c.operand.toJson)]

/-- The aggregators by their names. -/
def Aggregator.names : List (String × Aggregator) :=
  [("all", .all), ("any", .any)]

/-- The name of an aggregator. -/
def Aggregator.name : Aggregator → String
  | .all => "all"
  | .any => "any"

mutual

/-- The fields of a rule. -/
def Rule.fields : Rule → List (String × Json)
  | .mk a expected children =>
    [("aggregator", .text a.name), ("expected", .bool expected),
      ("children", .list (ruleNodesJson children))]

/-- The children of a rule. -/
def ruleNodesJson : List RuleNode → List Json
  | [] => []
  | .leaf c :: r => .record (("kind", .text "leaf") :: c.fields) :: ruleNodesJson r
  | .tree t :: r => .record (("kind", .text "tree") :: t.fields) :: ruleNodesJson r

end

/-- A rule as JSON. -/
def Rule.toJson (r : Rule) : Json := .record r.fields

/-! ## Reading -/

/-- An operand. -/
def Operand.ofJson? (j : Json) : Option Operand :=
  match j with
  | .list items => (items.mapM Scalar.ofJson?).map .list
  | j => (Scalar.ofJson? j).map .single

/-- An operator. -/
def Operator.ofJson? (place : Place) (j : Json) : Option Operator :=
  j.choice? place Operator.bySymbol

/-- A condition. -/
def Condition.ofJson? (place : Place) (j : Json) : Option Condition := do
  let [code, op, value] ←
    j.slots? [.needed "attribute", .needed "operator", .needed "value"] | none
  return ⟨← required? text? code, ← required? (Operator.ofJson? place) op,
    ← required? Operand.ofJson? value⟩

/-- The kinds of children. -/
inductive NodeKind where
  | leaf
  | tree
  deriving DecidableEq, Repr

/-- The names of the kinds of children. -/
def NodeKind.names : List (String × NodeKind) :=
  [("leaf", .leaf), ("tree", .tree)]

/-- A child of a rule, with a reader for rules. -/
def RuleNode.ofJson? (rule : Json → Option Rule) (place : Place) (j : Json) : Option RuleNode := do
  let (kind, fields) ← j.tagged? place "kind" NodeKind.names
  match kind with
  | .leaf => (Condition.ofJson? .tagged fields).map .leaf
  | .tree => (rule fields).map .tree

/-- A rule that nests at most `depth` deep. -/
def Rule.readWithin : Nat → Place → Json → Option Rule
  | 0, _, _ => none
  | depth + 1, place, j => do
    let [aggregator, expected, children] ←
      j.slots? [.needed "aggregator", .omitted "expected", .omitted "children"] | none
    return .mk (← required? (·.choice? place Aggregator.names) aggregator)
      (← defaulted? true bool? expected)
      (← defaulted? [] (listOf? (RuleNode.ofJson? (Rule.readWithin depth .tagged) place)) children)

/-- A rule in JSON; the rules inside it nest less deep than the value itself. -/
def Rule.ofJson? (j : Json) : Option Rule :=
  Rule.readWithin j.depth .outer j

end Merchandising

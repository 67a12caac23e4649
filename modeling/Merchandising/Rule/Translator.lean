/-
  From rules to queries.

  `Translator.condition` translates a condition: a special attribute by its policy, any other one
  as a test of its field.  `Translator.rule` translates a rule:

      all / true   every child holds          any / true   some child holds
      all / false  no child holds             any / false  not every child holds

  A rule without a condition at any depth is no restriction, and is left out of the rule around it.

  The operand of a date is an age of `n` days; with `ref` the day `n` days ago,

      ==  ref ≤ date < ref + 1     >   date < ref         <   ref + 1 ≤ date
      !=  not (==)                 >=  date < ref + 1     <=  ref ≤ date
-/
import Merchandising.Calendar
import Merchandising.Context
import Merchandising.Rule.Condition
import Merchandising.Rule.Fulltext
import Merchandising.Rule.Policy

namespace Merchandising

/-- What rules are translated with. -/
structure Translator where
  registry : Registry
  schema : Option Schema
  /-- How texts are searched for, if not by the weighted properties of the schema. -/
  fulltext : Option FulltextBuilder
  /-- Whether a text is spelled correctly. -/
  spelling : String → Spelling
  /-- The current day. -/
  today : Day

namespace Translator

/-- The operator is not for the attribute. -/
def unsupported (c : Condition) : Failure :=
  .unsupportedOperator c.code c.op.symbol

/-- The field has one of the values. -/
def oneOf (field : String) : List Scalar → Fragment
  | [value] => .term field value
  | values => .terms field values

/-- The range that an operator by order admits. -/
def boundsOf? (op : Operator) (value : Scalar) : Option Bounds :=
  match op with
  | .greater => some { Bounds.none with gt := some value }
  | .atLeast => some { Bounds.none with gte := some value }
  | .less => some { Bounds.none with lt := some value }
  | .atMost => some { Bounds.none with lte := some value }
  | _ => none

/-- A condition by order, as a range of the field. -/
def rangeOf (c : Condition) (field : String) : Except Failure Fragment :=
  match c.operand.single? with
  | none => .error (.invalidOperand c.code (.notSingle c.op.positive))
  | some value =>
    match boundsOf? c.op.positive value with
    | none => .error (unsupported c)
    | some bounds => .ok (.range field bounds)

/-- The condition inside nested documents, if there is a path to them. -/
def within : Option String → Fragment → Fragment
  | none, f => f
  | some path, f => .nested path f

/-- The field of an attribute. -/
def field? (t : Translator) (code : String) : Option Field :=
  t.schema.bind (·.field? code)

/-- The property that holds the values of an attribute. -/
def property (t : Translator) (code : String) : String :=
  match t.field? code with
  | some f => f.filterProperty
  | none => code

/-- Whether an attribute has texts as values. -/
def isText (t : Translator) (code : String) : Bool :=
  (t.field? code).any Field.isText

/-- An attribute without a policy: the positive condition, outside nested documents. -/
def plainCondition (t : Translator) (c : Condition) : Except Failure Fragment :=
  match c.op.positive with
  | .contains =>
    if t.isText c.code then .ok (.words c.code c.operand.plain none)
    else .ok (oneOf (t.property c.code) (c.operand.values false))
  | .equal => .ok (oneOf (t.property c.code) (c.operand.values false))
  | .oneOf => .ok (oneOf (t.property c.code) (c.operand.values true))
  | _ => rangeOf c (t.property c.code)

/-- An attribute without a policy. -/
def standard (t : Translator) (c : Condition) : Except Failure Fragment := do
  let f ← t.plainCondition c
  return (within ((t.field? c.code).bind Field.nestedPath) f).negateIf c.op.isNegated

/-- Whether an operator asks for values. -/
def asksForValues (op : Operator) : Bool :=
  op.positive == .equal || op.positive == .oneOf

/-- A field of truth values. -/
def boolean (c : Condition) (field : String) : Except Failure Fragment :=
  if asksForValues c.op then
    .ok ((Fragment.term field (.bool c.operand.isTruthy)).negateIf c.op.isNegated)
  else .error (unsupported c)

/-- A field that has one of the values. -/
def categorical (c : Condition) (field : String) : Except Failure Fragment :=
  if asksForValues c.op then .ok ((oneOf field (c.operand.values true)).negateIf c.op.isNegated)
  else .error (unsupported c)

/-- The condition on the field of the customer group. -/
def groupTarget (c : Condition) (field : String) (boolean : Bool) : Except Failure Fragment :=
  if asksForValues c.op then
    if boolean then .ok (.term field (.bool c.operand.isTruthy))
    else .ok (oneOf field (c.operand.values true))
  else if c.op.isRange && !boolean then rangeOf c field
  else .error (unsupported c)

/-- A condition on the nested document of the customer group. -/
def perGroup (c : Condition) (ctx : Context) (path scopeField field : String) (boolean : Bool) :
    Except Failure Fragment := do
  let target ← groupTarget c field boolean
  let clauses := [Fragment.term scopeField (.ofWord32 ctx.group), target]
  return (Fragment.nested path (.all clauses)).negateIf c.op.isNegated

/-- The day `days` ago and the day after it, if the calendar is kept for both. -/
def referenceDays? (today : Day) (days : Int) : Option (Day × Day) :=
  if Calendar.holds (today - days) && Calendar.holds (today - days + 1) then
    some (today - days, today - days + 1)
  else none

/-- A day as a value. -/
def dayValue (d : Day) : Scalar := .text (Date.ofDay d).text

/-- The dates whose age compares with that of `ref`, the day before `next`. -/
def dateBounds? (op : Operator) (ref next : Day) : Option Bounds :=
  match op with
  | .equal | .notEqual =>
    some { Bounds.none with gte := some (dayValue ref), lt := some (dayValue next) }
  | .greater => some { Bounds.none with lt := some (dayValue ref) }
  | .atLeast => some { Bounds.none with lt := some (dayValue next) }
  | .less => some { Bounds.none with gte := some (dayValue next) }
  | .atMost => some { Bounds.none with gte := some (dayValue ref) }
  | _ => none

/-- A field of dates, compared by age in days. -/
def relativeDate (t : Translator) (c : Condition) (field : String) : Except Failure Fragment :=
  match c.operand.single?.bind Scalar.int64? with
  | none => .error (.invalidOperand c.code .notDays)
  | some days =>
    match referenceDays? t.today days.toInt with
    | none => .error (.invalidOperand c.code (.outOfCalendar days.toInt))
    | some (ref, next) =>
      match dateBounds? c.op ref next with
      | none => .error (unsupported c)
      | some bounds => .ok ((Fragment.range field bounds).negateIf (c.op == .notEqual))

/-- How a text is searched for. -/
def builder (t : Translator) : FulltextBuilder :=
  t.fulltext.getD (WeightedSearch.standard t.schema).build

/-- A search in full text, whatever the operator. -/
def search (t : Translator) (c : Condition) : Except Failure Fragment := do
  let text := c.operand.plain
  let f ← t.builder text (t.spelling text)
  return f.negateIf c.op.isNegated

/-- A condition as a query. -/
def condition (t : Translator) (ctx : Context) (c : Condition) : Except Failure Fragment :=
  match t.registry.get? c.code with
  | none => t.standard c
  | some (.boolean field) => boolean c field
  | some (.terms field) => categorical c field
  | some (.perGroup path scopeField field isBoolean) =>
    perGroup c ctx path scopeField field isBoolean
  | some (.date field) => t.relativeDate c field
  | some .fulltext => t.search c

/-- The clauses of a rule under its aggregator: nothing of none. -/
def combine (a : Aggregator) (expected : Bool) (clauses : List Fragment) : Option Fragment :=
  match a, expected with
  | .all, true => Fragment.allOf? clauses
  | .any, true => Fragment.anyOf? clauses
  | .any, false => (Fragment.allOf? clauses).map Fragment.negate
  | .all, false =>
    match clauses with
    | [] => none
    | [f] => some f.negate
    | fs => some (.noneOf fs)

mutual

/-- A rule as a query, or nothing if it is no restriction. -/
def rule (t : Translator) (ctx : Context) : Rule → Except Failure (Option Fragment)
  | .mk a expected children => do
    let clauses ← t.clauses ctx children
    return combine a expected clauses

/-- The clauses of the children of a rule. -/
def clauses (t : Translator) (ctx : Context) : List RuleNode → Except Failure (List Fragment)
  | [] => .ok []
  | .leaf c :: r => do
    let f ← t.condition ctx c
    let fs ← t.clauses ctx r
    return f :: fs
  | .tree child :: r => do
    let f ← t.rule ctx child
    let fs ← t.clauses ctx r
    return f.toList ++ fs

end

end Translator

end Merchandising

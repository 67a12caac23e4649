/-
  Fragments as JSON.

  A fragment is a record of its label, left out if it has none, and its condition; a condition
  starts with its kind, and its fields follow in a fixed order.  Lists of clauses are left out if
  they are empty, and optional fields if they are not set.
-/
import Merchandising.Json.Basic
import Merchandising.Query.Fragment

namespace Merchandising

/-- A value. -/
def Scalar.toJson : Scalar → Json
  | .bool b => .bool b
  | .int n => .int n.toInt
  | .float x => .float x
  | .text s => .text s

namespace Query

/-- A member that is left out if it is not set. -/
def optionalMember {α : Type} (name : String) (write : α → Json) : Option α → List (String × Json)
  | none => []
  | some a => [(name, write a)]

/-- The ends of a range. -/
def boundsJson (b : Bounds) : Json :=
  .record (optionalMember "gt" Scalar.toJson b.gt ++ optionalMember "gte" Scalar.toJson b.gte ++
    optionalMember "lt" Scalar.toJson b.lt ++ optionalMember "lte" Scalar.toJson b.lte)

/-- Weights by property, in the order of the properties. -/
def weightsJson (w : Weights) : Json :=
  .record (w.entries.map fun (k, x) => (k, .float x))

/-- A score that is read from a field. -/
def factorJson (f : FieldFactor) : Json :=
  .record ([("field", .text f.field), ("factor", .float f.factor)] ++
    optionalMember "missing" Json.float f.missing)

/-- The names of the ways to combine scores. -/
def modeNames : List (String × CombineMode) :=
  [("multiply", .multiply), ("sum", .sum), ("avg", .avg), ("first", .first), ("max", .max),
    ("min", .min), ("replace", .replace)]

/-- The name of a way to combine scores. -/
def modeName : CombineMode → String
  | .multiply => "multiply"
  | .sum => "sum"
  | .avg => "avg"
  | .first => "first"
  | .max => "max"
  | .min => "min"
  | .replace => "replace"

/-- A way to combine scores. -/
def modeJson (m : CombineMode) : Json := .text (modeName m)

/-- A list of texts. -/
def textsJson (texts : List String) : Json := .list (texts.map .text)

/-- Fuzziness and least number of matching words, where they are set. -/
def matchOptions (fuzziness minimum : Option String) : List (String × Json) :=
  optionalMember "fuzziness" Json.text fuzziness ++
    optionalMember "minimum_should_match" Json.text minimum

/-- A list of clauses, left out if it is empty. -/
def clauseMember (name : String) : List Json → List (String × Json)
  | [] => []
  | js => [(name, .list js)]

/-- A condition: its kind, then its fields. -/
def kindRecord (kind : String) (fields : List (String × Json)) : Json :=
  .record (("type", .text kind) :: fields)

end Query

mutual

/-- A fragment as JSON. -/
def Fragment.toJson : Fragment → Json
  | .mk name query =>
    .record (Query.optionalMember "name" Json.text name ++ [("query", query.toJson)])

/-- A condition as JSON. -/
def Query.toJson : Query → Json
  | .bool must should mustNot minimum =>
    Query.kindRecord "bool" (Query.clauseMember "must" (fragmentsJson must) ++
      Query.clauseMember "should" (fragmentsJson should) ++
      Query.clauseMember "must_not" (fragmentsJson mustNot) ++
      Query.optionalMember "minimum_should_match" (fun n => Json.int n.toNat) minimum)
  | .term field value => Query.kindRecord "term" [("field", .text field), ("value", value.toJson)]
  | .terms field values =>
    Query.kindRecord "terms" [("field", .text field), ("values", .list (values.map Scalar.toJson))]
  | .range field bounds =>
    Query.kindRecord "range" [("field", .text field), ("bounds", Query.boundsJson bounds)]
  | .nested path inner => Query.kindRecord "nested" [("path", .text path), ("query", inner.toJson)]
  | .not inner => Query.kindRecord "not" [("query", inner.toJson)]
  | .present field => Query.kindRecord "exists" [("field", .text field)]
  | .absent field => Query.kindRecord "missing" [("field", .text field)]
  | .words field text fuzziness minimum =>
    Query.kindRecord "match" ([("field", .text field), ("text", .text text)] ++
      Query.matchOptions fuzziness minimum)
  | .weighted fields text fuzziness minimum =>
    Query.kindRecord "multi_match" ([("fields", Query.weightsJson fields), ("text", .text text)] ++
      Query.matchOptions fuzziness minimum)
  | .scored inner functions scoreMode boostMode =>
    Query.kindRecord "function_score"
      ([("query", inner.toJson), ("functions", .list (functionsJson functions))] ++
        Query.optionalMember "score_mode" Query.modeJson scoreMode ++
        Query.optionalMember "boost_mode" Query.modeJson boostMode)
  | .similar fields like minimum =>
    Query.kindRecord "more_like_this"
      ([("fields", Query.textsJson fields), ("like", Query.textsJson like)] ++
        Query.optionalMember "minimum_should_match" Json.text minimum)
  | .startsWith field value =>
    Query.kindRecord "prefix" [("field", .text field), ("value", .text value)]
  | .pattern field value =>
    Query.kindRecord "regexp" [("field", .text field), ("value", .text value)]

/-- Fragments as JSON. -/
def fragmentsJson : List Fragment → List Json
  | [] => []
  | f :: fs => f.toJson :: fragmentsJson fs

/-- Score functions as JSON. -/
def functionsJson : List ScoreFunction → List Json
  | [] => []
  | .mk none weight factor :: fs =>
    .record (Query.optionalMember "weight" Json.float weight ++
      Query.optionalMember "field_value_factor" Query.factorJson factor) :: functionsJson fs
  | .mk (some filter) weight factor :: fs =>
    .record (("filter", filter.toJson) :: Query.optionalMember "weight" Json.float weight ++
      Query.optionalMember "field_value_factor" Query.factorJson factor) :: functionsJson fs

end

end Merchandising

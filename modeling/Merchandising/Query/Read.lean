/-
  Reading fragments from JSON.

  `Fragment.ofJson?` reads what `Fragment.toJson` writes, and more: fields in any order and among
  unknown ones, records as lists of their values, null for what is not set.  What stands inside a
  condition is inside a tagged record (`Json.Place`).
-/
import Merchandising.Json.Record
import Merchandising.Query.Written

namespace Merchandising

open Json (Place required? optional? defaulted? text? float? word32? listOf? roundInt)

/-- A value; a whole number that does not fit 64 signed bits is rounded to a double. -/
def Scalar.ofJson? : Json → Option Scalar
  | .bool b => some (.bool b)
  | .int n =>
    match Text.fit64? n with
    | some i => some (.int i)
    | none => some (.float (roundInt n))
  | .float x => some (.float x)
  | .text s => some (.text s)
  | _ => none

/-- The ends of a range. -/
def Bounds.ofJson? (j : Json) : Option Bounds := do
  let [gt, gte, lt, lte] ←
    j.slots? [.omitted "gt", .omitted "gte", .omitted "lt", .omitted "lte"] | Option.none
  return ⟨← optional? Scalar.ofJson? gt, ← optional? Scalar.ofJson? gte,
    ← optional? Scalar.ofJson? lt, ← optional? Scalar.ofJson? lte⟩

/-- A score that is read from a field. -/
def FieldFactor.ofJson? (j : Json) : Option FieldFactor := do
  let [field, factor, missing] ←
    j.slots? [.needed "field", .needed "factor", .omitted "missing"] | none
  return ⟨← required? text? field, ← required? float? factor, ← optional? float? missing⟩

/-- Weights by property; of several weights of a property the last one counts. -/
def Weights.ofJson? : Json → Option Weights
  | .record members =>
    (members.mapM fun m => (float? m.2).map fun x => (m.1, x)).map KeyedMap.ofList
  | _ => none

/-- The kinds of conditions. -/
inductive QueryKind where
  | bool
  | term
  | terms
  | range
  | nested
  | not
  | present
  | absent
  | words
  | weighted
  | scored
  | similar
  | startsWith
  | pattern
  deriving DecidableEq, Repr

/-- The names of the kinds of conditions. -/
def QueryKind.names : List (String × QueryKind) :=
  [("bool", .bool), ("term", .term), ("terms", .terms), ("range", .range), ("nested", .nested),
    ("not", .not), ("exists", .present), ("missing", .absent), ("match", .words),
    ("multi_match", .weighted), ("function_score", .scored), ("more_like_this", .similar),
    ("prefix", .startsWith), ("regexp", .pattern)]

/-- A way to combine scores. -/
def modeOfJson? (j : Json) : Option CombineMode :=
  j.choice? .tagged Query.modeNames

/-- A list of texts. -/
def textsOfJson? (j : Json) : Option (List String) :=
  j.listOf? text?

namespace Query

/-- A condition of a kind, from its fields, with a reader for the fragments in it and one for its
    score functions. -/
def ofFields? (fragment : Json → Option Fragment) (function : Json → Option ScoreFunction)
    (kind : QueryKind) (j : Json) : Option Query :=
  match kind with
  | .bool => do
    let [must, should, mustNot, minimum] ← j.slots? [.omitted "must", .omitted "should",
      .omitted "must_not", .omitted "minimum_should_match"] | none
    return .bool (← defaulted? [] (listOf? fragment) must)
      (← defaulted? [] (listOf? fragment) should) (← defaulted? [] (listOf? fragment) mustNot)
      (← optional? word32? minimum)
  | .term => do
    let [field, value] ← j.slots? [.needed "field", .needed "value"] | none
    return .term (← required? text? field) (← required? Scalar.ofJson? value)
  | .terms => do
    let [field, values] ← j.slots? [.needed "field", .needed "values"] | none
    return .terms (← required? text? field) (← required? (listOf? Scalar.ofJson?) values)
  | .range => do
    let [field, bounds] ← j.slots? [.needed "field", .needed "bounds"] | none
    return .range (← required? text? field) (← required? Bounds.ofJson? bounds)
  | .nested => do
    let [path, inner] ← j.slots? [.needed "path", .needed "query"] | none
    return .nested (← required? text? path) (← required? fragment inner)
  | .not => do
    let [inner] ← j.slots? [.needed "query"] | none
    return .not (← required? fragment inner)
  | .present => do
    let [field] ← j.slots? [.needed "field"] | none
    return .present (← required? text? field)
  | .absent => do
    let [field] ← j.slots? [.needed "field"] | none
    return .absent (← required? text? field)
  | .words => do
    let [field, text, fuzziness, minimum] ← j.slots? [.needed "field", .needed "text",
      .omitted "fuzziness", .omitted "minimum_should_match"] | none
    return .words (← required? text? field) (← required? text? text)
      (← optional? text? fuzziness) (← optional? text? minimum)
  | .weighted => do
    let [fields, text, fuzziness, minimum] ← j.slots? [.needed "fields", .needed "text",
      .omitted "fuzziness", .omitted "minimum_should_match"] | none
    return .weighted (← required? Weights.ofJson? fields) (← required? text? text)
      (← optional? text? fuzziness) (← optional? text? minimum)
  | .scored => do
    let [inner, functions, scoreMode, boostMode] ← j.slots? [.needed "query", .needed "functions",
      .omitted "score_mode", .omitted "boost_mode"] | none
    return .scored (← required? fragment inner) (← required? (listOf? function) functions)
      (← optional? modeOfJson? scoreMode) (← optional? modeOfJson? boostMode)
  | .similar => do
    let [fields, like, minimum] ← j.slots? [.needed "fields", .needed "like",
      .omitted "minimum_should_match"] | none
    return .similar (← required? textsOfJson? fields) (← required? textsOfJson? like)
      (← optional? text? minimum)
  | .startsWith => do
    let [field, value] ← j.slots? [.needed "field", .needed "value"] | none
    return .startsWith (← required? text? field) (← required? text? value)
  | .pattern => do
    let [field, value] ← j.slots? [.needed "field", .needed "value"] | none
    return .pattern (← required? text? field) (← required? text? value)

end Query

/-- A score function, with a reader for its filter. -/
def ScoreFunction.ofFields? (fragment : Json → Option Fragment) (j : Json) :
    Option ScoreFunction := do
  let [filter, weight, factor] ← j.slots? [.omitted "filter", .omitted "weight",
    .omitted "field_value_factor"] | none
  return .mk (← optional? fragment filter) (← optional? float? weight)
    (← optional? FieldFactor.ofJson? factor)

/-- A fragment, with a reader for its condition. -/
def Fragment.ofFields? (query : Json → Option Query) (j : Json) : Option Fragment := do
  let [name, condition] ← j.slots? [.omitted "name", .needed "query"] | none
  return .mk (← optional? text? name) (← required? query condition)

/-- A condition that nests at most `depth` deep. -/
def Query.readWithin : Nat → Place → Json → Option Query
  | 0, _, _ => none
  | depth + 1, place, j => do
    let (kind, fields) ← j.tagged? place "type" QueryKind.names
    let fragment := Fragment.ofFields? (Query.readWithin depth .tagged)
    Query.ofFields? fragment (ScoreFunction.ofFields? fragment) kind fields

/-- A condition in JSON that stands at some place; every condition inside it nests less deep than
    the value itself, so the depth of the value is enough. -/
def Query.ofJson? (place : Place) (j : Json) : Option Query :=
  Query.readWithin j.depth place j

/-- A fragment in JSON. -/
def Fragment.ofJson? (j : Json) : Option Fragment :=
  Fragment.ofFields? (Query.ofJson? .outer) j

end Merchandising

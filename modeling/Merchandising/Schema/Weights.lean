/-
  The properties that a full-text search looks at, with their weights.

  A field takes part with the property that is analyzed with the wanted analyzer, or with its own
  one if none is wanted.  A cross-field may take part as well; then it stands for all fields of
  weight one that it covers, that is, if no analyzer is wanted, those with the standard analyzer.
-/
import Merchandising.Query.Fragment
import Merchandising.Schema.Basic

namespace Merchandising

/-- What a full-text search asks for. -/
structure WeightRequest where
  /-- The name of the wanted analyzer. -/
  analyzer : Option String
  /-- The name of the cross-field that takes part. -/
  defaultField : Option String
  /-- What all weights are multiplied by. -/
  boost : Float
  /-- The fields that may take part. -/
  admits : Field → Bool

namespace Schema

/-- The property of the cross-field of a name. -/
def defaultProperty (s : Schema) (name : String) (wanted : Analyzer) : Except Failure String :=
  match s.composites.find? (·.name == name) with
  | none => .error (.unknownDefaultField name)
  | some c =>
    match c.property? wanted with
    | none => .error (.unknownAnalyzer (name ++ "." ++ wanted.name))
    | some p => .ok p

/-- Whether a cross-field does not stand for a field. -/
def takesPart (r : WeightRequest) (wanted : Option Analyzer) (f : Field) : Bool :=
  r.defaultField.isNone || f.weight != 1.0 || (wanted.isNone && f.analyzer != .standard)

/-- The property of a field that takes part. -/
def weightedProperty? (r : WeightRequest) (wanted : Option Analyzer) (f : Field) : Option String :=
  if r.admits f && takesPart r wanted f then f.property? (wanted.getD f.analyzer) else none

/-- The weights with those of one more field. -/
def addWeight (r : WeightRequest) (wanted : Option Analyzer) (w : Weights) (f : Field) : Weights :=
  match weightedProperty? r wanted f with
  | some p => w.insert p (f.weight * r.boost)
  | none => w

/-- The properties that take part, with their weights. -/
def weights (s : Schema) (r : WeightRequest) : Except Failure Weights := do
  let wanted ← r.analyzer.mapM Analyzer.ofName
  let start : Weights ← match r.defaultField with
    | none => pure .empty
    | some name => do
      let p ← s.defaultProperty name (wanted.getD .standard)
      pure (KeyedMap.insert .empty p r.boost)
  return s.fields.foldl (addWeight r wanted) start

end Schema

end Merchandising

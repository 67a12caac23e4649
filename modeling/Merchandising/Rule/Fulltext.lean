/-
  Searches in full text.

  A text that is spelled correctly is searched for in the weighted properties of the searchable
  fields, with the cross-field of all of them as the default; any other text is matched fuzzily
  with the cross-field for spelling.
-/
import Merchandising.Query.Fragment
import Merchandising.Schema.Weights

namespace Merchandising

/-- Whether all words of a text are spelled correctly. -/
inductive Spelling where
  | exact
  | fuzzy
  deriving DecidableEq, Repr

/-- How a text is searched for. -/
abbrev FulltextBuilder := String → Spelling → Except Failure Fragment

/-- A search in the weighted properties of a schema. -/
structure WeightedSearch where
  schema : Option Schema
  fuzziness : String
  minimum : String

namespace WeightedSearch

/-- The usual search: all words have to match, with as many errors as their length admits. -/
def standard (schema : Option Schema) : WeightedSearch := ⟨schema, "AUTO", "100%"⟩

/-- The weighted properties; without a schema only the cross-field of searchable fields. -/
def fields (w : WeightedSearch) : Except Failure Weights :=
  match w.schema with
  | none => .ok (KeyedMap.empty.insert Composite.searchName 1.0)
  | some s => s.weights ⟨none, some Composite.searchName, 1.0, Field.searchable⟩

/-- The query for a text. -/
def build (w : WeightedSearch) : FulltextBuilder
  | text, .exact => do
    let fields ← w.fields
    return .unnamed (.weighted fields text none (some w.minimum))
  | text, .fuzzy =>
    return .unnamed (.words Composite.spellingName text (some w.fuzziness) (some w.minimum))

end WeightedSearch

end Merchandising

/-
  A translator in words, for people to read: its special attributes, how many fields its schema
  has, and whether it searches texts in its own way.
-/
import Merchandising.Rule.Translator
import Merchandising.Text.Quoted

namespace Merchandising.Translator

/-- The number of fields of a schema, if there is one. -/
def describeSchema : Option Schema → String
  | none => "None"
  | some s => "Some(" ++ String.ofList (Decimal.digits s.fields.length) ++ ")"

/-- A translator in words. -/
def describe (t : Translator) : String :=
  "ConditionTranslator \x7b special_attributes: [" ++
    ", ".intercalate (t.registry.codes.map fun c => String.ofList (Text.quoted c)) ++
    "], schema: " ++ describeSchema t.schema ++ ", custom_fulltext: " ++
    (if t.fulltext.isSome then "true" else "false") ++ ", .. \x7d"

end Merchandising.Translator

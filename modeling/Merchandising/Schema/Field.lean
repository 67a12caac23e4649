/-
  Indexed fields.

  * `FieldType` and `Analyzer` are the types of values and the ways to analyze texts;
  * `Field` is a declared field; `Field.analyzers` are the analyzers it is indexed with, the first
    one under its own name and the others under a name of their own (`propertyOf`);
  * `Field.location` are the segments of the path under which a field is laid out.
-/
import Merchandising.Failure
import Merchandising.Text.Split

namespace Merchandising

/-- The type of the values of a field. -/
inductive FieldType where
  | text
  | keyword
  | integer
  | long
  | double
  | date
  | boolean
  | object
  | nested
  deriving DecidableEq, Repr

namespace FieldType

/-- The types. -/
def all : List FieldType :=
  [text, keyword, integer, long, double, date, boolean, object, nested]

/-- The name of a type. -/
def name : FieldType → String
  | text => "text"
  | keyword => "keyword"
  | integer => "integer"
  | long => "long"
  | double => "double"
  | date => "date"
  | boolean => "boolean"
  | object => "object"
  | nested => "nested"

/-- The types by their names. -/
def byName : List (String × FieldType) :=
  all.map fun t => (t.name, t)

/-- Whether a field of this type holds fields instead of values. -/
def isContainer : FieldType → Bool
  | object | nested => true
  | _ => false

end FieldType

/-- A way to analyze a text; `untouched` leaves it as it is. -/
inductive Analyzer where
  | standard
  | whitespace
  | shingle
  | reference
  | phonetic
  | sortable
  | untouched
  deriving DecidableEq, Repr

namespace Analyzer

/-- The analyzers. -/
def all : List Analyzer :=
  [standard, whitespace, shingle, reference, phonetic, sortable, untouched]

/-- The name of an analyzer. -/
def name : Analyzer → String
  | standard => "standard"
  | whitespace => "whitespace"
  | shingle => "shingle"
  | reference => "reference"
  | phonetic => "phonetic"
  | sortable => "sortable"
  | untouched => "untouched"

/-- The analyzers by their names. -/
def byName : List (String × Analyzer) :=
  all.map fun a => (a.name, a)

/-- The analyzer of a name. -/
def ofName (s : String) : Except Failure Analyzer :=
  match byName.lookup s with
  | some a => .ok a
  | none => .error (.unknownAnalyzer s)

end Analyzer

/-- The property of `name` that is analyzed with `a`: the first analyzer has the name itself, a
    later one the name, a point and its own name. -/
def propertyOf (name : String) (analyzers : List Analyzer) (a : Analyzer) : Option String :=
  match analyzers with
  | [] => none
  | main :: others =>
    if a = main then some name
    else if a ∈ others then some (name ++ "." ++ a.name)
    else none

/-- A declared field. -/
structure Field where
  name : String
  type : FieldType
  /-- The path of the nested documents that hold the field. -/
  nestedPath : Option String
  searchable : Bool
  spellcheck : Bool
  sortable : Bool
  /-- How much a match in this field counts. -/
  weight : Float
  /-- The analyzer of the field's own property. -/
  analyzer : Analyzer

namespace Field

/-- A field that is not searched in full text. -/
def plain (name : String) (type : FieldType) : Field :=
  ⟨name, type, none, false, false, false, 1.0, .standard⟩

/-- A weight that counts: what is no positive number counts as zero. -/
def atLeastZero (x : Float) : Float :=
  if 0.0 < x then x else 0.0

/-- The field with a part in full-text search. -/
def withWeight (f : Field) (weight : Float) : Field :=
  { f with searchable := true, weight := atLeastZero weight }

/-- Whether the values are texts. -/
def isText (f : Field) : Bool :=
  f.type == .text

/-- The analyzers that a text field may have besides its own one. -/
def extraAnalyzers (f : Field) : List Analyzer :=
  .untouched :: ((if f.searchable then [.whitespace] else []) ++
    (if f.spellcheck then [.shingle] else []) ++ (if f.sortable then [.sortable] else []))

/-- The analyzers that a field is indexed with, its main one first. -/
def analyzers (f : Field) : List Analyzer :=
  if f.isText then f.analyzer :: f.extraAnalyzers.filter (· ≠ f.analyzer) else [.untouched]

/-- The property that is analyzed with `a`, if the field is indexed that way. -/
def property? (f : Field) (a : Analyzer) : Option String :=
  propertyOf f.name f.analyzers a

/-- The property that holds the values as they are. -/
def filterProperty (f : Field) : String :=
  (f.property? .untouched).getD f.name

/-! ## Where a field is laid out -/

/-- The name of a field below its nested path: without the path and a point, if it starts so. -/
def relativeName (path name : String) : String :=
  let start := path.toList ++ ['.']
  if start.isPrefixOf name.toList then String.ofList (name.toList.drop start.length) else name

/-- The containers that a field stands in, outermost first, each with the type it has to have, and
    the field's name in the innermost one. -/
def steps (f : Field) : List (String × FieldType) × String :=
  let split (s : String) : List (String × FieldType) × String :=
    let segments := Text.split '.' s
    (segments.dropLast.map fun c => (c, .object), segments.getLastD "")
  match f.nestedPath with
  | none => split f.name
  | some path =>
    let (outer, last) := split path
    let (inner, name) := split (relativeName path f.name)
    (outer ++ (last, .nested) :: inner, name)

/-- The path under which a field is laid out. -/
def location (f : Field) : List String :=
  f.steps.1.map Prod.fst ++ [f.steps.2]

/-- No analyzer is listed twice. -/
theorem nodup_analyzers (f : Field) : f.analyzers.Nodup := by
  unfold analyzers
  split
  · refine List.nodup_cons.2 ⟨by simp, List.Pairwise.filter _ ?_⟩
    unfold extraAnalyzers
    cases f.searchable <;> cases f.spellcheck <;> cases f.sortable <;> decide
  · simp

end Field

end Merchandising

/-
  Schemas: declared fields, put together and laid out.

  * `Declarations` are the cross-fields, the name of the id field, and the declarations of fields,
    those of the static fields first;
  * `Assembly` are the fields that are left of some declarations, with the place of each by its name;
    `declare` is one more declaration;
  * `assemble` keeps one field per name, at its first place and as declared last;
  * `compile` lays the fields out in a mapping over the cross-fields, and fails if no field is the
    id field; `compileEvents` are the events of that.
-/
import Merchandising.Event

namespace Merchandising

/-- A cross-field that others are copied to; the first analyzer is its main one. -/
structure Composite where
  name : String
  analyzers : List Analyzer
  deriving DecidableEq, Repr

namespace Composite

/-- The property that is analyzed with `a`. -/
def property? (c : Composite) (a : Analyzer) : Option String :=
  propertyOf c.name c.analyzers a

/-- The name of the cross-field of all searchable fields. -/
def searchName : String := "search"

/-- The name of the cross-field of all fields that are used to check spelling. -/
def spellingName : String := "spelling"

/-- The name of the cross-field for completions. -/
def autocompleteName : String := "autocomplete"

/-- The cross-fields of a catalog. -/
def standard : List Composite :=
  [⟨searchName, [.standard, .whitespace, .reference]⟩,
    ⟨spellingName, [.standard, .whitespace, .shingle, .phonetic]⟩,
    ⟨autocompleteName, [.standard, .shingle]⟩]

end Composite

/-- Everything that is declared about an index. -/
structure Declarations where
  composites : List Composite
  idField : String
  /-- The declarations of fields, in order. -/
  fields : List Field

/-- A compiled schema. -/
structure Schema where
  idField : String
  mapping : Tree
  /-- The fields in the order in which they were first declared. -/
  fields : List Field
  /-- Where each name is among the fields. -/
  places : KeyedMap Nat
  composites : List Composite

namespace Schema

/-- The field of a name: the one at the place of the name. -/
def field? (s : Schema) (name : String) : Option Field :=
  (s.places.get? name).bind fun i => s.fields[i]?

end Schema

/-! ## Putting fields together -/

/-- The fields that are left of some declarations. -/
structure Assembly where
  fields : List Field
  /-- Where each name is among the fields. -/
  places : KeyedMap Nat

namespace Assembly

/-- No fields. -/
def empty : Assembly := ⟨[], .empty⟩

/-- The fields with one more declaration, in place of an earlier one of the same name. -/
def declare (a : Assembly) (f : Field) : Assembly :=
  match a.places.get? f.name with
  | some i => { a with fields := a.fields.set i f }
  | none => ⟨a.fields ++ [f], a.places.insert f.name a.fields.length⟩

/-- What is left of some declarations. -/
def ofDeclarations (declarations : List Field) : Assembly :=
  declarations.foldl declare empty

end Assembly

namespace Declarations

/-- One field per name. -/
def assemble (declarations : List Field) : List Field :=
  (Assembly.ofDeclarations declarations).fields

/-- How many declarations repeat a name. -/
def replacements (declarations : List Field) : Nat :=
  declarations.length - (assemble declarations).length

/-! ## Laying them out -/

/-- Whether there is a cross-field of a name. -/
def hasComposite (d : Declarations) (name : String) : Bool :=
  d.composites.any (·.name == name)

/-- The cross-fields that a field is copied to. -/
def copyTo (d : Declarations) (f : Field) : List String :=
  (if f.searchable && d.hasComposite Composite.searchName then [Composite.searchName] else []) ++
    (if f.spellcheck && d.hasComposite Composite.spellingName then [Composite.spellingName] else [])

/-- The property of a field. -/
def node (d : Declarations) (f : Field) : Node :=
  .leaf (.ofField f (d.copyTo f))

/-- The mapping of the cross-fields. -/
def seed (d : Declarations) : Tree :=
  d.composites.foldl (fun t c => Keyed.put c.name (.leaf (.analyzed c.analyzers)) t) []

/-- The mapping with one more field. -/
def layField (d : Declarations) (t : Tree) (f : Field) : Tree :=
  Tree.place f.steps.1 f.steps.2 (d.node f) t

/-- The mapping of all fields over the cross-fields. -/
def mapping (d : Declarations) : Tree :=
  (assemble d.fields).foldl d.layField d.seed

/-- The schema of declarations. -/
def compile (d : Declarations) : Except Failure Schema :=
  let a := Assembly.ofDeclarations d.fields
  if (a.places.get? d.idField).isSome then
    .ok ⟨d.idField, d.mapping, a.fields, a.places, d.composites⟩
  else .error (.unknownIdField d.idField)

/-! ## What is reported -/

/-- The events of laying out fields over a mapping. -/
def layEvents (d : Declarations) : Tree → List Field → List Event
  | _, [] => []
  | t, f :: r =>
    (Tree.remarks f.steps.1 f.steps.2 (d.node f) t).map .mapped ++ layEvents d (d.layField t f) r

/-- The events of compiling declarations. -/
def compileEvents (d : Declarations) : List Event :=
  let a := Assembly.ofDeclarations d.fields
  List.replicate (replacements d.fields) .fieldReplaced ++
    if (a.places.get? d.idField).isSome then
      d.layEvents d.seed a.fields ++ [.schemaCompiled a.fields.length]
    else []

end Declarations

end Merchandising

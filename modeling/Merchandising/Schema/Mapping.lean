/-
  The mapping of an index: a tree of properties.

  * `Node` is a property: its type, how it is analyzed, the fields it is copied to, and the
    properties inside it; `Tree` are properties by name;
  * `Tree.place` puts a property at the end of a path of containers, making those that are missing;
  * `Tree.remarks` says what `Tree.place` meets on its way that is worth a remark.

  A container wins over a value of the same name, and nested documents win over an object.
-/
import Merchandising.Json.Basic
import Merchandising.Keyed
import Merchandising.Schema.Field

namespace Merchandising

/-- A further property of the same values, analyzed in another way. -/
structure SubProperty where
  type : FieldType
  analyzer : Option Analyzer
  deriving DecidableEq, Repr

/-- A property without the properties inside it. -/
structure Property where
  type : FieldType
  analyzer : Option Analyzer
  /-- The further properties of the same values, by name. -/
  subs : List (String × SubProperty)
  /-- The fields that the values are copied to. -/
  copyTo : List String
  deriving DecidableEq, Repr

namespace Property

/-- A property that is not analyzed. -/
def ofType (type : FieldType) : Property := ⟨type, none, [], []⟩

/-- A further property that is analyzed with `a`. -/
def sub (a : Analyzer) : SubProperty :=
  if a = .untouched then ⟨.keyword, none⟩ else ⟨.text, some a⟩

/-- A text property with the first analyzer, and a further one for each of the others. -/
def analyzed (analyzers : List Analyzer) : Property where
  type := .text
  analyzer := analyzers.head?
  subs := analyzers.tail.foldl (fun subs a => Keyed.put a.name (sub a) subs) []
  copyTo := []

/-- The property of a field, which is copied to `copyTo`. -/
def ofField (f : Field) (copyTo : List String) : Property :=
  { (if f.isText then analyzed f.analyzers else ofType f.type) with copyTo }

end Property

/-- A property and the properties inside it. -/
inductive Node where
  | mk (property : Property) (children : List (String × Node))

/-- Properties by name, in the order of the names. -/
abbrev Tree := List (String × Node)

/-- What is worth a remark while a property is placed. -/
inductive Remark where
  /-- A value gives way to a container of its name. -/
  | valueShadowed
  /-- An object becomes a list of nested documents. -/
  | containerPromoted
  /-- A value is left out in favour of a container of its name. -/
  | valueDropped
  deriving DecidableEq, Repr

namespace Node

/-- The property itself. -/
def property : Node → Property
  | mk p _ => p

/-- The properties inside it. -/
def children : Node → Tree
  | mk _ cs => cs

/-- A property with nothing inside it. -/
def leaf (p : Property) : Node := mk p []

/-- Whether a property is meant to have others inside it. -/
def isContainer (n : Node) : Bool := n.property.type.isContainer

/-- The property with another type. -/
def withType (n : Node) (type : FieldType) : Node :=
  mk { n.property with type } n.children

/-- The container of type `type` that takes the place of what is there. -/
def container (type : FieldType) : Option Node → Node
  | none => leaf (.ofType type)
  | some n =>
    if !n.isContainer then leaf (.ofType type)
    else if type = .nested ∧ n.property.type = .object then n.withType .nested
    else n

/-- What takes the place of what is there when `new` is placed: a container stays, and becomes
    nested if it is to. -/
def merge (new : Node) : Option Node → Node
  | none => new
  | some n =>
    if !n.isContainer then new
    else if new.isContainer ∧ n.property.type ≠ .nested then n.withType new.property.type
    else n

end Node

namespace Tree

/-- The tree with `new` as property `name` inside the containers `steps`. -/
def place : List (String × FieldType) → String → Node → Tree → Tree
  | [], name, new, t => Keyed.put name (new.merge (t.lookup name)) t
  | (c, type) :: steps, name, new, t =>
    let n := Node.container type (t.lookup c)
    Keyed.put c (.mk n.property (place steps name new n.children)) t

/-- The remark on a container that is entered. -/
def containerRemark (type : FieldType) : Option Node → List Remark
  | none => []
  | some n =>
    if !n.isContainer then [.valueShadowed]
    else if type = .nested ∧ n.property.type = .object then [.containerPromoted]
    else []

/-- The remark on a property that is placed. -/
def mergeRemark (new : Node) : Option Node → List Remark
  | none => []
  | some n => if n.isContainer && !new.isContainer then [.valueDropped] else []

/-- The remarks on `place`, in order. -/
def remarks : List (String × FieldType) → String → Node → Tree → List Remark
  | [], name, new, t => mergeRemark new (t.lookup name)
  | (c, type) :: steps, name, new, t =>
    containerRemark type (t.lookup c) ++
      remarks steps name new (Node.container type (t.lookup c)).children

end Tree

/-! ## Mappings as JSON -/

/-- A further property. -/
def SubProperty.toJson (s : SubProperty) : Json :=
  .record (("type", .text s.type.name) :: match s.analyzer with
    | none => []
    | some a => [("analyzer", .text a.name)])

/-- The members of a property: what is not set or empty is left out. -/
def Property.members (p : Property) : List (String × Json) :=
  ("type", .text p.type.name) ::
    ((match p.analyzer with
      | none => []
      | some a => [("analyzer", .text a.name)]) ++
    (if p.subs.isEmpty then []
      else [("fields", .record (p.subs.map fun (k, s) => (k, s.toJson)))]) ++
    (if p.copyTo.isEmpty then [] else [("copy_to", .list (p.copyTo.map .text))]))

mutual

/-- A property with those inside it. -/
def Node.toJson : Node → Json
  | .mk p [] => .record p.members
  | .mk p (c :: cs) => .record (p.members ++ [("properties", .record (treeMembers (c :: cs)))])

/-- Properties by name. -/
def treeMembers : List (String × Node) → List (String × Json)
  | [] => []
  | (k, n) :: r => (k, n.toJson) :: treeMembers r

end

/-- A mapping. -/
def Tree.toJson (t : Tree) : Json :=
  .record [("properties", .record (treeMembers t))]

end Merchandising

/-
  Compiled queries as stored text.

  * `StoredQuery` is a compiled query, or none for "no restriction", and the ids of the categories
    that were consulted to compile it;
  * `encode` writes it as a record that starts with the version of the format;
  * `decode` reads such a record, and tells a text that is none (`malformed`) from a record of
    another version.
-/
import Merchandising.IdSet
import Merchandising.Json.Literal
import Merchandising.Json.Writer
import Merchandising.Query.Read

namespace Merchandising

/-- A compiled query as it is kept, and the ids that were consulted to compile it. -/
structure StoredQuery where
  fragment : Option Fragment
  consulted : IdSet

namespace StoredQuery

/-- Equality of stored queries. -/
def same (a b : StoredQuery) : Bool :=
  a.fragment == b.fragment && a.consulted == b.consulted

instance : BEq StoredQuery := ⟨same⟩

/-- The version of the format that is written, and the only one that is read. -/
def version : UInt32 := 2

/-- Why a text is not read. -/
inductive Fault where
  /-- It is no stored query at all. -/
  | malformed
  /-- It is a stored query of another version. -/
  | version (n : UInt32)
  deriving DecidableEq, Repr

/-- A fragment, or null. -/
def fragmentJson : Option Fragment → Json
  | none => .null
  | some f => f.toJson

/-- The record of a stored query. -/
def toJson (e : StoredQuery) : Json :=
  .record [("version", .int version.toNat), ("fragment", fragmentJson e.fragment),
    ("consulted", .list (e.consulted.ids.map fun id => Json.int id.toNat))]

/-- The text of a stored query. -/
def encode (e : StoredQuery) : String :=
  e.toJson.print

/-- The tree without the members that a stored query and its fragment do not have. -/
def relevant (l : Json.Literal) : Json.Literal :=
  match l.keep ["version", "fragment", "consulted"] with
  | .record members => .record (members.map fun (key, l) =>
      (key, if key = some "fragment" then l.keep ["name", "query"] else l))
  | .list (v :: f :: r) => .list (v :: f.keep ["name", "query"] :: r)
  | l => l

/-- The version and content of a record, whatever the version. -/
def ofJson? (j : Json) : Option (UInt32 × StoredQuery) := do
  let [v, fragment, consulted] ←
    j.slots? [.needed "version", .needed "fragment", .omitted "consulted"] | none
  return (← Json.required? Json.word32? v, ⟨← Json.optional? Fragment.ofJson? fragment,
    IdSet.ofList (← Json.defaulted? [] (Json.listOf? Json.word64?) consulted)⟩)

/-- The version and content of a text, whatever the version. -/
def parse? (raw : String) : Option (UInt32 × StoredQuery) := do
  let l ← Json.literal? raw.toList
  ofJson? (← (relevant l).value? Json.maxDepth)

/-- The stored query of a text. -/
def decode (raw : String) : Except Fault StoredQuery :=
  match parse? raw with
  | none => .error .malformed
  | some (v, e) => if v = version then .ok e else .error (.version v)

/-- What is said of a text that is not read. -/
def Fault.message : Fault → Option String
  | .malformed => none
  | .version n => some ("unsupported fragment envelope version " ++
      String.ofList (Decimal.digits n.toNat))

end StoredQuery

end Merchandising

/-
  Categories.

  A static category has products assigned to it; a virtual one is defined by a rule, within the
  category that is its virtual root, if it has one.  `path` leads from the root of the tree to the
  category; a category that was never saved has no id, and its path ends at its parent.
-/
import Merchandising.Context
import Merchandising.Failure
import Merchandising.IdSet
import Merchandising.Rule.Written

namespace Merchandising

/-- A category. -/
structure Category where
  /-- Nothing if the category was never saved. -/
  id : Option CategoryId
  name : String
  path : List CategoryId
  isActive : Bool
  isVirtual : Bool
  virtualRoot : Option CategoryId
  /-- The rule that defines a virtual category. -/
  rule : Rule
  store : StoreId
  /-- Whether this is a preview of changes that are not saved. -/
  isDraft : Bool

/-- An id in decimal. -/
def idText (id : CategoryId) : String :=
  String.ofList (Decimal.digits id.toNat)

namespace Category

instance : Inhabited Category := ⟨⟨none, "", [], true, false, none, .empty, 0, false⟩⟩

/-! ## Making categories -/

/-- An active static category of store 0. -/
def ofPath (id : CategoryId) (name : String) (path : List CategoryId) : Category :=
  ⟨some id, name, path, true, false, none, .empty, 0, false⟩

/-- A category at the top of the tree. -/
def top (id : CategoryId) (name : String) : Category := ofPath id name [id]

/-- A category below another one, in its store. -/
def child (parent : Category) (id : CategoryId) (name : String) : Category :=
  { ofPath id name (parent.path ++ [id]) with store := parent.store }

/-- The category, defined by a rule. -/
def withRule (c : Category) (rule : Rule) : Category := { c with isVirtual := true, rule }

/-! ## Its place in the tree -/

/-- The distance from the root of the tree. -/
def level (c : Category) : Nat := c.path.length - 1

/-- The root of the store that the category is in. -/
def storeRoot? (c : Category) : Option CategoryId := c.path[1]?

/-- Whether another category lies strictly below this one. -/
def isAncestorOf (c d : Category) : Bool :=
  c.path.length < d.path.length && c.path.isPrefixOf d.path

/-- The path as text. -/
def pathText (c : Category) : String := "/".intercalate (c.path.map idText)

/-- The label of the queries of a category. -/
def label (c : Category) : String :=
  "Category [" ++ c.pathText ++ "] " ++ c.name ++ match c.id with
    | some id => " #" ++ idText id
    | none => " (new)"

end Category

/-! ## Categories as JSON -/

namespace Category

/-- An id, or null. -/
def idJson : Option CategoryId → Json
  | none => .null
  | some id => .int id.toNat

/-- A category with all its fields. -/
def toJson (c : Category) : Json :=
  .record [("id", idJson c.id), ("name", .text c.name),
    ("path", .list (c.path.map fun id => Json.int id.toNat)), ("is_active", .bool c.isActive),
    ("is_virtual", .bool c.isVirtual), ("virtual_root_id", idJson c.virtualRoot),
    ("conditions", c.rule.toJson), ("store_id", .int c.store.toNat), ("is_draft", .bool c.isDraft)]

open Json (required? optional? defaulted? text? bool? word32? word64? listOf?)

/-- A category in JSON. -/
def ofJson? (j : Json) : Option Category := do
  let [id, name, path, isActive, isVirtual, virtualRoot, rule, store, isDraft] ← j.slots?
    [.needed "id", .needed "name", .needed "path", .needed "is_active", .needed "is_virtual",
      .omitted "virtual_root_id", .omitted "conditions", .needed "store_id", .omitted "is_draft"]
    | none
  return ⟨← optional? word64? id, ← required? text? name, ← required? (listOf? word64?) path,
    ← required? bool? isActive, ← required? bool? isVirtual, ← optional? word64? virtualRoot,
    ← defaulted? .empty Rule.ofJson? rule, ← required? word32? store,
    ← defaulted? false bool? isDraft⟩

end Category

end Merchandising

/-
  Attributes that are translated in a way of their own.

  A `Policy` says how; a `Registry` gives codes of attributes their policies.  `Registry.standard`
  are the attributes of a catalog for stock, type, price, age and full text.
-/
import Merchandising.Keyed

namespace Merchandising

/-- How a special attribute is translated. -/
inductive Policy where
  /-- As a test of a field of truth values. -/
  | boolean (field : String)
  /-- As a test whether a field has one of the values. -/
  | terms (field : String)
  /-- As a condition on the document nested under `path` that belongs to the customer group; the
      operand is a truth value if `boolean` is set. -/
  | perGroup (path scopeField field : String) (boolean : Bool)
  /-- As an age in days, compared with a field of dates. -/
  | date (field : String)
  /-- As a search in full text. -/
  | fulltext
  deriving DecidableEq, Repr

/-- The policies of special attributes, by code. -/
abbrev Registry := KeyedMap Policy

namespace Registry

/-- No attribute is special. -/
def empty : Registry := KeyedMap.empty

/-- The registry with a policy for `code`, in place of an earlier one. -/
def register (r : Registry) (code : String) (policy : Policy) : Registry :=
  KeyedMap.insert r code policy

/-- The codes, sorted. -/
def codes (r : Registry) : List String :=
  KeyedMap.entries r |>.map Prod.fst

/-- The special attributes of a catalog. -/
def standard : Registry :=
  KeyedMap.ofList
    [("stock.is_in_stock", .boolean "stock.is_in_stock"),
      ("is_saleable", .boolean "stock.is_in_stock"),
      ("type_id", .terms "type_id"),
      ("price.is_discount",
        .perGroup "price" "price.customer_group_id" "price.is_discount" true),
      ("price.final_price",
        .perGroup "price" "price.customer_group_id" "price.final_price" false),
      ("created_at", .date "created_at"),
      ("search", .fulltext)]

end Registry

end Merchandising

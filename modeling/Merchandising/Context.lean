/-
  Whom a query is for.
-/
import Merchandising.Json.Record

namespace Merchandising

/-- The id of a store. -/
abbrev StoreId := UInt32

/-- The id of a group of customers. -/
abbrev GroupId := UInt32

/-- The store and the customer group that a query is for. -/
structure Context where
  store : StoreId
  group : GroupId
  deriving DecidableEq, Repr

/-- A store and a customer group in JSON. -/
def Context.ofJson? (j : Json) : Option Context := do
  let [store, group] ← j.slots? [.needed "store_id", .needed "customer_group_id"] | none
  return ⟨← Json.required? Json.word32? store, ← Json.required? Json.word32? group⟩

end Merchandising

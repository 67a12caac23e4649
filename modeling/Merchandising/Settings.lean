/-
  Settings of a resolver.

  Fields that are not set have the values of `Settings.standard`.  Whether a disabled category
  shows no products (`hidesDisabled`) may be set for each store.
-/
import Merchandising.Context
import Merchandising.Json.Record
import Merchandising.Text.Integer

namespace Merchandising

/-- The settings of a resolver. -/
structure Settings where
  /-- The first part of every cache key. -/
  function : String
  /-- The field with the ids of a product's categories. -/
  categoryField : String
  /-- The field with the id of a document. -/
  idField : String
  /-- How many queries the local tier keeps. -/
  capacity : Nat
  /-- Whether a disabled category shows no products; otherwise it is no restriction. -/
  hidesDisabled : Bool
  /-- The same for single stores, in the order of the stores. -/
  overrides : List (StoreId × Bool)
  /-- The tag of every stored query. -/
  tag : String

namespace Settings

/-- The settings if nothing else is said. -/
def standard : Settings where
  function := "category_search_query"
  categoryField := "category_ids"
  idField := "entity_id"
  capacity := 10000
  hidesDisabled := false
  overrides := []
  tag := "catalog_category"

/-- Whether a disabled category shows no products in a store. -/
def hidesDisabledIn (s : Settings) (store : StoreId) : Bool :=
  (s.overrides.lookup store).getD s.hidesDisabled

open Json (defaulted? text? bool? word64?)

/-- A store id as the name of a member: its digits, without a zero in front. -/
def storeOfName? (name : String) : Option StoreId := do
  let n ← Text.natural? name.toList
  if n < UInt32.size ∧ Nat.toDigits 10 n = name.toList then some (UInt32.ofNat n) else none

/-- The settings for single stores. -/
def overridesOfJson? : Json → Option (List (StoreId × Bool))
  | .record members => do
    let pairs ← members.mapM fun m => do return (← storeOfName? m.1, ← bool? m.2)
    return pairs.mergeSort fun a b => a.1 ≤ b.1
  | _ => none

/-- Settings in JSON. -/
def ofJson? (j : Json) : Option Settings := do
  let [function, categoryField, idField, capacity, hidesDisabled, overrides, tag] ← j.slots?
    [.omitted "cache_function_name", .omitted "category_field", .omitted "entity_id_field",
      .omitted "local_cache_max_entries", .omitted "zero_results_for_disabled_categories",
      .omitted "disabled_category_policy_by_store", .omitted "cache_tag_prefix"] | none
  return ⟨← defaulted? standard.function text? function,
    ← defaulted? standard.categoryField text? categoryField,
    ← defaulted? standard.idField text? idField,
    ← defaulted? standard.capacity (fun j => (word64? j).map UInt64.toNat) capacity,
    ← defaulted? standard.hidesDisabled bool? hidesDisabled,
    ← defaulted? standard.overrides overridesOfJson? overrides,
    ← defaulted? standard.tag text? tag⟩

end Settings

end Merchandising

/-
  Under which key a compiled query is kept.

  `CacheKey.text` joins the parts of a key with bars; the key in the shared tier is the first part
  and the digest of that text.
-/
import Merchandising.Catalog.Category
import Merchandising.Digest.Sha256

namespace Merchandising

/-- Everything that a compiled query depends on, besides the catalog. -/
structure CacheKey where
  function : String
  store : StoreId
  category : CategoryId
  group : GroupId
  /-- Whether disabled categories show no products. -/
  hidesDisabled : Bool
  deriving DecidableEq, Hashable, Repr

namespace CacheKey

/-- A number in decimal after a bar. -/
def part (n : Nat) : List Char := '|' :: Decimal.digits n

/-- The parts of a key, with bars between them. -/
def text (k : CacheKey) : String :=
  k.function ++ String.ofList (part k.store.toNat ++ part k.category.toNat ++ part k.group.toNat ++
    part k.hidesDisabled.toNat)

/-- The key in the shared tier. -/
def storageKey (k : CacheKey) : String :=
  k.function ++ ":" ++ Digest.sha256Hex k.text

end CacheKey

end Merchandising

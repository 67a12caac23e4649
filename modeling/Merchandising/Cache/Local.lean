/-
  The local tier: a bounded map that forgets the oldest entries first.

  * `entries` are the stored queries, `order` their keys, oldest first;
  * `get` finds an entry and counts hits and misses;
  * `insert` replaces an entry, which keeps its age, or makes room for a new one; a tier of
    capacity zero keeps nothing.
-/
import Std.Data.HashMap
import Merchandising.Cache.Key
import Merchandising.Query.Envelope

namespace Merchandising

/-- The local tier of the cache. -/
structure LocalCache where
  capacity : Nat
  entries : Std.HashMap CacheKey StoredQuery
  /-- The keys of the entries, oldest first. -/
  order : List CacheKey
  hits : Nat
  misses : Nat
  evictions : Nat

namespace LocalCache

/-- A tier without entries. -/
def empty (capacity : Nat) : LocalCache := ⟨capacity, ∅, [], 0, 0, 0⟩

/-- The number of entries. -/
def size (c : LocalCache) : Nat := c.entries.size

/-- What is kept under a key, and the tier after counting the look-up. -/
def get (c : LocalCache) (k : CacheKey) : Option StoredQuery × LocalCache :=
  match c.entries[k]? with
  | some e => (some e, { c with hits := c.hits + 1 })
  | none => (none, { c with misses := c.misses + 1 })

/-- The tier after the oldest entries are dropped until there is room, where `order` is what is
    left of the order. -/
def makeRoom (c : LocalCache) : List CacheKey → LocalCache
  | [] => { c with order := [] }
  | k :: r =>
    if c.entries.size < c.capacity then { c with order := k :: r }
    else if c.entries.contains k then
      makeRoom { c with entries := c.entries.erase k, evictions := c.evictions + 1 } r
    else makeRoom c r

/-- The tier with an entry. -/
def insert (c : LocalCache) (k : CacheKey) (e : StoredQuery) : LocalCache :=
  if c.capacity = 0 then c
  else if c.entries.contains k then { c with entries := c.entries.insert k e }
  else
    let room := c.makeRoom c.order
    { room with entries := room.entries.insert k e, order := room.order ++ [k] }

/-- The tier without entries; what was counted is kept. -/
def clear (c : LocalCache) : LocalCache := { c with entries := ∅, order := [] }

/-- The part of look-ups that found something; zero if there was none. -/
def hitRate (c : LocalCache) : Float :=
  if c.hits + c.misses = 0 then 0.0
  else Float.ofNat c.hits / Float.ofNat (c.hits + c.misses)

end LocalCache

end Merchandising

/-
  Several workers over one catalog and one shared tier.

  `Team.call` runs the work of one worker and says how it ended, what the team is like afterwards,
  and what happened meanwhile.  A change of the catalog reaches no cache by itself.
-/
import Merchandising.Resolver.Worker

namespace Merchandising

/-- Workers over one catalog and one shared tier. -/
structure Team where
  catalog : Catalog
  translator : Translator
  shared : SharedCache
  workers : List Worker

namespace Team

/-- Workers that have not worked yet, with empty tiers. -/
def start (catalog : Catalog) (translator : Translator) (settings : List Settings) : Team :=
  ⟨catalog, translator, .empty, settings.map Worker.ofSettings⟩

/-- The work of worker `i`, on the catalog and with the translator of the team: how it ended, the
    team afterwards, and what happened. -/
def call {α : Type} (t : Team) (i : Nat) (w : Worker)
    (work : Catalog → Translator → Work α) : Except Failure α × Team × List Event :=
  let (r, d) := (work t.catalog t.translator).run.run ⟨w, t.shared, []⟩
  (r, { t with shared := d.shared, workers := t.workers.set i d.worker }, d.events.reverse)

/-- The team with one more category in its catalog. -/
def insert (t : Team) (c : Category) : Team := { t with catalog := t.catalog.insert c }

/-- The team without a category. -/
def remove (t : Team) (store : StoreId) (id : CategoryId) : Team :=
  { t with catalog := t.catalog.remove store id }

end Team

end Merchandising

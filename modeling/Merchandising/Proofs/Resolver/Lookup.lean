/-
  What a worker finds in its caches, and what it keeps there.

  * `LocalCache.getElem?_insert_self`: an entry that was put in last is there, unless the tier keeps
    nothing;
  * `Worker.cached_local`: a fitting entry of the local tier is taken;
  * `Worker.cached_shared`: otherwise a fitting entry of the shared tier is taken, and kept in the
    local one;
  * `Worker.cached_compiled`: otherwise the category is compiled, and stored in both tiers if
    nothing but its own id was cut;
  * `Worker.outcome_query`: the query of a category is what is found so on the empty path.
-/
import Merchandising.Proofs.Resolver.Runs

namespace Merchandising

/-! ## The local tier -/

/-- An entry that was put in last is there. -/
theorem LocalCache.getElem?_insert_self {c : LocalCache} (hc : c.capacity ≠ 0) (k : CacheKey)
    (e : StoredQuery) : (c.insert k e).entries[k]? = some e := by
  unfold insert
  rw [if_neg hc]
  split
  · exact Std.HashMap.getElem?_insert_self
  · exact Std.HashMap.getElem?_insert_self

/-- The desk after a look-up in the local tier that found nothing. -/
def Desk.missLocal (d : Desk) : Desk :=
  { d with
    worker := { d.worker with cache := { d.worker.cache with misses := d.worker.cache.misses + 1 } }
    events := .miss .local :: d.events }

/-- The desk after a look-up in the shared tier that found nothing. -/
def Desk.missShared (d : Desk) (key : CacheKey) : Desk :=
  { d with events := .miss .shared :: .loaded key.storageKey false :: d.events }

namespace Worker

section
variable {key : CacheKey} {path : IdSet} {d : Desk}

theorem fromLocal_miss (h : d.worker.cache.entries[key]? = none) :
    (fromLocal key path).outcome d = (.ok none, d.missLocal) := by
  simp only [fromLocal, LocalCache.get, Work.outcome_bind, Work.outcome_get, h]
  rfl

theorem fromShared_miss (h : d.shared.load? key.storageKey = none) :
    (fromShared key path).outcome d = (.ok none, d.missShared key) := by
  simp only [fromShared, Work.outcome_bind, Work.outcome_get, Work.outcome_report, h]
  rfl

end

/-! ## Looking for a category -/

section
variable {settings : Settings} {ctx : Context} {c : Category} {id : CategoryId} {path : IdSet}
  {w : Work Compiled} {d : Desk} (hid : storedId? c = some id)
include hid

/-- A fitting entry of the local tier is taken. -/
theorem cached_local {e : StoredQuery}
    (hlocal : d.worker.cache.entries[keyOf settings ctx id]? = some e) (hfits : fits path e = true) :
    let o := (cached settings ctx c path w).outcome d
    o.1 = .ok (ofStored e) ∧ d.SameButLocal o.2 ∧
      o.2.worker.cache.entries = d.worker.cache.entries := by
  obtain ⟨hfound, hsame, hentries⟩ := fromLocal_spec (keyOf settings ctx id) path d
  rw [hlocal, Option.filter_some, if_pos hfits] at hfound
  simp only [cached, hid, Work.outcome_bind_ok (Prod.ext hfound rfl)]
  exact ⟨rfl, hsame, hentries⟩

variable (hlocal : d.worker.cache.entries[keyOf settings ctx id]? = none)
include hlocal

/-- A fitting entry of the shared tier is taken if the local tier has none, and kept there. -/
theorem cached_shared {e : StoredQuery}
    (hshared : sharedQuery? d.shared (keyOf settings ctx id) = some e) (hfits : fits path e = true)
    (hcapacity : d.worker.cache.capacity ≠ 0) :
    let o := (cached settings ctx c path w).outcome d
    o.1 = .ok (ofStored e) ∧ d.SameButLocal o.2 ∧
      o.2.worker.cache.entries[keyOf settings ctx id]? = some e := by
  obtain ⟨hfound, hsame, hcache⟩ := fromShared_spec (keyOf settings ctx id) path d.missLocal
  have hshared : sharedQuery? d.missLocal.shared (keyOf settings ctx id) = some e := hshared
  rw [hshared, Option.filter_some, if_pos hfits] at hfound hcache
  simp only [cached, hid, Work.outcome_bind_ok (fromLocal_miss hlocal),
    Work.outcome_bind_ok (Prod.ext hfound rfl)]
  refine ⟨rfl, ⟨hsame.settings, hsame.roots, hsame.shared⟩, ?_⟩
  have hentry := LocalCache.getElem?_insert_self (c := d.missLocal.worker.cache) hcapacity
    (keyOf settings ctx id) e
  exact (congrArg (fun cache => cache.entries[keyOf settings ctx id]?) hcache).trans hentry

/-- A category with no entry in either tier is compiled, and stored if nothing else was cut. -/
theorem cached_compiled {r : Compiled} {d' : Desk}
    (hshared : d.shared.load? (keyOf settings ctx id).storageKey = none)
    (hcompile : w.outcome (d.missLocal.missShared (keyOf settings ctx id)) = (.ok r, d'))
    (hpath : id ∉ path) (hcut : (r.cut.erase id).isEmpty = true) :
    let o := (cached settings ctx c path w).outcome d
    let kept : Compiled := { r with cut := r.cut.erase id }
    o.1 = .ok kept ∧ o.2.worker.settings = d'.worker.settings ∧
      o.2.worker.roots = d'.worker.roots ∧
      o.2.shared = d'.shared.save (keyOf settings ctx id).storageKey (toStored kept).encode
        (tags d'.worker.settings id) ∧
      o.2.worker.cache = d'.worker.cache.insert (keyOf settings ctx id) (toStored kept) := by
  intro o kept
  obtain ⟨hok, hsettings, hroots, hstore⟩ := store_spec (keyOf settings ctx id) kept d'
  rw [if_pos hcut] at hstore
  have ho : o = (.ok kept, ((store (keyOf settings ctx id) kept).outcome d').2) := by
    have hmiss : (fromShared (keyOf settings ctx id) path).outcome d.missLocal =
        (.ok none, d.missLocal.missShared (keyOf settings ctx id)) := fromShared_miss hshared
    simp only [o, cached, hid, Work.outcome_bind_ok (fromLocal_miss hlocal),
      Work.outcome_bind_ok hmiss, Work.outcome_bind_ok hcompile, if_neg hpath]
    exact Work.outcome_bind_ok (Prod.ext hok rfl) _
  rw [ho]
  exact ⟨rfl, hsettings, hroots, hstore.1, hstore.2⟩

end

/-! ## The query of a category -/

/-- The query of a category is what is found or compiled on the empty path. -/
theorem outcome_query {settings : Settings} (catalog : Catalog) (translator : Translator)
    (ctx : Context) (c : Category) {d : Desk} (hsettings : d.worker.settings = settings) :
    let o := (cached settings ctx c ∅ ((compiler settings catalog translator ctx
      (resolveWithin settings catalog translator ctx tooDeep
        (catalog.size + d.worker.roots.length + 1))).compile c ∅)).outcome d
    let answer := ((Request.query ctx c).work catalog translator).outcome d
    answer.1 = o.1.map (fun r => .query r.query) ∧ answer.2.worker = o.2.worker ∧
      answer.2.shared = o.2.shared := by
  intro o answer
  subst hsettings
  have hresolve : (resolveOr catalog translator ctx tooDeep c ∅).outcome d = o := by
    rw [resolveOr, Work.outcome_bind_ok (Work.outcome_get d)]
    rfl
  simp only [answer, Request.work, query, queryOr, Work.outcome_bind, Work.outcome_timed, hresolve]
  clear_value o
  obtain ⟨r, d'⟩ := o
  cases r <;> exact ⟨rfl, rfl, rfl⟩

end Worker

end Merchandising

/-
  Workers: compiling with two tiers of caches.

  * `Worker` is what a worker keeps for itself, its settings, the local tier and the virtual roots
    it has looked up; `Desk` is a worker at work, with the shared tier and what happened so far;
  * `Worker.resolve` looks for a compiled query in the local tier, then in the shared one, and
    compiles it last.  A stored query is taken only if it consulted no id on the path, and a
    compiled one is stored only if nothing but the category itself was cut, so that every stored
    query is complete;
  * `Worker.query`, `build`, `merge`, `virtualRoot` and `invalidate` are the calls on a worker.

  References stand no deeper inside each other than `Worker.depthFor` allows, so that it does not
  matter what `resolveOr` and the others do beyond that; the calls fail there.

  A draft, or a category without an id, is never looked for and never stored.
-/
import Merchandising.Cache.Local
import Merchandising.Cache.Shared
import Merchandising.Resolver.Compiler

namespace Merchandising

/-- What a worker keeps for itself. -/
structure Worker where
  settings : Settings
  cache : LocalCache
  /-- The virtual roots that were looked up, by id and store; nothing for one that is of no use. -/
  roots : List ((CategoryId × StoreId) × Option Category)

/-- A worker that has not worked yet. -/
def Worker.ofSettings (settings : Settings) : Worker :=
  ⟨settings, .empty settings.capacity, []⟩

/-- A worker at work. -/
structure Desk where
  worker : Worker
  shared : SharedCache
  /-- What happened, the latest first. -/
  events : List Event

/-- Work that changes the desk and may fail; what was done before a failure stays done. -/
abbrev Work := ExceptT Failure (StateM Desk)

namespace Work

/-- Something happened. -/
def report (e : Event) : Work Unit :=
  modify fun d => { d with events := e :: d.events }

/-- The local tier changes. -/
def setCache (cache : LocalCache) : Work Unit :=
  modify fun d => { d with worker := { d.worker with cache } }

/-- An entry goes into the local tier. -/
def storeLocally (key : CacheKey) (e : StoredQuery) : Work Unit := do
  let cache := (← get).worker.cache.insert key e
  setCache cache
  report (.localSize cache.size)

/-- Work that is reported when it ends, well or not. -/
def timed {α : Type} (operation : Operation) (work : Work α) : Work α :=
  ExceptT.mk do
    let r ← work.run
    modify fun d => { d with events := .finished operation :: d.events }
    return r

end Work

namespace Worker

/-! ## Virtual roots -/

/-- The virtual root of a category, looked up once for each id and store. -/
def virtualRoot (catalog : Catalog) (store : StoreId) (c : Category) : Work (Option Category) := do
  match c.virtualRoot with
  | none => return none
  | some id =>
    if c.storeRoot? = some id then
      Work.report .rootIsStoreRoot
      return none
    else match (← get).worker.roots.lookup (id, store) with
      | some root => return root
      | none =>
        let root := catalog.root? store id
        if root.isNone then Work.report .rootUnusable
        modify fun d =>
          { d with worker := { d.worker with roots := ((id, store), root) :: d.worker.roots } }
        return root

/-! ## Looking for stored queries -/

/-- A stored query as an outcome: nothing was cut. -/
def ofStored (e : StoredQuery) : Compiled := ⟨e.fragment, e.consulted, ∅⟩

/-- What is stored for a compiled query. -/
def toStored (r : Compiled) : StoredQuery := ⟨r.query, r.consulted⟩

/-- Whether a stored query may be taken on a path. -/
def fits (path : IdSet) (e : StoredQuery) : Bool := !path.meets e.consulted.ids

/-- The entry of the local tier, if it fits the path. -/
def fromLocal (key : CacheKey) (path : IdSet) : Work (Option StoredQuery) := do
  let (found, cache) := (← get).worker.cache.get key
  Work.setCache cache
  match found with
  | none => do
    Work.report (.miss .local)
    return none
  | some e =>
    if fits path e then
      Work.report (.hit .local)
      return some e
    else
      Work.report (.overlap .local)
      return none

/-- The entry of the shared tier, if it fits the path; it is kept in the local tier as well. -/
def fromShared (key : CacheKey) (path : IdSet) : Work (Option StoredQuery) := do
  let found := (← get).shared.load? key.storageKey
  Work.report (.loaded key.storageKey found.isSome)
  match found.map StoredQuery.decode with
  | none => do
    Work.report (.miss .shared)
    return none
  | some (.error _) => do
    Work.report .undecodable
    return none
  | some (.ok e) =>
    if fits path e then
      Work.report (.hit .shared)
      Work.storeLocally key e
      return some e
    else
      Work.report (.overlap .shared)
      return none

/-! ## Storing compiled queries -/

/-- The tags of the stored query of a category. -/
def tags (settings : Settings) (id : CategoryId) : List String :=
  [settings.tag, settings.tag ++ "_" ++ idText id]

/-- A compiled query goes into both tiers, if nothing was cut. -/
def store (key : CacheKey) (r : Compiled) : Work Unit := do
  if r.cut.isEmpty then
    let e := toStored r
    let text := e.encode
    let tags := tags (← get).worker.settings key.category
    modify fun d => { d with shared := d.shared.save key.storageKey text tags }
    Work.report (.saved key.storageKey text tags)
    Work.storeLocally key e
  else Work.report .notStored

/-! ## Compiling -/

/-- How a worker compiles a category, with a way to compile others. -/
def compiler (settings : Settings) (catalog : Catalog) (translator : Translator) (ctx : Context)
    (resolve : Category → IdSet → Work Compiled) : Compiler Work where
  settings
  catalog
  translator
  ctx
  root := virtualRoot catalog ctx.store
  resolve
  report := Work.report

/-- The key of a compiled query. -/
def keyOf (settings : Settings) (ctx : Context) (id : CategoryId) : CacheKey :=
  ⟨settings.function, ctx.store, id, ctx.group, settings.hidesDisabledIn ctx.store⟩

/-- The id under which a category is stored. -/
def storedId? (c : Category) : Option CategoryId :=
  if c.isDraft then none else c.id

/-- A category, taken from the caches or compiled by `compile`. -/
def cached (settings : Settings) (ctx : Context) (c : Category) (path : IdSet)
    (compile : Work Compiled) : Work Compiled := do
  match storedId? c with
  | none => compile
  | some id =>
    let key := keyOf settings ctx id
    match ← fromLocal key path with
    | some e => return ofStored e
    | none =>
      match ← fromShared key path with
      | some e => return ofStored e
      | none =>
        let r ← compile
        let r := if id ∈ path then r else { r with cut := r.cut.erase id }
        store key r
        return r

/-- A reference that stands too deep is a failure. -/
def tooDeep (_ : Category) (_ : IdSet) : Work Compiled := throw .tooDeep

/-- A category, resolved with at most `depth` references inside each other; what lies beyond that
    is resolved by `beyond`. -/
def resolveWithin (settings : Settings) (catalog : Catalog) (translator : Translator)
    (ctx : Context) (beyond : Category → IdSet → Work Compiled) :
    Nat → Category → IdSet → Work Compiled
  | 0, c, path => beyond c path
  | depth + 1, c, path =>
    cached settings ctx c path
      ((compiler settings catalog translator ctx
        (resolveWithin settings catalog translator ctx beyond depth)).compile c path)

/-- How many references may stand inside each other: one for each category that can be referred to,
    and two more. -/
def depthFor (catalog : Catalog) (w : Worker) : Nat :=
  catalog.size + w.roots.length + 2

/-! ## Calls, with what to do beyond that depth -/

section
variable (catalog : Catalog) (translator : Translator) (ctx : Context)
  (beyond : Category → IdSet → Work Compiled)

/-- A category, resolved. -/
def resolveOr (c : Category) (path : IdSet) : Work Compiled := do
  let w := (← get).worker
  resolveWithin w.settings catalog translator ctx beyond (w.depthFor catalog) c path

/-- The query of a category, compiled on a path without looking for a stored one of its own. -/
def buildOr (c : Category) (path : IdSet) : Work (Option Fragment) := do
  let w := (← get).worker
  let r ← (compiler w.settings catalog translator ctx
    (resolveWithin w.settings catalog translator ctx beyond (w.depthFor catalog))).compile c path
  return r.query

/-- The query that restricts a search to a category; nothing for "no restriction". -/
def queryOr (c : Category) : Work (Option Fragment) :=
  Work.timed .resolve do return (← resolveOr catalog translator ctx beyond c ∅).query

/-- The query that restricts a search to all of some categories. -/
def mergeOr (cs : List Category) : Work Fragment :=
  Work.timed .merge do
    let rs ← cs.mapM fun c => resolveOr catalog translator ctx beyond c ∅
    return .all (rs.filterMap Compiled.query)

end

/-! ## Calls -/

section
variable (catalog : Catalog) (translator : Translator) (ctx : Context)

/-- A category, resolved. -/
def resolve : Category → IdSet → Work Compiled := resolveOr catalog translator ctx tooDeep

/-- The query of a category, compiled on a path without looking for a stored one of its own. -/
def build : Category → IdSet → Work (Option Fragment) := buildOr catalog translator ctx tooDeep

/-- The query that restricts a search to a category; nothing for "no restriction". -/
def query : Category → Work (Option Fragment) := queryOr catalog translator ctx tooDeep

/-- The query that restricts a search to all of some categories. -/
def merge : List Category → Work Fragment := mergeOr catalog translator ctx tooDeep

end

/-- Every compiled query is forgotten in both tiers, and every virtual root; the number of texts
    that are dropped from the shared tier. -/
def invalidate : Work Nat := do
  let d ← get
  let tags := [d.worker.settings.tag]
  let (shared, dropped) := d.shared.invalidate tags
  set { d with shared, worker := { d.worker with cache := d.worker.cache.clear, roots := [] } }
  Work.report (.dropped tags)
  Work.report .invalidated
  return dropped

end Worker

end Merchandising

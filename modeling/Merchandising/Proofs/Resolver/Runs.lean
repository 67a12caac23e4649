/-
  Runs of several workers, and their answers without caches.

  * a `Request` is a call on a worker that ends in an `Answer`; `Request.anew` is its answer without
    caches;
  * a `Step` of a run is a request to one worker, an invalidation by one, or a change of the catalog;
    `Team.run` are the answers of a run, and `answersAnew` those without caches;
  * `Edition` is what a run may do at a point: which workers may still hold what was compiled from
    an earlier catalog, and which categories were passed since the last change;
    `Edition.AllowsAll` is a run that calls no worker before all have invalidated, and passes no two
    categories with one id;
  * `Epoch.sim_request`: on a sound desk a request is answered as it is without caches.
-/
import Merchandising.Proofs.Cache.Key
import Merchandising.Proofs.Catalog.Alike
import Merchandising.Proofs.Resolver.Simulation
import Merchandising.Resolver.Team

namespace Merchandising

open Worker (keyOf storedId?)

/-! ## Requests -/

/-- A call on a worker that ends in an answer. -/
inductive Request where
  /-- The query that restricts a search to a category. -/
  | query (ctx : Context) (c : Category)
  /-- The same on a path. -/
  | resolve (ctx : Context) (c : Category) (path : IdSet)
  /-- The same without looking for a stored query of the category itself. -/
  | build (ctx : Context) (c : Category) (path : IdSet)
  /-- The query that restricts a search to all of some categories. -/
  | merge (ctx : Context) (cs : List Category)
  /-- The virtual root of a category. -/
  | virtualRoot (store : StoreId) (c : Category)

/-- The answer to a request. -/
inductive Answer where
  | query (q : Option Fragment)
  | merged (f : Fragment)
  | root (r : Option Category)

namespace Request

/-- What a worker does. -/
def work (catalog : Catalog) (translator : Translator) : Request → Work Answer
  | query ctx c => do return .query (← Worker.query catalog translator ctx c)
  | resolve ctx c path => do return .query (← Worker.resolve catalog translator ctx c path).query
  | build ctx c path => do return .query (← Worker.build catalog translator ctx c path)
  | merge ctx cs => do return .merged (← Worker.merge catalog translator ctx cs)
  | virtualRoot store c => do return .root (← Worker.virtualRoot catalog store c)

/-- The answer without caches. -/
def anew (settings : Settings) (catalog : Catalog) (translator : Translator) :
    Request → Except Failure Answer
  | query ctx c => do return .query (← Fresh.compile settings catalog translator ctx c ∅).query
  | resolve ctx c path => do
    return .query (← Fresh.compile settings catalog translator ctx c path).query
  | build ctx c path => do
    return .query (← Fresh.compile settings catalog translator ctx c path).query
  | merge ctx cs => do
    let rs ← cs.mapM fun c => Fresh.compile settings catalog translator ctx c ∅
    return .merged (.all (rs.filterMap Compiled.query))
  | virtualRoot store c => return .root (Fresh.root? catalog store c)

/-- For whom it compiles queries. -/
def contexts : Request → List Context
  | query ctx _ | resolve ctx _ _ | build ctx _ _ | merge ctx _ => [ctx]
  | virtualRoot _ _ => []

/-- The categories that are passed. -/
def categories : Request → List Category
  | query _ c | resolve _ c _ | build _ c _ | virtualRoot _ c => [c]
  | merge _ cs => cs

/-- Of some categories those that are stored, with their store. -/
def storedOf (store : StoreId) (cs : List Category) : List (StoreId × Category) :=
  (cs.filter fun c => (storedId? c).isSome).map fun c => (store, c)

/-- The categories that are looked for in the caches, with their stores. -/
def lookups : Request → List (StoreId × Category)
  | query ctx c | resolve ctx c _ => storedOf ctx.store [c]
  | merge ctx cs => storedOf ctx.store cs
  | build _ _ _ | virtualRoot _ _ => []

theorem mem_storedOf {store : StoreId} {cs : List Category} {p : StoreId × Category} :
    p ∈ storedOf store cs ↔ p.1 = store ∧ p.2 ∈ cs ∧ (storedId? p.2).isSome := by
  obtain ⟨store', c⟩ := p
  simp only [storedOf, List.mem_map, List.mem_filter, Prod.mk.injEq]
  exact ⟨fun ⟨_, hc, hs, h⟩ => ⟨hs.symm, h ▸ hc⟩, fun ⟨hs, hc⟩ => ⟨c, hc, hs.symm, rfl⟩⟩

/-- What is looked for was passed, and is stored. -/
theorem of_mem_lookups {r : Request} {p : StoreId × Category} (h : p ∈ r.lookups) :
    p.2 ∈ r.categories ∧ (storedId? p.2).isSome := by
  cases r with
  | query ctx c => exact (mem_storedOf.1 h).2
  | resolve ctx c path => exact (mem_storedOf.1 h).2
  | merge ctx cs => exact (mem_storedOf.1 h).2
  | build ctx c path => nomatch h
  | virtualRoot store c => nomatch h

/-- What is looked for in the caches is saved. -/
def Saved (r : Request) (catalog : Catalog) : Prop :=
  ∀ p ∈ r.lookups, p.2 ∈ catalog.entries ∧ p.2.store = p.1

end Request

/-- **A request is answered as it is without caches.** -/
theorem Epoch.sim_request {E : Epoch} {r : Request} (hctx : ∀ ctx ∈ r.contexts, E.contexts ctx)
    (hstores : ∀ store c, r = .virtualRoot store c → E.stores store)
    (hknown : ∀ p ∈ r.lookups, E.known p.1 p.2) :
    E.simulates.rel Eq (r.work E.catalog E.translator)
      (r.anew E.settings E.catalog E.translator) := by
  cases r with
  | query ctx c =>
    have hc := fun h => hknown (ctx.store, c) (Request.mem_storedOf.2 ⟨rfl, by simp, h⟩)
    refine E.simulates.bind (Epoch.sim_query (hctx ctx (by simp [Request.contexts])) hc) ?_
    rintro q r rfl
    exact E.simulates.pure rfl
  | resolve ctx c path =>
    have hc := fun h => hknown (ctx.store, c) (Request.mem_storedOf.2 ⟨rfl, by simp, h⟩)
    refine E.simulates.bind (Epoch.sim_resolve (hctx ctx (by simp [Request.contexts])) hc) ?_
    intro a r h
    rw [h.1]
    exact E.simulates.pure rfl
  | build ctx c path =>
    refine E.simulates.bind (Epoch.sim_build (hctx ctx (by simp [Request.contexts]))) ?_
    rintro q r rfl
    exact E.simulates.pure rfl
  | merge ctx cs =>
    have hcs := fun c hc h => hknown (ctx.store, c) (Request.mem_storedOf.2 ⟨rfl, hc, h⟩)
    refine E.simulates.bind (Epoch.sim_merge (hctx ctx (by simp [Request.contexts])) hcs) ?_
    rintro f rs rfl
    exact E.simulates.pure rfl
  | virtualRoot store c =>
    refine E.simulates.bind (g := fun r => pure (Answer.root r)) 
      (Epoch.sim_virtualRoot (hstores store c rfl) c) ?_
    rintro a b ⟨rfl, -⟩
    exact E.simulates.pure rfl

/-! ## Runs -/

/-- A step of a run. -/
inductive Step where
  /-- A worker answers a request. -/
  | call (worker : Nat) (request : Request)
  /-- A worker invalidates. -/
  | invalidate (worker : Nat)
  /-- A category is saved. -/
  | insert (c : Category)
  /-- A category is removed. -/
  | remove (store : StoreId) (id : CategoryId)

namespace Step

/-- The catalog after a step. -/
def catalog (catalog : Catalog) : Step → Catalog
  | call _ _ | invalidate _ => catalog
  | insert c => catalog.insert c
  | remove store id => catalog.remove store id

/-- The answer without caches, to a step that has one. -/
def anew (settings : Settings) (translator : Translator) (catalog : Catalog) :
    Step → Option (Except Failure Answer)
  | call _ r => some (r.anew settings catalog translator)
  | _ => none

/-- For whom queries are compiled. -/
def contexts : Step → List Context
  | call _ r => r.contexts
  | _ => []

/-- The categories that are passed or saved. -/
def categories : Step → List Category
  | call _ r => r.categories
  | insert c => [c]
  | _ => []

/-- What is saved after a step was saved before it, or is saved by it. -/
theorem mem_catalog {catalog : Catalog} {s : Step} {c : Category}
    (h : c ∈ (s.catalog catalog).entries) : c ∈ catalog.entries ∨ c ∈ s.categories := by
  cases s with
  | call _ _ | invalidate _ => exact Or.inl h
  | insert d =>
    rcases Catalog.mem_insert h with rfl | h
    · exact Or.inr (by simp [categories])
    · exact Or.inl h
  | remove store id => exact Or.inl (List.mem_filter.1 h).1

end Step

/-- The answers of a run without caches, each from the catalog of its time. -/
def answersAnew (settings : Settings) (translator : Translator) :
    Catalog → List Step → List (Except Failure Answer)
  | _, [] => []
  | catalog, s :: rest =>
    (s.anew settings translator catalog).toList ++
      answersAnew settings translator (s.catalog catalog) rest

namespace Team

/-- The answer to a step that has one, and the team after the step; no worker, no step. -/
def step (t : Team) : Step → Option (Except Failure Answer) × Team
  | .call i r =>
    match t.workers[i]? with
    | none => (none, t)
    | some w =>
      let (answer, t', _) := t.call i w fun catalog translator => r.work catalog translator
      (some answer, t')
  | .invalidate i =>
    match t.workers[i]? with
    | none => (none, t)
    | some w =>
      let (_, t', _) := t.call i w fun _ _ => Worker.invalidate
      (none, t')
  | .insert c => (none, t.insert c)
  | .remove store id => (none, t.remove store id)

theorem step_call {t : Team} {i : Nat} {w : Worker} (hw : t.workers[i]? = some w) (r : Request) :
    let o := (r.work t.catalog t.translator).outcome ⟨w, t.shared, []⟩
    t.step (.call i r) =
      (some o.1, { t with shared := o.2.shared, workers := t.workers.set i o.2.worker }) := by
  simp only [step, hw]
  rfl

theorem step_invalidate {t : Team} {i : Nat} {w : Worker} (hw : t.workers[i]? = some w) :
    let o := Worker.invalidate.outcome ⟨w, t.shared, []⟩
    t.step (.invalidate i) =
      (none, { t with shared := o.2.shared, workers := t.workers.set i o.2.worker }) := by
  simp only [step, hw]
  rfl

/-- Nothing is done without the worker. -/
theorem step_of_none {t : Team} {i : Nat} (hw : t.workers[i]? = none) {s : Step}
    (hs : s = .invalidate i ∨ ∃ r, s = .call i r) : t.step s = (none, t) := by
  rcases hs with rfl | ⟨r, rfl⟩
  · simp only [step, hw]
  · simp only [step, hw]

/-- The answers of a run. -/
def run (t : Team) : List Step → List (Except Failure Answer)
  | [] => []
  | s :: rest => (t.step s).1.toList ++ (t.step s).2.run rest

end Team

/-! ## What a run may do -/

/-- What matters at a point of a run for what may come next. -/
structure Edition where
  /-- The number of workers. -/
  workers : Nat
  catalog : Catalog
  /-- The workers that have not invalidated since the last change of the catalog. -/
  stale : List Nat
  /-- The categories that were looked for since then, with their stores. -/
  passed : List (StoreId × Category)

namespace Edition

/-- The start of a run. -/
def start (workers : Nat) (catalog : Catalog) : Edition := ⟨workers, catalog, [], []⟩

/-- The edition after a step. -/
def after (e : Edition) : Step → Edition
  | .call _ r => { e with passed := e.passed ++ r.lookups }
  | .invalidate i => { e with stale := e.stale.filter (· ≠ i) }
  | .insert c => ⟨e.workers, e.catalog.insert c, List.range e.workers, []⟩
  | .remove store id => ⟨e.workers, e.catalog.remove store id, List.range e.workers, []⟩

theorem catalog_after (e : Edition) (s : Step) : (e.after s).catalog = s.catalog e.catalog := by
  cases s <;> rfl

/-- Between two changes only one category is looked for under an id of a store, the saved one if there
    is one. -/
structure Coherent (e : Edition) : Prop where
  saved : ∀ p ∈ e.passed, ∀ c ∈ e.catalog.entries, (storedId? c).isSome → c.store = p.1 →
    c.id = p.2.id → c = p.2
  once : ∀ p ∈ e.passed, ∀ q ∈ e.passed, p.1 = q.1 → p.2.id = q.2.id → p.2 = q.2

/-- Saved categories agree. -/
theorem Coherent.of_saved {e : Edition}
    (h : ∀ p ∈ e.passed, p.2 ∈ e.catalog.entries ∧ p.2.store = p.1) : e.Coherent where
  saved p hp _ hc _ hstore hid := Catalog.eq_of_key hc (h p hp).1 (hstore.trans (h p hp).2.symm) hid
  once p hp q hq hstore hid :=
    Catalog.eq_of_key (h p hp).1 (h q hq).1 ((h p hp).2.trans (hstore.trans (h q hq).2.symm)) hid

/-- A worker is called only after all have invalidated. -/
def Allows (e : Edition) : Step → Prop
  | .call i r => i < e.workers ∧ e.stale = [] ∧ (e.after (.call i r)).Coherent
  | _ => True

/-- Every step of a run is allowed. -/
def AllowsAll (e : Edition) : List Step → Prop
  | [] => True
  | s :: rest => e.Allows s ∧ (e.after s).AllowsAll rest

end Edition

end Merchandising

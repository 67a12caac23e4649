/-
  What a worker makes of its path.

  * `Worker.Backed` is a desk on which every entry of the local tier has a text in the shared one, and
    `Worker.Frame.backed` says that a worker keeps it so, whatever it is asked for;
  * `Worker.stored_resolve`: what was compiled is stored iff none of the consulted ids is on the path;
  * `Worker.kept_query`: what was asked for on the empty path is kept, and found when it is asked for
    again;
  * `Team.Solo` is a team of one worker, which has the tiers for itself; `Team.Solo.step` and
    `Team.Solo.after`: it stays so as long as no preview is saved;
  * `Team.bookkeeping_exact` puts these together.
-/
import Merchandising.Proofs.Resolver.Cuts
import Merchandising.Proofs.Resolver.Invalidation

namespace Merchandising

open Work (Keeps)
open Compiled (CutsExactly)

/-- The desk after a look-up in the local tier that found a fitting entry. -/
def Desk.hitLocal (d : Desk) : Desk :=
  { d with
    worker := { d.worker with cache := { d.worker.cache with hits := d.worker.cache.hits + 1 } }
    events := .hit .local :: d.events }

/-- The desk after a query. -/
def Desk.finish (d : Desk) : Desk := { d with events := .finished .resolve :: d.events }

namespace Worker

/-! ## One worker -/

/-- Every entry of the local tier has a text in the shared one, and all virtual roots are stored
    under their ids. -/
structure Backed (settings : Settings) (d : Desk) : Prop where
  configured : d.worker.settings = settings
  bounded : d.worker.cache.capacity = settings.capacity
  backed : ∀ (k : CacheKey) e, d.worker.cache.entries[k]? = some e →
    (d.shared.load? k.storageKey).isSome
  roots : RootsWithin Settled d

/-- The local tier after it was searched. -/
theorem fromLocal_cache (key : CacheKey) (path : IdSet) (d : Desk) :
    ((fromLocal key path).outcome d).2.worker.cache = (d.worker.cache.get key).2 := by
  unfold fromLocal LocalCache.get
  cases hf : d.worker.cache.entries[key]? with
  | none =>
    simp only [Work.outcome_bind, Work.outcome_get, hf]
    rfl
  | some e =>
    by_cases hfit : fits path e
    · simp only [Work.outcome_bind, Work.outcome_get, hf, hfit, ↓reduceIte]
      rfl
    · simp only [Work.outcome_bind, Work.outcome_get, hf, hfit]
      rfl

/-- Nothing is found in an empty tier. -/
theorem sharedQuery?_empty (key : CacheKey) : sharedQuery? .empty key = none := by
  have hload : SharedCache.empty.load? key.storageKey = none := Std.HashMap.getElem?_empty
  rw [sharedQuery?, hload]

theorem load?_of_sharedQuery? {shared : SharedCache} {key : CacheKey} {e : StoredQuery}
    (h : sharedQuery? shared key = some e) : (shared.load? key.storageKey).isSome := by
  unfold sharedQuery? at h
  split at h
  · nomatch h
  · simp [*]

section
variable {settings : Settings} {catalog : Catalog} {key : CacheKey} {d : Desk}

/-- Where the local tier is empty there is nothing to be backed. -/
theorem Backed.of_empty (hsettings : d.worker.settings = settings)
    (hcapacity : d.worker.cache.capacity = settings.capacity)
    (hlocal : d.worker.cache.entries = ∅) (hroots : d.worker.roots = []) : Backed settings d where
  configured := hsettings
  bounded := hcapacity
  backed := by simp [hlocal]
  roots := by simp [RootsWithin, hroots]

theorem Backed.fromLocal (hd : Backed settings d) (path : IdSet) :
    Backed settings ((fromLocal key path).outcome d).2 := by
  obtain ⟨-, hsame, hentries⟩ := fromLocal_spec key path d
  refine ⟨hsame.settings.trans hd.configured, ?_, ?_, hd.roots.of_eq hsame.roots⟩
  · rw [fromLocal_cache, LocalCache.capacity_get, hd.bounded]
  · rw [hentries, hsame.shared]
    exact hd.backed

theorem Backed.fromShared (hd : Backed settings d) (path : IdSet) :
    Backed settings ((fromShared key path).outcome d).2 := by
  obtain ⟨-, hsame, hcache⟩ := fromShared_spec key path d
  refine ⟨hsame.settings.trans hd.configured, ?_, ?_, hd.roots.of_eq hsame.roots⟩
  · rw [hcache]
    split
    · exact hd.bounded
    · rw [LocalCache.capacity_insert, hd.bounded]
  · rw [hcache, hsame.shared]
    split
    · exact hd.backed
    · rename_i e he
      intro k e' hk
      rcases LocalCache.of_insert hk with ⟨rfl, -⟩ | hk
      · exact load?_of_sharedQuery? (Option.filter_eq_some_iff.1 he).1
      · exact hd.backed k e' hk

theorem Backed.store (hd : Backed settings d) (r : Compiled) :
    Backed settings ((store key r).outcome d).2 := by
  obtain ⟨-, hsettings, hroots, hstore⟩ := store_spec key r d
  split at hstore
  · obtain ⟨hshared, hcache⟩ := hstore
    refine ⟨hsettings.trans hd.configured, ?_, ?_, hd.roots.of_eq hroots⟩
    · rw [hcache, LocalCache.capacity_insert, hd.bounded]
    · intro k e hk
      rw [hcache] at hk
      rw [hshared, SharedCache.load?_save]
      split
      · rfl
      · rcases LocalCache.of_insert hk with ⟨rfl, -⟩ | hk
        · contradiction
        · exact hd.backed k e hk
  · obtain ⟨hshared, hcache⟩ := hstore
    refine ⟨hsettings.trans hd.configured, hcache ▸ hd.bounded, ?_, hd.roots.of_eq hroots⟩
    rw [hcache, hshared]
    exact hd.backed

theorem Backed.virtualRoot (hcatalog : ∀ c ∈ catalog.entries, Settled c) (hd : Backed settings d)
    (store : StoreId) (c : Category) :
    Backed settings ((virtualRoot catalog store c).outcome d).2 := by
  obtain ⟨hsettings, hcache, hshared, -⟩ := virtualRoot_leaves catalog store c d
  refine ⟨hsettings.trans hd.configured, hcache ▸ hd.bounded, ?_,
    hd.roots.virtualRoot hcatalog store c⟩
  rw [hcache, hshared]
  exact hd.backed

/-- A worker that has the shared tier for itself keeps a text there for every entry. -/
theorem Frame.backed (hcatalog : ∀ c ∈ catalog.entries, Settled c) (settings : Settings)
    (ctx : Context) : Frame (Backed settings) (fun _ => True) settings catalog ctx where
  configured _ hd := hd.configured
  saved _ _ := trivial
  report _ _ hd := ⟨hd.configured, hd.bounded, hd.backed, hd.roots⟩
  root c _ hd := hd.virtualRoot hcatalog ctx.store c
  rooted _ _ _ _ _ := trivial
  fromLocal _ _ path _ _ _ hd := hd.fromLocal path
  fromShared _ _ path _ _ _ hd := hd.fromShared path
  store _ _ r _ _ _ hd := hd.store r

end

/-- An invalidation leaves nothing that would have to be backed. -/
theorem Backed.invalidate {settings : Settings} {d : Desk} (hd : Backed settings d) :
    Backed settings (invalidate.outcome d).2 :=
  .of_empty hd.configured hd.bounded rfl rfl

/-! ## What is stored -/

/-- What a worker does about a category that it found in no tier. -/
def recompile (w : Worker) (catalog : Catalog) (translator : Translator) (ctx : Context)
    (c : Category) (path : IdSet) : Work Compiled :=
  (compiler w.settings catalog translator ctx
    (resolveWithin w.settings catalog translator ctx tooDeep
      (catalog.size + w.roots.length + 1))).compile c path

section
variable {catalog : Catalog} {translator : Translator} {ctx : Context} {c : Category}
  {id : CategoryId} {path : IdSet} {d d' : Desk} {r : Compiled}

/-- Resolving a category is looking for it, and compiling it last. -/
theorem outcome_resolve (catalog : Catalog) (translator : Translator) (ctx : Context) (c : Category)
    (path : IdSet) (d : Desk) :
    (resolve catalog translator ctx c path).outcome d =
      (cached d.worker.settings ctx c path (d.worker.recompile catalog translator ctx c path)).outcome
        d := by
  rw [resolve, resolveOr, Work.outcome_bind_ok (Work.outcome_get d)]
  rfl

/-- What the tiers are like after a compiled query was given to them, or not. -/
theorem store_cut {path : IdSet} (hcuts : CutsExactly path r) (key : CacheKey) (d : Desk) :
    let d' := ((store key r).outcome d).2
    ((∀ id ∈ r.consulted, id ∉ path) →
      d'.shared = d.shared.save key.storageKey (toStored r).encode
        (tags d.worker.settings key.category) ∧
      d'.worker.cache = d.worker.cache.insert key (toStored r)) ∧
    ((∃ id ∈ r.consulted, id ∈ path) →
      d'.shared = d.shared ∧ d'.worker.cache = d.worker.cache) := by
  obtain ⟨-, -, -, hstore⟩ := store_spec key r d
  refine ⟨fun hdisjoint => ?_, fun ⟨id, hid, hpath⟩ => ?_⟩
  · rwa [if_pos] at hstore
    exact IdSet.isEmpty_iff.2 fun id h => hdisjoint id ((hcuts id).1 h).1 ((hcuts id).1 h).2
  · rwa [if_neg] at hstore
    exact fun hempty => IdSet.isEmpty_iff.1 hempty id ((hcuts id).2 ⟨hid, hpath⟩)

/-- **What was compiled is stored iff none of the consulted ids is on the path.** -/
theorem stored_resolve (hcatalog : ∀ c ∈ catalog.entries, Settled c) (hid : storedId? c = some id)
    (hd : RootsWithin Settled d)
    (hlocal : d.worker.cache.entries[keyOf d.worker.settings ctx id]?.filter (fits path) = none)
    (hshared : (sharedQuery? d.shared (keyOf d.worker.settings ctx id)).filter (fits path) = none)
    (h : (resolve catalog translator ctx c path).outcome d = (.ok r, d')) :
    let key := keyOf d.worker.settings ctx id
    ∃ y d₁, (d.worker.recompile catalog translator ctx c path).outcome (searched key path d) =
        (.ok y, d₁) ∧ y.query = r.query ∧ y.consulted = r.consulted ∧
      ((∀ id ∈ r.consulted, id ∉ path) →
        d'.shared = d₁.shared.save key.storageKey (toStored r).encode
          (tags d₁.worker.settings id) ∧
        d'.worker.cache = d₁.worker.cache.insert key (toStored r)) ∧
      ((∃ id ∈ r.consulted, id ∈ path) →
        d'.shared = d₁.shared ∧ d'.worker.cache = d₁.worker.cache) := by
  intro key
  have hcuts := cuts_resolve hcatalog translator ctx (by simp [Settled, hid]) hd h
  rw [outcome_resolve, outcome_cached hid, hlocal, hshared] at h
  dsimp only at h
  generalize hy : (d.worker.recompile catalog translator ctx c path).outcome (searched key path d) = o
    at h
  obtain ⟨y, d₁⟩ := o
  cases y with
  | error e => nomatch h
  | ok y =>
    obtain ⟨hr, rfl⟩ := Prod.mk.inj h
    obtain rfl := Except.ok.inj hr
    exact ⟨y, d₁, rfl, (query_closed ..).symm, (consulted_closed ..).symm, store_cut hcuts key d₁⟩

end

/-! ## What is found again -/

/-- The query of a category is what resolving it on the empty path ends with. -/
theorem outcome_query_eq (catalog : Catalog) (translator : Translator) (ctx : Context) (c : Category)
    (d : Desk) :
    (query catalog translator ctx c).outcome d =
      (((resolve catalog translator ctx c ∅).outcome d).1.map Compiled.query,
        ((resolve catalog translator ctx c ∅).outcome d).2.finish) := by
  rw [query, queryOr, Work.outcome_timed, Work.outcome_bind, resolve]
  generalize (resolveOr catalog translator ctx tooDeep c ∅).outcome d = o
  obtain ⟨r, d'⟩ := o
  cases r <;> rfl

theorem fits_empty (e : StoredQuery) : fits ∅ e = true := by
  simp [fits, IdSet.meets]

section
variable {catalog : Catalog} {translator : Translator} {ctx : Context} {c : Category}
  {id : CategoryId} {d d' : Desk} {q : Option Fragment}

/-- An entry of the local tier is all that a query comes to. -/
theorem outcome_query_local (hid : storedId? c = some id) {e : StoredQuery}
    (he : d.worker.cache.entries[keyOf d.worker.settings ctx id]? = some e) :
    (query catalog translator ctx c).outcome d = (.ok e.fragment, d.hitLocal.finish) := by
  have hlocal : (fromLocal (keyOf d.worker.settings ctx id) ∅).outcome d =
      (.ok (some e), d.hitLocal) := by
    simp only [fromLocal, LocalCache.get, Work.outcome_bind, Work.outcome_get, he, fits_empty,
      ↓reduceIte]
    rfl
  have hresolve : (resolve catalog translator ctx c ∅).outcome d =
      (.ok (ofStored e), d.hitLocal) := by
    rw [outcome_resolve, cached, hid]
    exact Work.outcome_bind_ok hlocal _
  rw [outcome_query_eq, hresolve]
  rfl

/-- A category that was resolved on the empty path is in the shared tier, and in the local one if
    that keeps anything. -/
theorem kept_resolve {r : Compiled} (hcatalog : ∀ c ∈ catalog.entries, Settled c)
    (hid : storedId? c = some id) (hd : Backed d.worker.settings d)
    (h : (resolve catalog translator ctx c ∅).outcome d = (.ok r, d')) :
    (d'.shared.load? (keyOf d.worker.settings ctx id).storageKey).isSome ∧
      (d'.worker.cache.capacity ≠ 0 →
        d'.worker.cache.entries[keyOf d.worker.settings ctx id]? = some (toStored r)) := by
  have hcuts := cuts_resolve hcatalog translator ctx (by simp [Settled, hid]) hd.roots h
  rw [outcome_resolve, outcome_cached hid] at h
  generalize keyOf d.worker.settings ctx id = key at *
  have hinserted : ∀ cache : LocalCache, d'.worker.cache = cache.insert key (toStored r) →
      d'.worker.cache.capacity ≠ 0 → d'.worker.cache.entries[key]? = some (toStored r) := by
    intro cache hcache hcapacity
    rw [hcache] at hcapacity ⊢
    rw [LocalCache.capacity_insert] at hcapacity
    exact LocalCache.getElem?_insert_self hcapacity key _
  split at h
  · -- it was in the local tier
    rename_i e he
    obtain ⟨hr, rfl⟩ := Prod.mk.inj h
    obtain rfl := Except.ok.inj hr
    obtain ⟨-, hsame, hentries⟩ := fromLocal_spec key ∅ d
    have he := (Option.filter_eq_some_iff.1 he).1
    rw [hentries, hsame.shared]
    exact ⟨hd.backed key e he, fun _ => he⟩
  · split at h
    · -- it was in the shared one
      rename_i e he
      obtain ⟨hr, rfl⟩ := Prod.mk.inj h
      obtain rfl := Except.ok.inj hr
      obtain ⟨-, hlocal, -⟩ := fromLocal_spec key ∅ d
      obtain ⟨-, -, hcache⟩ := fromShared_spec key ∅ ((fromLocal key ∅).outcome d).2
      rw [hlocal.shared, he] at hcache
      refine ⟨?_, hinserted _ hcache⟩
      rw [(searched_spec key ∅ d).2.2]
      exact load?_of_sharedQuery? (Option.filter_eq_some_iff.1 he).1
    · -- it was compiled, and nothing is cut on the empty path
      generalize (d.worker.recompile catalog translator ctx c ∅).outcome (searched key ∅ d) = o at h
      obtain ⟨y, d₁⟩ := o
      cases y with
      | error e => nomatch h
      | ok y =>
        obtain ⟨hr, rfl⟩ := Prod.mk.inj h
        obtain rfl := Except.ok.inj hr
        obtain ⟨hshared, hcache⟩ := (store_cut hcuts key d₁).1 fun id _ => IdSet.notMem_empty id
        refine ⟨?_, hinserted _ hcache⟩
        rw [hshared, SharedCache.load?_save, if_pos rfl]
        rfl

/-- **What was asked for is kept, and found when it is asked for again at once.** -/
theorem kept_query {settings : Settings} (hcatalog : ∀ c ∈ catalog.entries, Settled c)
    (hid : storedId? c = some id) (hd : Backed settings d)
    (h : (query catalog translator ctx c).outcome d = (.ok q, d')) :
    let key := keyOf settings ctx id
    (d'.shared.load? key.storageKey).isSome ∧
      (settings.capacity ≠ 0 →
        (∃ e, d'.worker.cache.entries[key]? = some e ∧ e.fragment = q) ∧
        (query catalog translator ctx c).outcome d' = (.ok q, d'.hitLocal.finish)) := by
  obtain rfl := hd.configured
  rw [outcome_query_eq] at h
  generalize ho : (resolve catalog translator ctx c ∅).outcome d = o at h
  obtain ⟨y, d₁⟩ := o
  obtain ⟨hy, rfl⟩ := Prod.mk.inj h
  cases y with
  | error e => nomatch hy
  | ok r =>
    obtain rfl := Except.ok.inj hy
    have hafter := (Frame.backed hcatalog d.worker.settings ctx).resolve translator ∅ trivial d hd
      (c := c)
    rw [ho] at hafter
    obtain ⟨hshared, hlocal⟩ := kept_resolve hcatalog hid hd ho
    refine ⟨hshared, fun hcapacity => ?_⟩
    have hentry := hlocal (by rwa [hafter.bounded])
    refine ⟨⟨_, hentry, rfl⟩, outcome_query_local hid (e := toStored r) ?_⟩
    rw [← hafter.configured] at hentry
    exact hentry

end

end Worker

/-! ## A worker that has the tiers for itself -/

open Worker (Settled Backed)

/-- Steps that save no preview. -/
def Step.savesNoDraft : Step → Prop
  | insert c => c.isDraft = false
  | _ => True

/-- A team of one worker with a catalog without previews, where all that is in the local tier is in
    the shared one. -/
structure Team.Solo (settings : Settings) (translator : Translator) (t : Team) (w : Worker) :
    Prop where
  translator : t.translator = translator
  settled : ∀ c ∈ t.catalog.entries, Settled c
  alone : t.workers = [w]
  backed : Backed settings ⟨w, t.shared, []⟩

/-- A saved category that is no preview is stored under its id. -/
theorem Catalog.settled {catalog : Catalog} {c : Category} (hc : c ∈ catalog.entries)
    (hdraft : c.isDraft = false) : Settled c := by
  rw [Settled, Worker.storedId?, if_neg (by simp [hdraft])]
  exact catalog.saved c hc

namespace Team.Solo

variable {settings : Settings} {translator : Translator} {t : Team} {w : Worker}

/-- A worker that worked leaves its desk. -/
theorem leave {d : Desk} (h : t.Solo settings translator w) (hd : Backed settings d) :
    Team.Solo settings translator { t with shared := d.shared, workers := t.workers.set 0 d.worker }
      d.worker where
  translator := h.translator
  settled := h.settled
  alone := by rw [h.alone, List.set_cons_zero]
  backed := ⟨hd.configured, hd.bounded, hd.backed, hd.roots⟩

theorem index (h : t.Solo settings translator w) {i : Nat} {w' : Worker}
    (hw : t.workers[i]? = some w') : i = 0 ∧ w' = w := by
  rw [h.alone, List.getElem?_singleton] at hw
  split at hw
  · exact ⟨‹_›, (Option.some.inj hw).symm⟩
  · nomatch hw

/-- **A step keeps a worker that has the tiers for itself.** -/
theorem step (h : t.Solo settings translator w) {s : Step} (hs : s.savesNoDraft) :
    ∃ w', (t.step s).2.Solo settings translator w' := by
  cases s with
  | call i r =>
    cases hw : t.workers[i]? with
    | none =>
      rw [Team.step_of_none hw (Or.inr ⟨r, rfl⟩)]
      exact ⟨w, h⟩
    | some w' =>
      obtain ⟨rfl, rfl⟩ := h.index hw
      have hframe := fun ctx => Worker.Frame.backed h.settled settings ctx
      have hkept := Worker.Frame.keeps_request t.translator (r := r) (fun ctx _ => hframe ctx)
        (fun store c => (hframe ⟨store, 0⟩).root c) (fun _ _ => trivial) _ h.backed
      rw [Team.step_call hw]
      exact ⟨_, h.leave hkept⟩
  | invalidate i =>
    cases hw : t.workers[i]? with
    | none =>
      rw [Team.step_of_none hw (Or.inl rfl)]
      exact ⟨w, h⟩
    | some w' =>
      obtain ⟨rfl, rfl⟩ := h.index hw
      rw [Team.step_invalidate hw]
      exact ⟨_, h.leave h.backed.invalidate⟩
  | insert c =>
    refine ⟨w, h.translator, fun e he => ?_, h.alone, h.backed⟩
    rcases Catalog.mem_insert he with rfl | hold
    · exact Catalog.settled he hs
    · exact h.settled e hold
  | remove store id =>
    exact ⟨w, h.translator, fun e he => h.settled e (List.mem_filter.1 he).1, h.alone, h.backed⟩

/-- So does a run. -/
theorem after (steps : List Step) {t : Team} {w : Worker} (h : t.Solo settings translator w)
    (hs : ∀ s ∈ steps, s.savesNoDraft) : ∃ w', (t.after steps).Solo settings translator w' := by
  induction steps generalizing t w with
  | nil => exact ⟨w, h⟩
  | cons s rest ih =>
    rw [List.forall_mem_cons] at hs
    obtain ⟨w', h'⟩ := h.step hs.1
    exact ih h' hs.2

theorem start (translator : Translator) {catalog : Catalog}
    (hcatalog : ∀ c ∈ catalog.entries, c.isDraft = false) :
    (Team.start catalog translator [settings]).Solo settings translator (.ofSettings settings) where
  translator := rfl
  settled c hc := Catalog.settled hc (hcatalog c hc)
  alone := rfl
  backed := .of_empty rfl rfl rfl rfl

end Team.Solo

/-! ## Exact bookkeeping -/

/-- What a worker makes of its path on a desk, for a category that is stored under an id. -/
structure Worker.KeepsBooks (catalog : Catalog) (translator : Translator) (ctx : Context)
    (c : Category) (id : CategoryId) (d : Desk) : Prop where
  /-- What is cut is what was consulted and is on the path. -/
  cuts : ∀ path r d', (resolve catalog translator ctx c path).outcome d = (.ok r, d') →
    ∀ x, x ∈ r.cut ↔ x ∈ r.consulted ∧ x ∈ path
  /-- What was found in no tier is stored iff nothing that was consulted is on the path. -/
  stores : let key := keyOf d.worker.settings ctx id
    ∀ path r d', (resolve catalog translator ctx c path).outcome d = (.ok r, d') →
      d.worker.cache.entries[key]?.filter (fits path) = none →
      (sharedQuery? d.shared key).filter (fits path) = none →
      ∃ y d₁, (d.worker.recompile catalog translator ctx c path).outcome (searched key path d) =
          (.ok y, d₁) ∧ y.query = r.query ∧ y.consulted = r.consulted ∧
        ((∀ x ∈ r.consulted, x ∉ path) →
          d'.shared = d₁.shared.save key.storageKey (toStored r).encode
            (tags d₁.worker.settings id) ∧
          d'.worker.cache = d₁.worker.cache.insert key (toStored r)) ∧
        ((∃ x ∈ r.consulted, x ∈ path) →
          d'.shared = d₁.shared ∧ d'.worker.cache = d₁.worker.cache)
  /-- What was asked for on the empty path is in both tiers, and found again at once. -/
  keeps : let key := keyOf d.worker.settings ctx id
    ∀ q d', (query catalog translator ctx c).outcome d = (.ok q, d') →
      (d'.shared.load? key.storageKey).isSome ∧ (d.worker.settings.capacity ≠ 0 →
        (∃ e, d'.worker.cache.entries[key]? = some e ∧ e.fragment = q) ∧
        (query catalog translator ctx c).outcome d' = (.ok q, d'.hitLocal.finish))

/-- **The bookkeeping of paths is exact.**  Compiling anew gives the same on all paths without the ids
    that were consulted.  In a catalog without previews, whatever a worker that has the tiers for
    itself was asked for before, it cuts exactly what was consulted on the path; it stores what it
    compiled iff that is nothing, so that what is asked for on the empty path is stored. -/
theorem Team.bookkeeping_exact (settings : Settings) (translator : Translator) (catalog : Catalog) :
    (∀ ctx c path path' r, Fresh.compile settings catalog translator ctx c path = .ok r →
      (∀ x ∈ r.consulted, x ∉ path) → (∀ x ∈ r.consulted, x ∉ path') →
      Fresh.compile settings catalog translator ctx c path' = .ok r) ∧
    ∀ steps : List Step, (∀ c ∈ catalog.entries, c.isDraft = false) →
      (∀ s ∈ steps, s.savesNoDraft) →
      let t := (Team.start catalog translator [settings]).after steps
      ∃ w, t.workers = [w] ∧ w.settings = settings ∧
        ∀ ctx c id, c.id = some id → c.isDraft = false →
          Worker.KeepsBooks t.catalog translator ctx c id ⟨w, t.shared, []⟩ := by
  refine ⟨fun ctx c path path' r h hdisjoint hdisjoint' => ?_, fun steps hcatalog hsteps => ?_⟩
  · exact Fresh.local_compile _ _ _ ctx c path path' r h (.of_disjoint hdisjoint hdisjoint')
  · obtain ⟨w, h⟩ := (Team.Solo.start translator hcatalog).after steps hsteps
    refine ⟨w, h.alone, h.backed.configured, fun ctx c id hid hdraft => ?_⟩
    have hid : Worker.storedId? c = some id := by simp [Worker.storedId?, hdraft, hid]
    have hc : Settled c := by simp [Settled, hid]
    refine ⟨fun path r d' h' => ?_, fun path r d' h' hlocal hshared => ?_, fun q d' h' => ?_⟩
    · exact Worker.cuts_resolve h.settled translator ctx hc h.backed.roots h'
    · exact Worker.stored_resolve h.settled hid h.backed.roots hlocal hshared h'
    · exact Worker.kept_query h.settled hid (h.backed.configured ▸ h.backed) h'

/-- Two virtual categories that are the virtual roots of each other, the second of which is saved
    later: where it is on the path, it is cut from the query of the first one. -/
theorem Team.bookkeeping_exact_circle :
    let red := { Category.ofPath 3 "Red" [1, 2, 3] with isVirtual := true, virtualRoot := some 4 }
    let sale := { Category.ofPath 4 "Sale" [1, 2, 4] with isVirtual := true, virtualRoot := some 3 }
    let rules : Translator := ⟨.empty, none, none, fun _ => .exact, 0⟩
    let t := (Team.start (.ofList [red]) rules [.standard]).after [.insert sale]
    ∃ w, t.workers = [w] ∧
      Worker.KeepsBooks t.catalog rules ⟨0, 1⟩ red 3 ⟨w, t.shared, []⟩ ∧
      ((Worker.resolve t.catalog rules ⟨0, 1⟩ red (.ofList [4])).outcome ⟨w, t.shared, []⟩).1 =
        .ok ⟨none, .ofList [1, 2, 3, 4], .ofList [4]⟩ := by
  intro red sale rules t
  obtain ⟨w, hw, -, hbooks⟩ := (Team.bookkeeping_exact .standard rules (.ofList [red])).2
    [.insert sale] (by decide) (by simp [Step.savesNoDraft, sale, Category.ofPath])
  refine ⟨w, hw, hbooks ⟨0, 1⟩ red 3 rfl rfl, ?_⟩
  obtain rfl : w = .ofSettings .standard := (List.cons.inj hw).1.symm
  let d : Desk := ⟨.ofSettings .standard, .empty, []⟩
  have hlocal : ∀ key : CacheKey, d.worker.cache.entries[key]? = none :=
    fun _ => Std.HashMap.getElem?_empty
  have hshared : ∀ key, Worker.sharedQuery? d.shared key = none := Worker.sharedQuery?_empty
  have hcompile : ∀ d' : Desk, d'.worker.roots = [] → ∃ d'',
      (d.worker.recompile t.catalog rules ⟨0, 1⟩ red (.ofList [4])).outcome d' =
        (.ok ⟨none, .ofList [1, 2, 3, 4], .ofList [4]⟩, d'') := by
    rintro ⟨⟨settings, cache, roots⟩, shared, events⟩ rfl
    exact ⟨_, rfl⟩
  have hresolve := Worker.outcome_resolve t.catalog rules ⟨0, 1⟩ red (.ofList [4]) d
  have hstored : Worker.storedId? red = some 3 := rfl
  rw [Worker.outcome_cached hstored, hlocal, hshared] at hresolve
  obtain ⟨d'', hcompile⟩ := hcompile (Worker.searched _ _ d) (Worker.searched_spec _ _ d).2.1
  dsimp only [Option.filter] at hresolve
  rw [hcompile] at hresolve
  exact congrArg Prod.fst hresolve

end Merchandising

/-
  A worker with caches does what compiling anew does.

  * an `Epoch` is what stays the same between two changes of the catalog, and what is asked of it:
    one category for an id, one text for a key, texts that are read as they were written; it may be
    about some stores and keys only;
  * `Epoch.Good` is an entry that stands for compiling its category anew, on every path that holds
    none of the ids that were consulted;
  * `Epoch.Sound` is a desk that holds good entries only, as far as the epoch goes;
  * `Epoch.simulates` is work that ends as compiling anew does on every sound desk, and leaves a
    sound desk;
  * `Epoch.sim_resolve` and the others: the calls on a worker are such work.

  What is cut is not the same.  A stored query was cut nowhere, while compiling anew reports what
  was cut inside it; all that matters is that the ids on the path are among the ones that are
  reported as cut (`asOnPath`).
-/
import Merchandising.Proofs.Cache.Tiers
import Merchandising.Proofs.Resolver.Desk
import Merchandising.Proofs.Resolver.Paths

namespace Merchandising

open Worker (keyOf storedId? sharedQuery? RootsOf)

/-- A category is stored under its id. -/
theorem Worker.id_of_storedId? {c : Category} {id : CategoryId} (h : storedId? c = some id) :
    c.id = some id := by
  unfold storedId? at h
  split at h
  · nomatch h
  · exact h

/-- What stays the same between two changes of the catalog. -/
structure Epoch where
  settings : Settings
  catalog : Catalog
  translator : Translator
  /-- The stores whose categories do not change. -/
  stores : StoreId → Prop
  /-- For whom queries are compiled. -/
  contexts : Context → Prop
  /-- The categories of a store whose queries may be stored. -/
  known : StoreId → Category → Prop
  /-- The keys under which they are stored. -/
  used : CacheKey → Prop
  stores_contexts : ∀ {ctx}, contexts ctx → stores ctx.store
  /-- They include the saved ones. -/
  known_saved : ∀ c ∈ catalog.entries, (storedId? c).isSome → known c.store c
  /-- No two have the same id. -/
  known_once : ∀ {store c c'}, known store c → known store c' → c.id = c'.id → c = c'
  used_known : ∀ {ctx c id}, contexts ctx → known ctx.store c → c.id = some id →
    used (keyOf settings ctx id)
  /-- No two keys have the same key in the shared tier. -/
  used_once : ∀ {k k'}, used k → used k' → k.storageKey = k'.storageKey → k = k'
  /-- What is stored for a compiled query is read as it is, if it is read. -/
  faithful : ∀ {ctx c path r e}, contexts ctx → known ctx.store c →
    Fresh.compile settings catalog translator ctx c path = .ok r →
    StoredQuery.decode (Worker.toStored r).encode = .ok e → e = Worker.toStored r

/-- Outcomes with the same query and the same consulted ids; those on the path are cut. -/
def asOnPath : PathRelation where
  rel path a b := a.query = b.query ∧ a.consulted = b.consulted ∧
    ∀ id ∈ b.consulted, id ∈ path → id ∈ a.cut
  query h := h.1
  unrestricted := ⟨rfl, rfl, fun _ h => absurd h (IdSet.notMem_empty _)⟩
  look ids := by
    refine ⟨rfl, rfl, fun id h hp => ?_⟩
    exact IdSet.mem_filter.2 ⟨h, by simpa using hp⟩
  withQuery q h := ⟨rfl, h.2⟩
  absorb := by
    rintro path a b a' b' ⟨hq, hc, hcut⟩ ⟨-, hc', hcut'⟩
    refine ⟨hq, by simp only [Compiled.absorb, hc, hc'], fun id h hp => ?_⟩
    rcases IdSet.mem_union.1 h with h | h
    · exact IdSet.mem_union.2 (Or.inl (hcut id h hp))
    · exact IdSet.mem_union.2 (Or.inr (hcut' id h hp))
  shrink h := ⟨h.1, h.2.1, fun id hid hp => h.2.2 id hid (IdSet.mem_insert.2 (Or.inr hp))⟩

namespace Epoch

variable (E : Epoch)

/-- A category, compiled anew. -/
def anew (ctx : Context) (c : Category) (path : IdSet) : Except Failure Compiled :=
  Fresh.compile E.settings E.catalog E.translator ctx c path

/-- An entry that stands for compiling anew, on every path without the ids that were consulted. -/
def Good (k : CacheKey) (e : StoredQuery) : Prop :=
  ∃ c, E.known k.store c ∧ c.id = some k.category ∧ ∀ path : IdSet, (∀ id ∈ e.consulted, id ∉ path) →
    ∃ r, E.anew ⟨k.store, k.group⟩ c path = .ok r ∧ r.query = e.fragment ∧ r.consulted = e.consulted

/-- A desk that holds good entries only, under the keys that are used. -/
structure Sound (d : Desk) : Prop where
  settings : d.worker.settings = E.settings
  roots : ∀ store, E.stores store → RootsOf E.catalog store d
  inLocal : ∀ k e, E.used k → d.worker.cache.entries[k]? = some e → E.Good k e
  inShared : ∀ k e, E.used k → sharedQuery? d.shared k = some e → E.Good k e
  tagged : d.shared.Tagged E.settings.tag

/-- Work that ends as a program does, on every sound desk, and leaves a sound desk. -/
def simulates : Correspondence Work (Except Failure) where
  rel R w x := ∀ d, E.Sound d → E.Sound (w.outcome d).2 ∧ Related R (w.outcome d).1 x
  pure h _ hd := ⟨hd, h⟩
  throw _ _ hd := ⟨hd, rfl⟩
  bind := by
    intro α β γ δ R S x y f g hxy hfg d hd
    obtain ⟨hd', hrel⟩ := hxy d hd
    rw [Work.outcome_bind]
    generalize x.outcome d = o at *
    obtain ⟨r, d'⟩ := o
    match r, y, hrel with
    | .ok a, .ok b, hab => exact hfg a b hab d' hd'
    | .error _, .error _, he => exact ⟨hd', he⟩

variable {E}

theorem Sound.of_same {d d' : Desk} (hd : E.Sound d) (h : d.SameButLocal d')
    (hlocal : ∀ k e, E.used k → d'.worker.cache.entries[k]? = some e → E.Good k e) :
    E.Sound d' where
  settings := h.settings.trans hd.settings
  roots store hs := (hd.roots store hs).of_eq h.roots
  inLocal := hlocal
  inShared := by
    rw [h.shared]
    exact hd.inShared
  tagged := by
    rw [h.shared]
    exact hd.tagged

/-- What is sound stays so in an epoch that trusts no more stores and keys, if the entries are good
    there as well. -/
theorem Sound.transfer {E' : Epoch} {d : Desk} (hd : E.Sound d)
    (hsettings : E'.settings = E.settings)
    (hstores : ∀ store, E'.stores store →
      E.stores store ∧ ∀ id, E.catalog.root? store id = E'.catalog.root? store id)
    (hgood : ∀ k, E'.used k → E.used k ∧ ∀ e, E.Good k e → E'.Good k e) : E'.Sound d where
  settings := hd.settings.trans hsettings.symm
  roots store hs id root h := by
    rw [← (hstores store hs).2]
    exact hd.roots store (hstores store hs).1 id root h
  inLocal k e hk h := (hgood k hk).2 e (hd.inLocal k e (hgood k hk).1 h)
  inShared k e hk h := (hgood k hk).2 e (hd.inShared k e (hgood k hk).1 h)
  tagged := hsettings ▸ hd.tagged

/-- What is sound stays so when more categories are known. -/
theorem Sound.mono {E' : Epoch} {d : Desk} (hd : E.Sound d) (hsettings : E'.settings = E.settings)
    (hcatalog : E'.catalog = E.catalog) (htranslator : E'.translator = E.translator)
    (hstores : ∀ store, E'.stores store → E.stores store)
    (hknown : ∀ store c, E.known store c → E'.known store c) (hused : ∀ k, E'.used k → E.used k) :
    E'.Sound d := by
  refine hd.transfer hsettings (fun store hs => ⟨hstores store hs, fun id => by rw [hcatalog]⟩)
    fun k hk => ⟨hused k hk, ?_⟩
  rintro e ⟨c, hc, hid, h⟩
  refine ⟨c, hknown _ c hc, hid, fun path hp => ?_⟩
  rw [anew, hsettings, hcatalog, htranslator]
  exact h path hp

/-- A desk is sound if its worker and its shared tier are those of sound desks. -/
theorem Sound.share {d d' d'' : Desk} (hd : E.Sound d) (hd' : E.Sound d')
    (hworker : d''.worker = d.worker) (hshared : d''.shared = d'.shared) : E.Sound d'' where
  settings := by rw [hworker, hd.settings]
  roots store hs := (hd.roots store hs).of_eq (by rw [hworker])
  inLocal := by
    rw [hworker]
    exact hd.inLocal
  inShared := by
    rw [hshared]
    exact hd'.inShared
  tagged := by
    rw [hshared]
    exact hd'.tagged

/-- A desk without any entry is sound. -/
theorem Sound.of_empty {d : Desk} (hsettings : d.worker.settings = E.settings)
    (hroots : d.worker.roots = []) (hlocal : d.worker.cache.entries = ∅)
    (hshared : ∀ key, d.shared.load? key = none) : E.Sound d where
  settings := hsettings
  roots := by simp [RootsOf, hroots]
  inLocal := by simp [hlocal]
  inShared := by simp [sharedQuery?, hshared]
  tagged := by simp [SharedCache.Tagged, hshared]

/-- An invalidation leaves a desk without any entry, whatever it held, if all texts of the shared
    tier have the tag. -/
theorem sound_invalidate {d : Desk} (hsettings : d.worker.settings = E.settings)
    (htagged : d.shared.Tagged E.settings.tag) : E.Sound (Worker.invalidate.outcome d).2 := by
  obtain ⟨-, hshared, hworker⟩ := Worker.invalidate_spec d
  refine .of_empty ?_ ?_ ?_ fun key => ?_
  · rw [hworker]
    exact hsettings
  · rw [hworker]
  · rw [hworker]
    rfl
  · rw [hshared, hsettings]
    exact htagged.invalidate key

theorem sim_report (e : Event) : E.simulates.rel (fun _ _ => True) (Work.report e) (.ok ()) :=
  fun _ hd => ⟨⟨hd.settings, hd.roots, hd.inLocal, hd.inShared, hd.tagged⟩, trivial⟩

theorem Sound.virtualRoot {d : Desk} (hd : E.Sound d) (store : StoreId) (c : Category) :
    E.Sound ((Worker.virtualRoot E.catalog store c).outcome d).2 := by
  obtain ⟨hsettings, hcache, hshared, -⟩ := Worker.virtualRoot_leaves E.catalog store c d
  refine ⟨hsettings.trans hd.settings, fun store' hs => (hd.roots store' hs).virtualRoot store c,
    ?_, ?_, ?_⟩
  · rw [hcache]
    exact hd.inLocal
  · rw [hshared]
    exact hd.inShared
  · rw [hshared]
    exact hd.tagged

theorem sim_virtualRoot {store : StoreId} (hstore : E.stores store) (c : Category) :
    E.simulates.rel (fun a b => a = b ∧ b = Fresh.root? E.catalog store c)
      (Worker.virtualRoot E.catalog store c) (.ok (Fresh.root? E.catalog store c)) := by
  intro d hd
  refine ⟨hd.virtualRoot store c, ?_⟩
  rw [(hd.roots store hstore).found c]
  exact ⟨rfl, rfl⟩

/-! ## Looking and storing -/

theorem toOption_eq_some {α ε : Type} {x : Except ε α} {a : α} : x.toOption = some a ↔ x = .ok a := by
  cases x <;> simp [Except.toOption]

/-- A good entry that fits the path is what compiling anew comes to. -/
theorem Good.related {ctx : Context} {c : Category} {id : CategoryId} {path : IdSet} {e : StoredQuery}
    (h : E.Good (keyOf E.settings ctx id) e) (hc : E.known ctx.store c) (hid : c.id = some id)
    (hfits : Worker.fits path e = true) :
    Related (asOnPath.rel path) (.ok (Worker.ofStored e)) (E.anew ctx c path) := by
  obtain ⟨c', hc', hid', hanew⟩ := h
  obtain rfl : c' = c := E.known_once hc' hc (hid'.trans hid.symm)
  have hdisjoint : ∀ id ∈ e.consulted, id ∉ path := by
    simpa [Worker.fits, IdSet.meets, IdSet.mem_def] using hfits
  obtain ⟨r, hr, hquery, hconsulted⟩ := hanew path hdisjoint
  have hr : E.anew ctx c' path = .ok r := hr
  rw [hr]
  refine ⟨hquery.symm, hconsulted.symm, fun id h hp => ?_⟩
  rw [hconsulted] at h
  exact absurd hp (hdisjoint id h)

/-- What was compiled anew and cut nowhere on the path is a good entry. -/
theorem good_of_anew {ctx : Context} {c : Category} {id : CategoryId} {path : IdSet} {r : Compiled}
    (hc : E.known ctx.store c) (hid : c.id = some id) (hr : E.anew ctx c path = .ok r)
    (hdisjoint : ∀ id ∈ r.consulted, id ∉ path) :
    E.Good (keyOf E.settings ctx id) (Worker.toStored r) := by
  refine ⟨c, hc, hid, fun path' hdisjoint' => ⟨r, ?_, rfl, rfl⟩⟩
  exact Fresh.local_compile _ _ _ ctx c path path' r hr (Agree.of_disjoint hdisjoint hdisjoint')

/-- A good entry may go into the local tier. -/
theorem Sound.insert {d : Desk} {k : CacheKey} {e : StoredQuery} (hd : E.Sound d) (he : E.Good k e) :
    ∀ k' e', E.used k' → (d.worker.cache.insert k e).entries[k']? = some e' → E.Good k' e' := by
  intro k' e' hk' h
  rcases LocalCache.of_insert h with ⟨rfl, rfl⟩ | h
  · exact he
  · exact hd.inLocal k' e' hk' h

/-- Storing a compiled query that was cut nowhere leaves a sound desk. -/
theorem Sound.store {d : Desk} {ctx : Context} {c : Category} {id : CategoryId} {path : IdSet}
    {r a : Compiled} (hd : E.Sound d) (hctx : E.contexts ctx) (hc : E.known ctx.store c)
    (hid : c.id = some id) (hr : E.anew ctx c path = .ok r) (ha : asOnPath.rel path a r) :
    E.Sound ((Worker.store (keyOf E.settings ctx id) a).outcome d).2 := by
  obtain ⟨-, hsettings, hroots, hstore⟩ := Worker.store_spec (keyOf E.settings ctx id) a d
  by_cases hcut : a.cut.isEmpty
  · rw [if_pos hcut] at hstore
    obtain ⟨hshared, hcache⟩ := hstore
    have hstored : Worker.toStored a = Worker.toStored r := by
      simp only [Worker.toStored, ha.1, ha.2.1]
    have hgood : E.Good (keyOf E.settings ctx id) (Worker.toStored a) := by
      rw [hstored]
      refine good_of_anew hc hid hr fun id h hp => ?_
      exact IdSet.isEmpty_iff.1 hcut id (ha.2.2 id h hp)
    refine ⟨hsettings.trans hd.settings, fun store hs => (hd.roots store hs).of_eq hroots,
      ?_, ?_, ?_⟩
    · rw [hcache]
      exact hd.insert hgood
    · intro k e hk h
      rw [hshared, sharedQuery?, SharedCache.load?_save] at h
      by_cases hkey : k.storageKey = (keyOf E.settings ctx id).storageKey
      · obtain rfl := E.used_once hk (E.used_known hctx hc hid) hkey
        rw [if_pos rfl] at h
        have hdecode : StoredQuery.decode (Worker.toStored r).encode = .ok e := by
          rw [← hstored]
          exact toOption_eq_some.1 h
        rw [E.faithful hctx hc hr hdecode, ← hstored]
        exact hgood
      · rw [if_neg hkey] at h
        exact hd.inShared k e hk h
    · rw [hshared]
      exact hd.tagged.save (by simp [Worker.tags, hd.settings])
  · rw [if_neg hcut] at hstore
    refine hd.of_same ⟨hsettings, hroots, hstore.1⟩ ?_
    rw [hstore.2]
    exact hd.inLocal

variable (E) in
/-- Looking for an entry that stands for a category on a path. -/
def Looks (ctx : Context) (c : Category) (path : IdSet) (look : Work (Option StoredQuery)) : Prop :=
  ∀ d, E.Sound d → E.Sound (look.outcome d).2 ∧ ∃ found, (look.outcome d).1 = .ok found ∧
    ∀ e ∈ found, Related (asOnPath.rel path) (.ok (Worker.ofStored e)) (E.anew ctx c path)

section
variable {ctx : Context} {c : Category} {id : CategoryId} {path : IdSet} {w : Work Compiled}

theorem looks_fromLocal (hctx : E.contexts ctx) (hc : E.known ctx.store c) (hid : c.id = some id) :
    E.Looks ctx c path (Worker.fromLocal (keyOf E.settings ctx id) path) := by
  intro d hd
  obtain ⟨hfound, hsame, hentries⟩ := Worker.fromLocal_spec (keyOf E.settings ctx id) path d
  refine ⟨hd.of_same hsame (by rw [hentries]; exact hd.inLocal), _, hfound, fun e he => ?_⟩
  obtain ⟨he, hfits⟩ := Option.filter_eq_some_iff.1 he
  exact (hd.inLocal _ e (E.used_known hctx hc hid) he).related hc hid hfits

theorem looks_fromShared (hctx : E.contexts ctx) (hc : E.known ctx.store c) (hid : c.id = some id) :
    E.Looks ctx c path (Worker.fromShared (keyOf E.settings ctx id) path) := by
  intro d hd
  obtain ⟨hfound, hsame, hcache⟩ := Worker.fromShared_spec (keyOf E.settings ctx id) path d
  have hgood : ∀ e ∈ (sharedQuery? d.shared (keyOf E.settings ctx id)).filter (Worker.fits path),
      E.Good (keyOf E.settings ctx id) e ∧ Worker.fits path e = true := by
    intro e he
    obtain ⟨he, hfits⟩ := Option.filter_eq_some_iff.1 he
    exact ⟨hd.inShared _ e (E.used_known hctx hc hid) he, hfits⟩
  refine ⟨hd.of_same hsame ?_, _, hfound, fun e he => (hgood e he).1.related hc hid (hgood e he).2⟩
  rw [hcache]
  split
  · exact hd.inLocal
  · rename_i e he
    exact hd.insert (hgood e he).1

theorem sim_looks {look : Work (Option StoredQuery)} (hlook : E.Looks ctx c path look)
    (hw : E.simulates.rel (asOnPath.rel path) w (E.anew ctx c path)) :
    E.simulates.rel (asOnPath.rel path)
      (do match ← look with
        | some e => return Worker.ofStored e
        | none => w) (E.anew ctx c path) := by
  intro d hd
  obtain ⟨hd', found, hfound, hrelated⟩ := hlook d hd
  rw [Work.outcome_bind_ok (Prod.ext hfound rfl)]
  cases found with
  | some e => exact ⟨hd', hrelated e rfl⟩
  | none => exact hw _ hd'

/-- An id that is not on the path need not count as cut. -/
theorem related_erase {a r : Compiled} (h : asOnPath.rel path a r) (id : CategoryId) :
    asOnPath.rel path (if id ∈ path then a else { a with cut := a.cut.erase id }) r := by
  split
  · exact h
  · refine ⟨h.1, h.2.1, fun x hx hp => IdSet.mem_erase.2 ⟨h.2.2 x hx hp, ?_⟩⟩
    rintro rfl
    contradiction

theorem sim_stored (hctx : E.contexts ctx) (hc : E.known ctx.store c) (hid : c.id = some id)
    (hw : E.simulates.rel (asOnPath.rel path) w (E.anew ctx c path)) :
    E.simulates.rel (asOnPath.rel path)
      (do
        let r ← w
        let r := if id ∈ path then r else { r with cut := r.cut.erase id }
        Worker.store (keyOf E.settings ctx id) r
        return r) (E.anew ctx c path) := by
  intro d hd
  obtain ⟨hd', hrelated⟩ := hw d hd
  rw [Work.outcome_bind]
  generalize w.outcome d = o at *
  obtain ⟨x, d'⟩ := o
  match x, hr : E.anew ctx c path, hrelated with
  | .error _, .error _, he => exact ⟨hd', he⟩
  | .ok a, .ok r, ha =>
    have ha := related_erase ha id
    have hstore := (Worker.store_spec (keyOf E.settings ctx id)
      (if id ∈ path then a else { a with cut := a.cut.erase id }) d').1
    dsimp only
    rw [Work.outcome_bind_ok (Prod.ext hstore rfl)]
    exact ⟨hd'.store hctx hc hid hr ha, ha⟩

/-- **Taking a category from the caches is compiling it anew**, if what is done otherwise is. -/
theorem sim_cached (hctx : E.contexts ctx) (hc : (storedId? c).isSome → E.known ctx.store c)
    (hw : E.simulates.rel (asOnPath.rel path) w (E.anew ctx c path)) :
    E.simulates.rel (asOnPath.rel path) (Worker.cached E.settings ctx c path w)
      (E.anew ctx c path) := by
  unfold Worker.cached
  cases hstored : storedId? c with
  | none => exact hw
  | some id =>
    have hc : E.known ctx.store c := hc (by simp [hstored])
    have hid : c.id = some id := Worker.id_of_storedId? hstored
    exact sim_looks (looks_fromLocal hctx hc hid)
      (sim_looks (looks_fromShared hctx hc hid) (sim_stored hctx hc hid hw))

/-! ## Compiling -/

theorem sim_compile {resolve : Category → IdSet → Work Compiled} (hctx : E.contexts ctx)
    (h : ∀ k, Call.Nested E.catalog ctx.store ⟨c, path⟩ k →
      E.simulates.rel (asOnPath.rel k.path) (resolve k.category k.path)
        (E.anew ctx k.category k.path)) :
    E.simulates.rel (asOnPath.rel path)
      ((Worker.compiler E.settings E.catalog E.translator ctx resolve).compile c path)
      (E.anew ctx c path) := by
  rw [anew, Fresh.compile_eq]
  refine Compiler.rel_compile (fun ho => ?_) sim_report
  exact ⟨rfl, rfl, rfl, rfl, sim_virtualRoot (E.stores_contexts hctx) c,
    fun d hd => h ⟨d, _⟩ ⟨Call.opens_iff.2 ho, rfl, hd⟩, sim_report⟩

/-- **Resolving a category is compiling it anew**, up to a depth that nested calls do not reach. -/
theorem sim_resolveWithin {beyond : Category → IdSet → Work Compiled} (hctx : E.contexts ctx)
    (n : Nat) (hc : (storedId? c).isSome → E.known ctx.store c)
    (hn : ∀ k, ¬ Call.Inside E.catalog ctx.store n ⟨c, path⟩ k) :
    E.simulates.rel (asOnPath.rel path)
      (Worker.resolveWithin E.settings E.catalog E.translator ctx beyond n c path)
      (E.anew ctx c path) := by
  induction n generalizing c path with
  | zero => exact absurd (.here _) (hn _)
  | succ n ih =>
    refine sim_cached hctx hc (sim_compile hctx fun k hk => ih (fun hs => ?_) fun k' hk' => ?_)
    · obtain ⟨hmem, hstore⟩ := Call.refers_mem hk.refers
      exact hstore ▸ E.known_saved _ hmem hs
    · exact hn k' (.deeper hk hk')

theorem sim_within_depthFor {beyond : Category → IdSet → Work Compiled} (hctx : E.contexts ctx)
    (worker : Worker) (hc : (storedId? c).isSome → E.known ctx.store c) :
    E.simulates.rel (asOnPath.rel path)
      (Worker.resolveWithin E.settings E.catalog E.translator ctx beyond
        (worker.depthFor E.catalog) c path)
      (E.anew ctx c path) := by
  refine sim_resolveWithin hctx _ hc fun k hk => ?_
  have hle : E.catalog.size + worker.roots.length + 2 ≤ E.catalog.size + 1 := hk.le_size
  omega

/-! ## Calls -/

theorem sim_resolve (hctx : E.contexts ctx) (hc : (storedId? c).isSome → E.known ctx.store c) :
    E.simulates.rel (asOnPath.rel path) (Worker.resolve E.catalog E.translator ctx c path)
      (E.anew ctx c path) := by
  intro d hd
  rw [Worker.resolve, Worker.resolveOr, Work.outcome_bind_ok (Work.outcome_get d)]
  dsimp only
  rw [hd.settings]
  exact sim_within_depthFor hctx d.worker hc d hd

/-- Nothing is asked of the category itself, which is not looked for. -/
theorem sim_build (hctx : E.contexts ctx) :
    E.simulates.rel (fun q r => q = r.query) (Worker.build E.catalog E.translator ctx c path)
      (E.anew ctx c path) := by
  intro d hd
  rw [Worker.build, Worker.buildOr, Work.outcome_bind_ok (Work.outcome_get d)]
  dsimp only
  rw [hd.settings]
  refine E.simulates.finish
    (sim_compile hctx fun k hk => sim_within_depthFor hctx d.worker fun hs => ?_)
    (fun _ _ hab => hab.1) d hd
  obtain ⟨hmem, hstore⟩ := Call.refers_mem hk.refers
  exact hstore ▸ E.known_saved _ hmem hs

theorem sim_timed {α β : Type} {R : α → β → Prop} {o : Operation} {w : Work α} {x : Except Failure β}
    (h : E.simulates.rel R w x) : E.simulates.rel R (Work.timed o w) x := by
  intro d hd
  obtain ⟨hd', hrel⟩ := h d hd
  rw [Work.outcome_timed]
  exact ⟨⟨hd'.settings, hd'.roots, hd'.inLocal, hd'.inShared, hd'.tagged⟩, hrel⟩

theorem sim_query (hctx : E.contexts ctx) (hc : (storedId? c).isSome → E.known ctx.store c) :
    E.simulates.rel (fun q r => q = r.query) (Worker.query E.catalog E.translator ctx c)
      (E.anew ctx c ∅) :=
  sim_timed (E.simulates.finish (sim_resolve hctx hc) fun _ _ hab => hab.1)

theorem sim_merge {cs : List Category} (hctx : E.contexts ctx)
    (hcs : ∀ c ∈ cs, (storedId? c).isSome → E.known ctx.store c) :
    E.simulates.rel (fun f rs => f = .all (rs.filterMap Compiled.query))
      (Worker.merge E.catalog E.translator ctx cs) (cs.mapM fun c => E.anew ctx c ∅) := by
  refine sim_timed (E.simulates.finish (E.simulates.mapM fun c hc => sim_resolve hctx (hcs c hc)) ?_)
  intro as bs h
  rw [asOnPath.queries h]

end

end Epoch

end Merchandising

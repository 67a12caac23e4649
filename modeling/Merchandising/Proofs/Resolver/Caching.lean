/-
  Caching is invisible.

  * a `Scope` is what a run is about: settings, translator, for whom queries are compiled, and which
    categories occur; `Scope.Legible` is what is asked of it, that the keys do not collide and that
    translated rules are read back from their texts;
  * `Scope.epoch` is the epoch of an edition within a scope;
  * `Scope.Holds` ties a team to an edition: every worker that is not stale has a sound desk;
  * `Scope.step`: a step keeps that, and is answered as it is without caches;
  * `caching_invisible`: so is every run.
-/
import Merchandising.Proofs.Resolver.Exact
import Merchandising.Proofs.Resolver.Runs

namespace Merchandising

open Worker (keyOf storedId?)

/-- What a run is about. -/
structure Scope where
  settings : Settings
  translator : Translator
  /-- For whom queries are compiled. -/
  contexts : List Context
  /-- The categories that occur. -/
  categories : List Category

namespace Scope

/-- The scope of a run. -/
def ofRun (settings : Settings) (translator : Translator) (catalog : Catalog) (steps : List Step) :
    Scope :=
  ⟨settings, translator, steps.flatMap Step.contexts,
    catalog.entries ++ steps.flatMap Step.categories⟩

/-- The keys under which queries may be stored. -/
def keys (S : Scope) : List CacheKey :=
  S.contexts.flatMap fun ctx => (S.categories.filterMap Category.id).map (keyOf S.settings ctx)

/-- No two keys collide in the shared tier, and what is stored there is read as it was written. -/
structure Legible (S : Scope) : Prop where
  apart : ∀ k ∈ S.keys, ∀ k' ∈ S.keys, k.NoCollision k'
  exact : ∀ ctx ∈ S.contexts, S.translator.ExactOn S.settings ctx S.categories

/-- An edition that stays within the scope, between two changes. -/
structure Covers (S : Scope) (e : Edition) : Prop where
  catalog : ∀ c ∈ e.catalog.entries, c ∈ S.categories
  passed : ∀ p ∈ e.passed, p.2 ∈ S.categories ∧ (storedId? p.2).isSome
  coherent : e.Coherent

/-- An edition within the scope, if nothing was looked for. -/
theorem Covers.forget {S : Scope} {e : Edition} (he : ∀ c ∈ e.catalog.entries, c ∈ S.categories)
    (hpassed : e.passed = []) : S.Covers e where
  catalog := he
  passed := by simp [hpassed]
  coherent := by constructor <;> simp [hpassed]

/-- What is saved or was looked for is within the scope. -/
theorem Covers.mem {S : Scope} {e : Edition} (he : S.Covers e) {store : StoreId} {c : Category}
    (hc : c ∈ e.catalog.entries ∧ c.store = store ∨ (store, c) ∈ e.passed) : c ∈ S.categories := by
  rcases hc with ⟨hc, -⟩ | hc
  · exact he.catalog c hc
  · exact (he.passed _ hc).1

/-- What stays the same between two changes. -/
def epoch (S : Scope) (hS : S.Legible) (e : Edition) (he : S.Covers e) : Epoch where
  settings := S.settings
  catalog := e.catalog
  translator := S.translator
  stores _ := True
  contexts ctx := ctx ∈ S.contexts
  known store c := (storedId? c).isSome ∧
    (c ∈ e.catalog.entries ∧ c.store = store ∨ (store, c) ∈ e.passed)
  used k := k ∈ S.keys
  stores_contexts _ := trivial
  known_saved c hc hs := ⟨hs, Or.inl ⟨hc, rfl⟩⟩
  known_once := by
    rintro store c c' ⟨hs, hc⟩ ⟨hs', hc'⟩ hid
    rcases hc with ⟨hc, hstore⟩ | hc <;> rcases hc' with ⟨hc', hstore'⟩ | hc'
    · exact Catalog.eq_of_key hc hc' (hstore.trans hstore'.symm) hid
    · exact he.coherent.saved _ hc' c hc hs hstore hid
    · exact (he.coherent.saved _ hc c' hc' hs' hstore' hid.symm).symm
    · exact he.coherent.once _ hc _ hc' rfl hid
  used_known := by
    rintro ctx c id hctx ⟨-, hc⟩ hid
    have hmem : id ∈ S.categories.filterMap Category.id := List.mem_filterMap.2 ⟨c, he.mem hc, hid⟩
    exact List.mem_flatMap.2 ⟨ctx, hctx, List.mem_map_of_mem hmem⟩
  used_once := by
    intro k k' hk hk' h
    exact CacheKey.storageKey_inj (hS.apart k hk k' hk') h
  faithful := by
    rintro ctx c path r stored hctx ⟨-, hc⟩ hr hdecode
    exact StoredQuery.eq_of_decode_encode
      (Fresh.exact_compile (hS.exact ctx hctx) he.catalog (he.mem hc) hr) hdecode

/-- A team at a point of a run: every worker that is not stale has a sound desk. -/
structure Holds (S : Scope) (hS : S.Legible) (e : Edition) (he : S.Covers e) (t : Team) : Prop where
  catalog : t.catalog = e.catalog
  translator : t.translator = S.translator
  workers : t.workers.length = e.workers
  settings : ∀ w ∈ t.workers, w.settings = S.settings
  tagged : t.shared.Tagged S.settings.tag
  sound : ∀ i w, t.workers[i]? = some w → i ∉ e.stale →
    (S.epoch hS e he).Sound ⟨w, t.shared, []⟩

variable {S : Scope} {hS : S.Legible} {e : Edition} {he : S.Covers e} {t : Team}

/-- What is saved after a step is within the scope. -/
theorem Covers.saved (he : S.Covers e) {s : Step} (hs : s.categories ⊆ S.categories) :
    ∀ c ∈ (e.after s).catalog.entries, c ∈ S.categories := by
  intro c hc
  rw [e.catalog_after] at hc
  exact (Step.mem_catalog hc).elim (he.catalog c) fun hc => hs hc

/-- A step that is allowed does not leave the scope. -/
theorem Covers.after (he : S.Covers e) {s : Step} (hs : e.Allows s)
    (hcategories : s.categories ⊆ S.categories) : S.Covers (e.after s) := by
  have hcatalog := he.saved hcategories
  cases s with
  | call i r =>
    refine ⟨hcatalog, fun p hp => ?_, hs.2.2⟩
    rcases List.mem_append.1 hp with hp | hp
    · exact he.passed p hp
    · have hlookup := Request.of_mem_lookups hp
      exact ⟨hcategories hlookup.1, hlookup.2⟩
  | invalidate i => exact ⟨hcatalog, he.passed, he.coherent.saved, he.coherent.once⟩
  | insert c => exact .forget hcatalog rfl
  | remove store id => exact .forget hcatalog rfl

/-! ## Steps -/

/-- A worker that worked leaves its desk. -/
theorem Holds.leave {d : Desk} {i : Nat} (hcatalog : t.catalog = e.catalog)
    (htranslator : t.translator = S.translator) (hworkers : t.workers.length = e.workers)
    (hsettings : ∀ w ∈ t.workers, w.settings = S.settings) (hd : (S.epoch hS e he).Sound d)
    (hothers : ∀ (j : Nat) w, j ≠ i → t.workers[j]? = some w → j ∉ e.stale →
      (S.epoch hS e he).Sound ⟨w, d.shared, []⟩) :
    S.Holds hS e he { t with shared := d.shared, workers := t.workers.set i d.worker } where
  catalog := hcatalog
  translator := htranslator
  workers := (List.length_set ..).trans hworkers
  settings w hw := by
    rcases List.mem_or_eq_of_mem_set hw with hw | rfl
    · exact hsettings w hw
    · exact hd.settings
  tagged := hd.tagged
  sound j w hj hstale := by
    rw [List.getElem?_set] at hj
    split at hj
    · split at hj
      · obtain rfl := Option.some.inj hj
        exact hd.share hd rfl rfl
      · nomatch hj
    · exact hothers j w (Ne.symm ‹_›) hj hstale

/-- A call is answered as it is without caches, and leaves sound desks. -/
theorem Holds.call (h : S.Holds hS e he t) {i : Nat} {r : Request} (hr : e.Allows (.call i r))
    (hctx : r.contexts ⊆ S.contexts) (he' : S.Covers (e.after (.call i r))) :
    S.Holds hS _ he' (t.step (.call i r)).2 ∧
      (t.step (.call i r)).1 = some (r.anew S.settings e.catalog S.translator) := by
  have ⟨hi, hstale, _⟩ := hr
  rw [← h.workers] at hi
  have hw : t.workers[i]? = some t.workers[i] := List.getElem?_eq_getElem hi
  have hsound : ∀ (j : Nat) w, t.workers[j]? = some w →
      (S.epoch hS _ he').Sound ⟨w, t.shared, []⟩ := by
    intro j w hj
    refine (h.sound j w hj (by simp [hstale])).mono rfl rfl rfl (fun _ hs => hs)
      (fun store c hc => ?_) fun _ hk => hk
    exact ⟨hc.1, hc.2.imp_right fun hp => List.mem_append_left _ hp⟩
  have hknown : ∀ p ∈ r.lookups, (S.epoch hS _ he').known p.1 p.2 := fun p hp =>
    ⟨(Request.of_mem_lookups hp).2, Or.inr (List.mem_append_right _ hp)⟩
  obtain ⟨hafter, hanswer⟩ :=
    Epoch.sim_request (fun _ hc => hctx hc) (fun _ _ _ => trivial) hknown _ (hsound i _ hw)
  have hwork : r.work t.catalog t.translator = r.work e.catalog S.translator := by
    rw [h.catalog, h.translator]
  rw [Team.step_call hw, hwork]
  exact ⟨Holds.leave h.catalog h.translator h.workers h.settings hafter fun j w _ hj _ =>
    (hsound j w hj).share hafter rfl rfl, congrArg some (related_eq.1 hanswer)⟩

/-- An invalidation leaves an empty desk, and an empty shared tier to the others. -/
theorem Holds.invalidate (h : S.Holds hS e he t) (i : Nat)
    (he' : S.Covers (e.after (.invalidate i))) :
    S.Holds hS _ he' (t.step (.invalidate i)).2 ∧ (t.step (.invalidate i)).1 = none := by
  have hothers : ∀ (j : Nat) w, j ≠ i → t.workers[j]? = some w →
      j ∉ (e.after (.invalidate i)).stale → (S.epoch hS _ he').Sound ⟨w, t.shared, []⟩ := by
    intro j w hne hj hstale
    have hold : j ∉ e.stale := fun hj' => hstale (List.mem_filter.2 ⟨hj', by simpa using hne⟩)
    exact (h.sound j w hj hold).mono rfl rfl rfl (fun _ h => h) (fun _ _ hc => hc) fun _ hk => hk
  cases hw : t.workers[i]? with
  | none =>
    rw [Team.step_of_none hw (Or.inl rfl)]
    refine ⟨⟨h.catalog, h.translator, h.workers, h.settings, h.tagged, ?_⟩, rfl⟩
    intro j w hj hstale
    refine hothers j w ?_ hj hstale
    rintro rfl
    simp [hw] at hj
  | some w =>
    rw [Team.step_invalidate hw]
    have hafter : (S.epoch hS _ he').Sound (Worker.invalidate.outcome ⟨w, t.shared, []⟩).2 :=
      Epoch.sound_invalidate (h.settings w (List.mem_of_getElem? hw)) h.tagged
    refine ⟨Holds.leave h.catalog h.translator h.workers h.settings hafter ?_, rfl⟩
    intro j w' hne hj hstale
    exact (hothers j w' hne hj hstale).share hafter rfl rfl

/-- A change of the catalog leaves all workers stale. -/
theorem Holds.change (h : S.Holds hS e he t) (catalog : Catalog)
    (he' : S.Covers ⟨e.workers, catalog, List.range e.workers, []⟩) :
    S.Holds hS _ he' { t with catalog } where
  catalog := rfl
  translator := h.translator
  workers := h.workers
  settings := h.settings
  tagged := h.tagged
  sound i w hi hstale := by
    have hi := (List.getElem?_eq_some_iff.1 hi).1
    exact absurd (List.mem_range.2 (h.workers ▸ hi)) hstale

/-- **A step is answered as it is without caches, and leaves sound desks.** -/
theorem Holds.step (h : S.Holds hS e he t) {s : Step} (hs : e.Allows s)
    (hctx : s.contexts ⊆ S.contexts) (he' : S.Covers (e.after s)) :
    S.Holds hS _ he' (t.step s).2 ∧ (t.step s).1 = s.anew S.settings S.translator e.catalog := by
  cases s with
  | call i r => exact h.call hs hctx he'
  | invalidate i => exact h.invalidate i he'
  | insert c =>
    rw [Team.step, Team.insert, h.catalog]
    exact ⟨h.change _ he', rfl⟩
  | remove store id =>
    rw [Team.step, Team.remove, h.catalog]
    exact ⟨h.change _ he', rfl⟩

/-! ## Runs -/

/-- What is so at a point of a run is so to its end: every answer is as it is without caches. -/
theorem Holds.run (steps : List Step) {e : Edition} {he : S.Covers e} {t : Team}
    (h : S.Holds hS e he t) (hsteps : e.AllowsAll steps)
    (hctx : steps.flatMap Step.contexts ⊆ S.contexts)
    (hcategories : steps.flatMap Step.categories ⊆ S.categories) :
    t.run steps = answersAnew S.settings S.translator e.catalog steps := by
  induction steps generalizing e t with
  | nil => rfl
  | cons s rest ih =>
    rw [List.flatMap_cons, List.append_subset] at hctx hcategories
    obtain ⟨hs, hrest⟩ := hsteps
    have he' := he.after hs hcategories.1
    obtain ⟨h', hanswer⟩ := h.step hs hctx.1 he'
    rw [Team.run, answersAnew, hanswer, ih h' hrest hctx.2 hcategories.2, e.catalog_after]

/-- A run starts within its scope. -/
theorem covers_start (settings : Settings) (translator : Translator) (catalog : Catalog) (n : Nat)
    (steps : List Step) :
    (ofRun settings translator catalog steps).Covers (.start n catalog) :=
  .forget (fun _ hc => List.mem_append_left _ hc) rfl

/-- Workers that have not worked yet have sound desks. -/
theorem Holds.start {n : Nat} {catalog : Catalog} (he : S.Covers (.start n catalog)) :
    S.Holds hS _ he (.start catalog S.translator (List.replicate n S.settings)) where
  catalog := rfl
  translator := rfl
  workers := by simp [Team.start, Edition.start]
  settings w hw := by
    obtain ⟨settings, hs, rfl⟩ := List.mem_map.1 hw
    exact List.eq_of_mem_replicate hs
  tagged := by simp [Team.start, SharedCache.Tagged, SharedCache.load?, SharedCache.empty]
  sound i w hw _ := by
    obtain ⟨settings, hs, rfl⟩ := List.mem_map.1 (List.mem_of_getElem? hw)
    refine .of_empty (List.eq_of_mem_replicate hs) rfl rfl fun key => ?_
    simp [Team.start, SharedCache.load?, SharedCache.empty]

end Scope

/-- **Caching is invisible.**  However many workers share one tier, whatever they are asked for and
    in which order, every answer is the one without caches, failures included, from the catalog of
    its time.  After a change of the catalog all workers have to invalidate before one is called;
    between two changes the categories that are looked for agree with the saved ones and with each
    other.  The keys of the run must not collide, and the doubles of translated rules must be
    finite and read back: an infinite bound is written as a null, and would be read as no bound. -/
theorem Team.caching_invisible (settings : Settings) (translator : Translator) (catalog : Catalog)
    (n : Nat) (steps : List Step) (hallows : (Edition.start n catalog).AllowsAll steps)
    (hlegible : (Scope.ofRun settings translator catalog steps).Legible) :
    (Team.start catalog translator (List.replicate n settings)).run steps =
      answersAnew settings translator catalog steps := by
  have he := Scope.covers_start settings translator catalog n steps
  have hholds : Scope.Holds _ hlegible _ he
      (.start catalog translator (List.replicate n settings)) := .start he
  exact hholds.run steps hallows (List.Subset.refl _) (List.subset_append_right ..)

/-- Two workers, and two virtual categories that are the virtual roots of each other, one of which
    is saved with another name. -/
theorem Team.caching_invisible_renamed :
    let costly : Rule := .ofConditions .all [⟨"price", .atLeast, .single (.float 1.5)⟩]
    let sale := { Category.ofPath 4 "Sale" [1, 2, 4] with isVirtual := true, virtualRoot := some 3 }
    let red := { Category.ofPath 3 "Red" [1, 2, 3] with
      isVirtual := true, virtualRoot := some 4, rule := costly }
    let crimson := { red with name := "Crimson" }
    let t : Translator := ⟨.standard, none, none, fun _ => .exact, 0⟩
    let catalog := Catalog.ofList [red, sale]
    let steps : List Step := [.call 0 (.query ⟨0, 1⟩ red), .call 1 (.query ⟨0, 1⟩ sale),
      .insert crimson, .invalidate 1, .invalidate 0, .call 1 (.resolve ⟨0, 1⟩ sale (.ofList [4]))]
    (Team.start catalog t (List.replicate 2 .standard)).run steps =
      answersAnew .standard t catalog steps := by
  intro costly sale red crimson t catalog steps
  refine Team.caching_invisible _ _ _ 2 _ ?_ ⟨?_, ?_⟩
  · refine ⟨⟨by decide, rfl, .of_saved ?_⟩, ⟨by decide, rfl, .of_saved ?_⟩, trivial, trivial,
      trivial, ⟨by decide, rfl, .of_saved ?_⟩, trivial⟩
    · show ∀ p ∈ [((0 : StoreId), red)], p.2 ∈ [red, sale] ∧ p.2.store = p.1
      simp [red, sale, Category.ofPath]
    · show ∀ p ∈ [((0 : StoreId), red), (0, sale)], p.2 ∈ [red, sale] ∧ p.2.store = p.1
      simp [red, sale, Category.ofPath]
    · show ∀ p ∈ [((0 : StoreId), sale)], p.2 ∈ [crimson, sale] ∧ p.2.store = p.1
      simp [sale, Category.ofPath]
  · have hkeys : (Scope.ofRun .standard t catalog steps).keys ⊆
        [keyOf .standard ⟨0, 1⟩ 3, keyOf .standard ⟨0, 1⟩ 4] := by decide
    have hdigests : ([keyOf .standard ⟨0, 1⟩ 3, keyOf .standard ⟨0, 1⟩ 4].map
        fun k => Digest.sha256Hex k.text).Nodup := by decide +kernel
    exact fun k hk k' hk' => .of_nodup hdigests (hkeys hk) (hkeys hk')
  · intro ctx hctx
    refine .of_rules (by decide) fun c hc f hf => ?_
    have hrule : c.rule = costly ∨ c.rule = .empty := by
      have hmem : c.rule ∈ [costly, .empty, costly, .empty, costly, .empty] :=
        List.mem_map_of_mem (f := Category.rule) hc
      simp only [List.mem_cons, List.not_mem_nil, or_false] at hmem
      tauto
    rcases hrule with hr | hr
    · rw [hr] at hf
      obtain rfl : _ = f := Option.some.inj (Except.ok.inj hf)
      show ∀ x ∈ [(1.5 : Float)], x.isFinite = true ∧ Json.ReadsBack (.float x)
      exact List.forall_mem_singleton.2 ⟨by decide +kernel, Json.readsBack_three_halves⟩
    · rw [hr] at hf
      nomatch hf

end Merchandising

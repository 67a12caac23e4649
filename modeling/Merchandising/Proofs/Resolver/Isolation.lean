/-
  Stores and groups of customers do not show in each other's answers.

  * `Step.requestFor?` is the request of a step that is for a store and a group, and
    `Team.answersFor` are the answers of a run to these requests;
  * `Catalog.AdmitsAll` is a run that leaves the categories of the store as they are, and asks for
    the store and the group only with saved categories of the store, drafts, or unsaved ones;
  * `Scope.Isolates` is a team all of whose desks are right about the store and the group;
  * `Isolates.step`: an admitted step keeps that, and answers a request for the store and the group
    as it is answered without caches;
  * `Team.stores_isolated`: so the answers are the same in two runs that have nothing but these
    requests in common.
-/
import Merchandising.Proofs.Resolver.Alike
import Merchandising.Proofs.Resolver.Caching
import Merchandising.Proofs.Resolver.Foreign

namespace Merchandising

open Worker (keyOf storedId? RootsWithin)

/-! ## Runs, as a store and a group see them -/

/-- The request of a step, if it is for a store and a group. -/
def Step.requestFor? (ctx : Context) : Step → Option Request
  | .call _ r => if ctx ∈ r.contexts then some r else none
  | _ => none

theorem Step.mem_contexts_of_requestFor? {ctx : Context} {s : Step} {r : Request}
    (h : s.requestFor? ctx = some r) : ctx ∈ r.contexts := by
  cases s with
  | call i r' =>
    rw [requestFor?] at h
    split at h
    · exact Option.some.inj h ▸ ‹_›
    · nomatch h
  | invalidate _ | insert _ | remove _ _ => nomatch h

/-- The answers of a run to the requests for a store and a group. -/
def Team.answersFor (ctx : Context) (t : Team) : List Step → List (Except Failure Answer)
  | [] => []
  | s :: rest =>
    (if (s.requestFor? ctx).isSome then (t.step s).1.toList else []) ++
      (t.step s).2.answersFor ctx rest

namespace Catalog

/-- A step that leaves the categories of the store as they are.  If it is a request for the store
    and the group, it is to one of `n` workers, and passes categories that are saved in the store,
    drafts, or unsaved ones. -/
structure Admits (ctx : Context) (n : Nat) (catalog : Catalog) (s : Step) : Prop where
  unchanged : catalog.AlikeIn ctx.store (s.catalog catalog)
  worker : ∀ i r, s = .call i r → ctx ∈ r.contexts → i < n
  saved : ∀ r, s.requestFor? ctx = some r → r.Saved catalog

section
variable {ctx : Context} {n : Nat} (catalog : Catalog)

theorem Admits.call {i : Nat} {r : Request} (hi : i < n) (hr : r.Saved catalog) :
    catalog.Admits ctx n (.call i r) where
  unchanged _ _ := Iff.rfl
  worker := by
    rintro _ _ ⟨⟩ -
    exact hi
  saved r' h := by
    rw [Step.requestFor?] at h
    split at h
    · exact Option.some.inj h ▸ hr
    · nomatch h

theorem Admits.foreign (i : Nat) {r : Request} (hr : ctx ∉ r.contexts) :
    catalog.Admits ctx n (.call i r) where
  unchanged _ _ := Iff.rfl
  worker := by
    rintro _ _ ⟨⟩ h
    exact absurd h hr
  saved r' h := by
    rw [Step.requestFor?, if_neg hr] at h
    nomatch h

theorem Admits.of_unchanged {s : Step} (hs : catalog.AlikeIn ctx.store (s.catalog catalog))
    (hcall : ∀ i r, s ≠ .call i r) : catalog.Admits ctx n s where
  unchanged := hs
  worker i r h := absurd h (hcall i r)
  saved r h := by
    cases s with
    | call i r' => exact absurd rfl (hcall i r')
    | invalidate _ | insert _ | remove _ _ => nomatch h

theorem Admits.invalidate (i : Nat) : catalog.Admits ctx n (.invalidate i) :=
  .of_unchanged catalog (fun _ _ => Iff.rfl) (by simp)

theorem Admits.insert {c : Category} (hc : c.store ≠ ctx.store) :
    catalog.Admits ctx n (.insert c) :=
  .of_unchanged catalog (alikeIn_insert catalog hc) (by simp)

theorem Admits.remove {store : StoreId} (hs : store ≠ ctx.store) (id : CategoryId) :
    catalog.Admits ctx n (.remove store id) :=
  .of_unchanged catalog (alikeIn_remove catalog id hs) (by simp)

end

/-- Every step of a run is admitted. -/
def AdmitsAll (ctx : Context) (n : Nat) : Catalog → List Step → Prop
  | _, [] => True
  | catalog, s :: rest => catalog.Admits ctx n s ∧ (s.catalog catalog).AdmitsAll ctx n rest

end Catalog

/-! ## Teams -/

theorem Request.eq_of_mem_contexts {r : Request} {ctx ctx' : Context} (h : ctx ∈ r.contexts)
    (h' : ctx' ∈ r.contexts) : ctx' = ctx := by
  cases r with
  | query _ _ | resolve _ _ _ | build _ _ _ | merge _ _ =>
    exact (List.mem_singleton.1 h').trans (List.mem_singleton.1 h).symm
  | virtualRoot _ _ => nomatch h

namespace Scope

/-- What one store and group may rely on while the catalog does not change. -/
def epochFor (S : Scope) (hS : S.Legible) (ctx : Context) {catalog : Catalog}
    (hcatalog : ∀ c ∈ catalog.entries, c ∈ S.categories) : Epoch :=
  (S.epoch hS (.start 0 catalog) (.forget hcatalog rfl)).only ctx

/-- A team of `n` workers whose desks are all right about the store and the group. -/
structure Isolates (S : Scope) (hS : S.Legible) (ctx : Context) (n : Nat) {catalog : Catalog}
    (hcatalog : ∀ c ∈ catalog.entries, c ∈ S.categories) (t : Team) : Prop where
  catalog : t.catalog = catalog
  translator : t.translator = S.translator
  workers : t.workers.length = n
  desks : ∀ w ∈ t.workers, (S.epochFor hS ctx hcatalog).Sound ⟨w, t.shared, []⟩ ∧
    RootsWithin (· ∈ S.categories) ⟨w, t.shared, []⟩

variable {S : Scope} {hS : S.Legible} {ctx : Context} {n : Nat} {catalog : Catalog}
  {hcatalog : ∀ c ∈ catalog.entries, c ∈ S.categories} {t : Team}

/-- The keys of other contexts do not collide with those of the store and the group. -/
theorem storageKey_ne {ctx' : Context} (hctx' : ctx' ∈ S.contexts) (hne : ctx' ≠ ctx) {c : Category}
    {id : CategoryId} (hc : c ∈ S.categories) (hid : storedId? c = some id) {k : CacheKey}
    (hk : (S.epochFor hS ctx hcatalog).used k) :
    k.storageKey ≠ (keyOf S.settings ctx' id).storageKey := by
  obtain ⟨hk, hstore, hgroup⟩ := hk
  intro h
  have hmem : id ∈ S.categories.filterMap Category.id :=
    List.mem_filterMap.2 ⟨c, hc, Worker.id_of_storedId? hid⟩
  have hk' : keyOf S.settings ctx' id ∈ S.keys :=
    List.mem_flatMap.2 ⟨ctx', hctx', List.mem_map_of_mem hmem⟩
  obtain rfl := (S.epoch hS (.start 0 catalog) (.forget hcatalog rfl)).used_once hk hk' h
  obtain ⟨store, group⟩ := ctx'
  obtain ⟨store', group'⟩ := ctx
  obtain rfl : store = store' := hstore
  obtain rfl : group = group' := hgroup
  exact hne rfl

/-- A worker that worked leaves its desk. -/
theorem Isolates.leave (h : S.Isolates hS ctx n hcatalog t) {d : Desk}
    (hd : (S.epochFor hS ctx hcatalog).Sound d) (hroots : RootsWithin (· ∈ S.categories) d)
    (i : Nat) : S.Isolates hS ctx n hcatalog
      { t with shared := d.shared, workers := t.workers.set i d.worker } where
  catalog := h.catalog
  translator := h.translator
  workers := (List.length_set ..).trans h.workers
  desks w hw := by
    rcases List.mem_or_eq_of_mem_set hw with hw | rfl
    · exact ⟨(h.desks w hw).1.share hd rfl rfl, (h.desks w hw).2⟩
    · exact ⟨hd.share hd rfl rfl, hroots⟩

theorem Isolates.work_eq (h : S.Isolates hS ctx n hcatalog t) (r : Request) :
    r.work t.catalog t.translator = r.work catalog S.translator := by
  rw [h.catalog, h.translator]

/-- Requests for others leave all desks right. -/
theorem Isolates.foreign (h : S.Isolates hS ctx n hcatalog t) (i : Nat) {r : Request}
    (hr : ctx ∉ r.contexts) (hctx : r.contexts ⊆ S.contexts)
    (hcategories : r.categories ⊆ S.categories) :
    S.Isolates hS ctx n hcatalog (t.step (.call i r)).2 := by
  cases hw : t.workers[i]? with
  | none =>
    rw [Team.step_of_none hw (Or.inr ⟨r, rfl⟩)]
    exact h
  | some w =>
    have hframe : ∀ ctx' ∈ r.contexts, Worker.Frame
        (fun d => (S.epochFor hS ctx hcatalog).Sound d ∧ RootsWithin (· ∈ S.categories) d)
        (· ∈ S.categories) S.settings catalog ctx' := by
      intro ctx' hctx'
      refine Worker.Frame.foreign hcatalog rfl fun c id hc hid k hk => ?_
      refine storageKey_ne (hctx hctx') ?_ hc hid hk
      rintro rfl
      exact hr hctx'
    have hafter := Worker.Frame.keeps_request S.translator hframe
      (fun store c _ hd => ⟨hd.1.virtualRoot store c, hd.2.virtualRoot hcatalog store c⟩)
      (fun c hc => hcategories hc) _ (h.desks w (List.mem_of_getElem? hw))
    rw [Team.step_call hw, h.work_eq]
    exact h.leave hafter.1 hafter.2 i

/-- A request for the store and the group is answered as it is without caches. -/
theorem Isolates.call (h : S.Isolates hS ctx n hcatalog t) {i : Nat} (hi : i < n) {r : Request}
    (hr : ctx ∈ r.contexts) (hctx : r.contexts ⊆ S.contexts)
    (hcategories : r.categories ⊆ S.categories) (hsaved : r.Saved catalog) :
    S.Isolates hS ctx n hcatalog (t.step (.call i r)).2 ∧
      (t.step (.call i r)).1 = some (r.anew S.settings catalog S.translator) := by
  rw [← h.workers] at hi
  have hw : t.workers[i]? = some t.workers[i] := List.getElem?_eq_getElem hi
  have ⟨hsound, hroots⟩ := h.desks _ (List.mem_of_getElem? hw)
  have hcontexts : ∀ ctx' ∈ r.contexts, (S.epochFor hS ctx hcatalog).contexts ctx' :=
    fun ctx' hctx' => ⟨hctx hctx', Request.eq_of_mem_contexts hr hctx'⟩
  have hstores : ∀ store c, r = .virtualRoot store c →
      (S.epochFor hS ctx hcatalog).stores store := by
    rintro store c rfl
    nomatch hr
  have hknown : ∀ p ∈ r.lookups, (S.epochFor hS ctx hcatalog).known p.1 p.2 :=
    fun p hp => ⟨(Request.of_mem_lookups hp).2, Or.inl (hsaved p hp)⟩
  obtain ⟨hafter, hanswer⟩ := Epoch.sim_request hcontexts hstores hknown _ hsound
  have hkept := Worker.Frame.keeps_request S.translator
    (fun ctx' _ => Worker.Frame.rootsWithin hcatalog S.settings ctx')
    (fun store => (Worker.Frame.rootsWithin hcatalog S.settings ⟨store, 0⟩).root)
    (fun c hc => hcategories hc) _ ⟨hsound.settings, hroots⟩
  rw [Team.step_call hw, h.work_eq]
  exact ⟨h.leave hafter hkept.2 i, congrArg some (related_eq.1 hanswer)⟩

/-- An invalidation leaves empty desks. -/
theorem Isolates.invalidate (h : S.Isolates hS ctx n hcatalog t) (i : Nat) :
    S.Isolates hS ctx n hcatalog (t.step (.invalidate i)).2 := by
  cases hw : t.workers[i]? with
  | none =>
    rw [Team.step_of_none hw (Or.inl rfl)]
    exact h
  | some w =>
    have ⟨hsound, hroots⟩ := h.desks w (List.mem_of_getElem? hw)
    obtain ⟨-, -, hworker⟩ := Worker.invalidate_spec ⟨w, t.shared, []⟩
    rw [Team.step_invalidate hw]
    refine h.leave (Epoch.sound_invalidate hsound.settings hsound.tagged) ?_ i
    simp [RootsWithin, hworker]

/-- A change of the catalog that leaves the categories of the store as they are. -/
theorem Isolates.change (h : S.Isolates hS ctx n hcatalog t) {catalog' : Catalog}
    (halike : catalog.AlikeIn ctx.store catalog')
    (hcatalog' : ∀ c ∈ catalog'.entries, c ∈ S.categories) :
    S.Isolates hS ctx n hcatalog' { t with catalog := catalog' } := by
  refine ⟨rfl, h.translator, h.workers, fun w hw => ⟨?_, (h.desks w hw).2⟩⟩
  refine (h.desks w hw).1.transfer rfl ?_ ?_
  · rintro store rfl
    exact ⟨rfl, fun id => congrArg (Option.filter _) (halike.load?_eq id)⟩
  · rintro ⟨function, store, category, group, hides⟩ ⟨hk, rfl, rfl⟩
    refine ⟨⟨hk, rfl, rfl⟩, ?_⟩
    rintro e ⟨c, ⟨hstored, hc⟩, hid, hgood⟩
    have hc : c ∈ catalog.entries ∧ c.store = ctx.store :=
      hc.resolve_right (by simp [Edition.start])
    refine ⟨c, ⟨hstored, Or.inl ⟨(halike c hc.2).1 hc.1, hc.2⟩⟩, hid, fun path hpath => ?_⟩
    have hanew : Fresh.compile S.settings catalog S.translator ctx =
        Fresh.compile S.settings catalog' S.translator ctx :=
      Fresh.compile_alike ⟨rfl, rfl, rfl⟩ halike S.translator
    obtain ⟨r, hr, hr'⟩ := hgood path hpath
    exact ⟨r, (congrFun (congrFun hanew c) path).symm.trans hr, hr'⟩

/-- **An admitted step leaves all desks right, and answers a request for the store and the group as
    it is answered without caches.** -/
theorem Isolates.step (h : S.Isolates hS ctx n hcatalog t) {s : Step}
    (hs : catalog.Admits ctx n s) (hctx : s.contexts ⊆ S.contexts)
    (hcategories : s.categories ⊆ S.categories)
    (hcatalog' : ∀ c ∈ (s.catalog catalog).entries, c ∈ S.categories) :
    S.Isolates hS ctx n hcatalog' (t.step s).2 ∧ ∀ r, s.requestFor? ctx = some r →
      (t.step s).1 = some (r.anew S.settings catalog S.translator) := by
  cases s with
  | call i r =>
    by_cases hr : ctx ∈ r.contexts
    · have hrequest : (Step.call i r).requestFor? ctx = some r := if_pos hr
      have hsaved := hs.saved r hrequest
      obtain ⟨h', hanswer⟩ := h.call (hs.worker i r rfl hr) hr hctx hcategories hsaved
      refine ⟨h', fun r' hr' => ?_⟩
      obtain rfl : r = r' := Option.some.inj (hrequest.symm.trans hr')
      exact hanswer
    · refine ⟨h.foreign i hr hctx hcategories, fun r' hr' => ?_⟩
      rw [Step.requestFor?, if_neg hr] at hr'
      cases hr'
  | invalidate i => exact ⟨h.invalidate i, by simp [Step.requestFor?]⟩
  | insert c =>
    rw [Team.step, Team.insert, h.catalog]
    exact ⟨h.change hs.unchanged hcatalog', by simp [Step.requestFor?]⟩
  | remove store id =>
    rw [Team.step, Team.remove, h.catalog]
    exact ⟨h.change hs.unchanged hcatalog', by simp [Step.requestFor?]⟩

/-! ## Runs -/

theorem Isolates.run (steps : List Step) {catalog : Catalog}
    {hcatalog : ∀ c ∈ catalog.entries, c ∈ S.categories} {t : Team}
    (h : S.Isolates hS ctx n hcatalog t) (hsteps : catalog.AdmitsAll ctx n steps)
    (hctx : steps.flatMap Step.contexts ⊆ S.contexts)
    (hcategories : steps.flatMap Step.categories ⊆ S.categories) :
    t.answersFor ctx steps = (steps.filterMap (Step.requestFor? ctx)).map
      (Request.anew S.settings catalog S.translator) := by
  induction steps generalizing catalog t with
  | nil => rfl
  | cons s rest ih =>
    rw [List.flatMap_cons, List.append_subset] at hctx hcategories
    obtain ⟨hs, hrest⟩ := hsteps
    obtain ⟨h', hanswer⟩ := h.step hs hctx.1 hcategories.1 fun c hc =>
      (Step.mem_catalog hc).elim (hcatalog c) fun hc => hcategories.1 hc
    have halike : (rest.filterMap (Step.requestFor? ctx)).map
        (Request.anew S.settings (s.catalog catalog) S.translator) =
        (rest.filterMap (Step.requestFor? ctx)).map
          (Request.anew S.settings catalog S.translator) := by
      refine List.map_congr_left fun r hr => ?_
      obtain ⟨s', -, hs'⟩ := List.mem_filterMap.1 hr
      exact (Request.anew_alike ⟨rfl, rfl, rfl⟩ hs.unchanged S.translator
        (Step.mem_contexts_of_requestFor? hs')).symm
    rw [Team.answersFor, ih h' hrest hctx.2 hcategories.2, halike]
    cases hr : s.requestFor? ctx with
    | none =>
      rw [List.filterMap_cons_none hr]
      rfl
    | some r =>
      rw [List.filterMap_cons_some hr, hanswer r hr]
      rfl

/-- Workers that have not worked yet have empty desks. -/
theorem Isolates.start (S : Scope) (hS : S.Legible) (ctx : Context) (n : Nat) {catalog : Catalog}
    (hcatalog : ∀ c ∈ catalog.entries, c ∈ S.categories) :
    S.Isolates hS ctx n hcatalog
      (.start catalog S.translator (List.replicate n S.settings)) := by
  refine ⟨rfl, rfl, by simp [Team.start], fun w hw => ?_⟩
  obtain ⟨settings, hsettings, rfl⟩ := List.mem_map.1 hw
  refine ⟨.of_empty (List.eq_of_mem_replicate hsettings) rfl rfl fun key => ?_, ?_⟩
  · simp [Team.start, SharedCache.load?, SharedCache.empty]
  · simp [RootsWithin, Worker.ofSettings]

end Scope

/-- In an admitted run the store and the group get the answers without caches. -/
theorem Team.answersFor_eq {settings : Settings} {translator : Translator} {catalog : Catalog}
    {ctx : Context} {n : Nat} {steps : List Step} (hsteps : catalog.AdmitsAll ctx n steps)
    (hlegible : (Scope.ofRun settings translator catalog steps).Legible) :
    (Team.start catalog translator (List.replicate n settings)).answersFor ctx steps =
      (steps.filterMap (Step.requestFor? ctx)).map (Request.anew settings catalog translator) := by
  have hcatalog := fun c (hc : c ∈ catalog.entries) =>
    List.mem_append_left (steps.flatMap Step.categories) hc
  have hstart := Scope.Isolates.start _ hlegible ctx n hcatalog
  exact hstart.run steps hsteps (List.Subset.refl _) (List.subset_append_right ..)

/-- **Stores and groups of customers do not leak into each other.**  In two runs over catalogs that
    hold the same, unchanging categories for a store, with settings that are alike in it, the same
    requests for the store and a group get the same answers, failures included, and none of them
    stays without one.  Whatever else happens may differ: requests for other stores or groups,
    changes of the catalog for other stores without any invalidation, invalidations, what the local
    tiers keep, how many workers there are and which of them is called.

    In each run the storage keys are not to collide, and the doubles of the translated rules are to
    be finite and read back. -/
theorem Team.stores_isolated (ctx : Context) (translator : Translator)
    (settings settings' : Settings) (catalog catalog' : Catalog) (n n' : Nat)
    (steps steps' : List Step)
    (hsettings : settings.AlikeIn ctx.store settings')
    (hcatalog : catalog.AlikeIn ctx.store catalog')
    (hsteps : catalog.AdmitsAll ctx n steps) (hsteps' : catalog'.AdmitsAll ctx n' steps')
    (hsame : steps.filterMap (Step.requestFor? ctx) = steps'.filterMap (Step.requestFor? ctx))
    (hlegible : (Scope.ofRun settings translator catalog steps).Legible)
    (hlegible' : (Scope.ofRun settings' translator catalog' steps').Legible) :
    let answers := (start catalog translator (List.replicate n settings)).answersFor ctx steps
    answers = (start catalog' translator (List.replicate n' settings')).answersFor ctx steps' ∧
      answers.length = (steps.filterMap (Step.requestFor? ctx)).length := by
  intro answers
  have hanswers : answers = _ := answersFor_eq hsteps hlegible
  rw [hanswers, answersFor_eq hsteps' hlegible', ← hsame]
  refine ⟨List.map_congr_left fun r hr => ?_, List.length_map _⟩
  obtain ⟨s, -, hs⟩ := List.mem_filterMap.1 hr
  exact Request.anew_alike hsettings hcatalog translator (Step.mem_contexts_of_requestFor? hs)

/-- A category whose id is taken by a category of another store, which is changed in one run, and a
    group that is asked for in the other one. -/
theorem Team.stores_isolated_sale :
    let sale := { Category.ofPath 3 "Sale" [1, 2, 3] with store := 1, isVirtual := true }
    let outlet := { Category.ofPath 3 "Outlet" [1, 3] with store := 2 }
    let t : Translator := ⟨.standard, none, none, fun _ => .exact, 0⟩
    let catalog := Catalog.ofList [sale]
    let other := { Settings.standard with capacity := 1, overrides := [(2, true)] }
    let steps : List Step := [.call 0 (.query ⟨1, 1⟩ sale), .insert outlet,
      .call 0 (.query ⟨2, 1⟩ outlet), .remove 2 3, .call 0 (.query ⟨1, 1⟩ sale)]
    let steps' : List Step := [.call 0 (.query ⟨1, 2⟩ sale), .call 1 (.query ⟨1, 1⟩ sale),
      .invalidate 1, .call 0 (.query ⟨1, 1⟩ sale)]
    (start catalog t (List.replicate 1 .standard)).answersFor ⟨1, 1⟩ steps =
      (start (catalog.insert outlet) t (List.replicate 2 other)).answersFor ⟨1, 1⟩ steps' := by
  intro sale outlet t catalog other steps steps'
  have hsaved : ∀ catalog : Catalog, sale ∈ catalog.entries →
      (Request.query ⟨1, 1⟩ sale).Saved catalog := by
    intro catalog hsale p hp
    obtain rfl := List.mem_singleton.1 hp
    exact ⟨hsale, rfl⟩
  have hdigests : ([keyOf .standard ⟨1, 1⟩ 3, keyOf .standard ⟨2, 1⟩ 3,
      keyOf .standard ⟨1, 2⟩ 3].map fun k => Digest.sha256Hex k.text).Nodup := by
    decide +kernel
  have hlegible : ∀ {S : Scope}, S.translator = t → S.settings.categoryField = "category_ids" →
      S.keys ⊆ [keyOf .standard ⟨1, 1⟩ 3, keyOf .standard ⟨2, 1⟩ 3, keyOf .standard ⟨1, 2⟩ 3] →
      (∀ c ∈ S.categories, c.rule = .empty) → S.Legible := by
    intro S ht hfield hkeys hrules
    refine ⟨fun k hk k' hk' => ?_, fun ctx _ => .of_rules ?_ fun c hc f hf => ?_⟩
    · exact .of_nodup hdigests (hkeys hk) (hkeys hk')
    · rw [ht, hfield]
      decide
    · rw [ht, hrules c hc] at hf
      nomatch hf
  have hempty : ∀ {cs : List Category}, cs.map Category.rule = List.replicate 5 .empty →
      ∀ c ∈ cs, c.rule = .empty := by
    intro cs hcs c hc
    exact List.eq_of_mem_replicate (hcs ▸ List.mem_map_of_mem (f := Category.rule) hc)
  refine (Team.stores_isolated ⟨1, 1⟩ t .standard other catalog (catalog.insert outlet) 1 2 steps
    steps' (Settings.alikeIn_of_overrides _ 1 rfl) (Catalog.alikeIn_insert _ (by decide)) ?_ ?_ rfl
    (hlegible rfl rfl (by decide) ?_) (hlegible rfl rfl (by decide) ?_)).1
  · exact ⟨.call _ (by decide) (hsaved _ List.mem_cons_self), .insert _ (by decide),
      .foreign _ 0 (by decide), .remove _ (by decide) 3,
      .call _ (by decide) (hsaved _ List.mem_cons_self), trivial⟩
  · exact ⟨.foreign _ 0 (by decide), .call _ (by decide) (hsaved _ List.mem_cons_self),
      .invalidate _ 1, .call _ (by decide) (hsaved _ List.mem_cons_self), trivial⟩
  · exact hempty rfl
  · exact hempty rfl

end Merchandising

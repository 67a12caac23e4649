/-
  Invalidation across workers.

  * `Team.after` is a team after some steps, `Edition.followAll` what matters there for what comes
    next;
  * a part of a run is orderly (`Edition.OrderlyAll`) if, as long as some workers have invalidated
    since the last change of the catalog and others have not, only the former are called;
  * `Scope.Holds.outdated`: any run keeps the settings of the workers and the tags of the texts;
  * `Scope.Holds.orderly`: an orderly run leaves sound desks to all workers that have invalidated;
  * `Team.invalidation_reaches_all`: after an orderly run, whatever was before it, they answer as a
    worker that is new;
  * `Outdated` are two categories, one within the other, and a run that is not orderly.

  A worker that has not invalidated compiles from what it holds of the earlier catalog, and stores
  the result in the shared tier; one that has invalidated takes it from there, and keeps it when the
  other one invalidates at last (`Team.outdated_query_kept`).
-/
import Merchandising.Proofs.Resolver.Caching
import Merchandising.Proofs.Resolver.Frame
import Merchandising.Proofs.Resolver.Lookup

namespace Merchandising

open Worker (keyOf storedId?)

/-! ## Orderly runs -/

/-- The team after some steps. -/
def Team.after (t : Team) (steps : List Step) : Team :=
  steps.foldl (fun t s => (t.step s).2) t

/-- The catalog after some steps. -/
def Catalog.after (catalog : Catalog) (steps : List Step) : Catalog :=
  steps.foldl Step.catalog catalog

namespace Edition

/-- A catalog that no worker has invalidated for. -/
def outdated (workers : Nat) (catalog : Catalog) : Edition :=
  ⟨workers, catalog, List.range workers, []⟩

/-- The edition after a step, if only saved categories are looked for. -/
def follow (e : Edition) (s : Step) : Edition := { e.after s with passed := [] }

/-- The edition after some steps. -/
def followAll (e : Edition) (steps : List Step) : Edition := steps.foldl follow e

/-- While some workers have invalidated and others have not, only the former are called. -/
def Orderly (e : Edition) : Step → Prop
  | .call i r => e.stale = List.range e.workers ∨ i < e.workers ∧ i ∉ e.stale ∧ r.Saved e.catalog
  | _ => True

/-- Every step of a run is orderly. -/
def OrderlyAll (e : Edition) : List Step → Prop
  | [] => True
  | s :: rest => e.Orderly s ∧ (e.follow s).OrderlyAll rest

theorem catalog_followAll (steps : List Step) (e : Edition) :
    (e.followAll steps).catalog = e.catalog.after steps := by
  induction steps generalizing e with
  | nil => rfl
  | cons s rest ih =>
    have hcatalog : (e.follow s).catalog = s.catalog e.catalog := e.catalog_after s
    calc ((e.follow s).followAll rest).catalog
        = (e.follow s).catalog.after rest := ih _
      _ = (s.catalog e.catalog).after rest := by rw [hcatalog]

theorem workers_followAll (steps : List Step) (e : Edition) :
    (e.followAll steps).workers = e.workers := by
  induction steps generalizing e with
  | nil => rfl
  | cons s rest ih =>
    have hworkers : (e.follow s).workers = e.workers := by cases s <;> rfl
    exact (ih (e.follow s)).trans hworkers

end Edition

/-! ## Steps -/

namespace Scope

variable {S : Scope} {hS : S.Legible} {e : Edition} {he : S.Covers e} {t : Team}

theorem Covers.follow (he : S.Covers e) {s : Step} (hs : s.categories ⊆ S.categories) :
    S.Covers (e.follow s) :=
  .forget (he.saved hs) rfl

/-- The catalog, the translator, the settings and the tags are right in any case. -/
theorem Holds.weaken {e' : Edition} (h : S.Holds hS e he t) (he' : S.Covers e')
    (hworkers : e'.workers = e.workers) (hcatalog : e'.catalog = e.catalog)
    (hstale : List.range e.workers ⊆ e'.stale) : S.Holds hS e' he' t where
  catalog := h.catalog.trans hcatalog.symm
  translator := h.translator
  workers := h.workers.trans hworkers.symm
  settings := h.settings
  tagged := h.tagged
  sound i w hi hi' := by
    have hlt := (List.getElem?_eq_some_iff.1 hi).1
    exact absurd (hstale (List.mem_range.2 (h.workers ▸ hlt))) hi'

/-- Any call at all keeps the settings and the tags. -/
theorem Holds.call_outdated (h : S.Holds hS e he t) (hstale : e.stale = List.range e.workers)
    (i : Nat) (r : Request) : S.Holds hS e he (t.step (.call i r)).2 := by
  cases hw : t.workers[i]? with
  | none =>
    rw [Team.step_of_none hw (Or.inr ⟨r, rfl⟩)]
    exact h
  | some w =>
    have hkept := Worker.Frame.keeps_request t.translator
      (fun ctx _ => Worker.Frame.tagged S.settings t.catalog ctx)
      (fun store c => (Worker.Frame.tagged S.settings t.catalog ⟨store, 0⟩).root c)
      (fun _ _ => trivial) (r := r) ⟨w, t.shared, []⟩
      ⟨h.settings w (List.mem_of_getElem? hw), h.tagged⟩
    rw [Team.step_call hw]
    refine ⟨h.catalog, h.translator, (List.length_set ..).trans h.workers, fun w' hw' => ?_,
      hkept.2, fun j w' hj hstale' => ?_⟩
    · rcases List.mem_or_eq_of_mem_set hw' with hw' | rfl
      · exact h.settings w' hw'
      · exact hkept.1
    · have hlt := (List.getElem?_eq_some_iff.1 hj).1
      rw [List.length_set, h.workers] at hlt
      exact absurd (hstale ▸ List.mem_range.2 hlt) hstale'

/-- A worker that has invalidated answers as it does without caches, and leaves sound desks to the
    others that have. -/
theorem Holds.call_fresh (h : S.Holds hS e he t) {i : Nat} {r : Request} (hi : i < e.workers)
    (hfresh : i ∉ e.stale) (hctx : r.contexts ⊆ S.contexts) (hsaved : r.Saved e.catalog) :
    S.Holds hS e he (t.step (.call i r)).2 ∧
      (t.step (.call i r)).1 = some (r.anew S.settings e.catalog S.translator) := by
  rw [← h.workers] at hi
  have hw : t.workers[i]? = some t.workers[i] := List.getElem?_eq_getElem hi
  have hknown : ∀ p ∈ r.lookups, (S.epoch hS e he).known p.1 p.2 := fun p hp =>
    ⟨(Request.of_mem_lookups hp).2, Or.inl (hsaved p hp)⟩
  obtain ⟨hafter, hanswer⟩ :=
    Epoch.sim_request (fun _ hc => hctx hc) (fun _ _ _ => trivial) hknown _ (h.sound i _ hw hfresh)
  have hwork : r.work t.catalog t.translator = r.work e.catalog S.translator := by
    rw [h.catalog, h.translator]
  rw [Team.step_call hw, hwork]
  exact ⟨Holds.leave h.catalog h.translator h.workers h.settings hafter fun j w _ hj hstale =>
    (h.sound j w hj hstale).share hafter rfl rfl, congrArg some (related_eq.1 hanswer)⟩

/-- A worker that is new answers as it does without caches. -/
theorem Holds.new_call {catalog : Catalog} (hlegible : S.Legible)
    (hcatalog : ∀ c ∈ catalog.entries, c ∈ S.categories) {r : Request}
    (hctx : r.contexts ⊆ S.contexts) (hsaved : r.Saved catalog) :
    ((Team.start catalog S.translator [S.settings]).step (.call 0 r)).1 =
      some (r.anew S.settings catalog S.translator) := by
  have he : S.Covers (.start 1 catalog) := .forget hcatalog rfl
  have hstart : S.Holds hlegible _ he (.start catalog S.translator (List.replicate 1 S.settings)) :=
    .start he
  exact (hstart.call_fresh Nat.one_pos List.not_mem_nil hctx hsaved).2

/-- **An orderly step leaves sound desks to all workers that have invalidated.** -/
theorem Holds.follow (h : S.Holds hS e he t) (hpassed : e.passed = []) {s : Step}
    (hs : e.Orderly s) (hctx : s.contexts ⊆ S.contexts) (he' : S.Covers (e.follow s)) :
    S.Holds hS _ he' (t.step s).2 := by
  cases s with
  | call i r =>
    obtain ⟨workers, catalog, stale, passed⟩ := e
    obtain rfl : passed = [] := hpassed
    rcases hs with hstale | ⟨hi, hfresh, hsaved⟩
    · exact h.call_outdated hstale i r
    · exact (h.call_fresh hi hfresh hctx hsaved).1
  | invalidate i =>
    obtain ⟨workers, catalog, stale, passed⟩ := e
    obtain rfl : passed = [] := hpassed
    exact (h.invalidate i he').1
  | insert c =>
    rw [Team.step, Team.insert, h.catalog]
    exact h.change _ he'
  | remove store id =>
    rw [Team.step, Team.remove, h.catalog]
    exact h.change _ he'

/-! ## Runs -/

/-- An orderly run leaves sound desks to all workers that have invalidated. -/
theorem Holds.orderly (steps : List Step) {e : Edition} {he : S.Covers e} {t : Team}
    (h : S.Holds hS e he t) (hpassed : e.passed = []) (hsteps : e.OrderlyAll steps)
    (hctx : steps.flatMap Step.contexts ⊆ S.contexts)
    (hcategories : steps.flatMap Step.categories ⊆ S.categories) :
    ∃ he', S.Holds hS (e.followAll steps) he' (t.after steps) := by
  induction steps generalizing e t with
  | nil => exact ⟨he, h⟩
  | cons s rest ih =>
    rw [List.flatMap_cons, List.append_subset] at hctx hcategories
    exact ih (h.follow hpassed hsteps.1 hctx.1 (he.follow hcategories.1)) rfl hsteps.2 hctx.2
      hcategories.2

/-- Any run at all keeps the settings and the tags. -/
theorem Holds.outdated (steps : List Step) {n : Nat} {catalog : Catalog}
    {he : S.Covers (.outdated n catalog)} {t : Team} (h : S.Holds hS _ he t)
    (hcategories : steps.flatMap Step.categories ⊆ S.categories) :
    ∃ he', S.Holds hS (.outdated n (catalog.after steps)) he' (t.after steps) := by
  induction steps generalizing catalog t with
  | nil => exact ⟨he, h⟩
  | cons s rest ih =>
    rw [List.flatMap_cons, List.append_subset] at hcategories
    have he' : S.Covers (.outdated n (s.catalog catalog)) :=
      .forget (fun c hc => (he.follow hcategories.1).catalog c (by cases s <;> exact hc)) rfl
    have h' : S.Holds hS _ he' (t.step s).2 := by
      cases s with
      | call i r => exact h.call_outdated rfl i r
      | invalidate i =>
        have he'' := he.follow (s := .invalidate i) (by simp [Step.categories])
        exact (h.invalidate i he'').1.weaken he' rfl rfl (List.Subset.refl _)
      | insert c =>
        rw [Team.step, Team.insert, h.catalog]
        exact h.change _ he'
      | remove store id =>
        rw [Team.step, Team.remove, h.catalog]
        exact h.change _ he'
    exact ih h' hcategories.2

end Scope

/-! ## Two categories, one within the other -/

namespace Outdated

/-- A category that is no restriction while it is hidden. -/
def hidden : Category := { Category.ofPath 3 "Winter" [1, 2, 3] with isActive := false }

/-- The same category when it is shown. -/
def shown : Category := { hidden with isActive := true }

/-- A virtual category within it. -/
def sale : Category :=
  { Category.ofPath 4 "Sale" [1, 2, 4] with isVirtual := true, virtualRoot := some 3 }

def earlier : Catalog := .ofList [hidden, sale]

def later : Catalog := earlier.insert shown

def rules : Translator := ⟨.standard, none, none, fun _ => .exact, 0⟩

def ctx : Context := ⟨0, 1⟩

def key (id : CategoryId) : CacheKey := keyOf .standard ctx id

/-- No two keys collide, and no rule holds a double. -/
theorem legible {S : Scope} (hsettings : S.settings = .standard) (htranslator : S.translator = rules)
    (hkeys : S.keys ⊆ [key 3, key 4]) (hrules : ∀ c ∈ S.categories, c.rule = .empty) :
    S.Legible where
  apart k hk k' hk' := by
    have hdigests : ([key 3, key 4].map fun k => Digest.sha256Hex k.text).Nodup := by
      decide +kernel
    exact .of_nodup hdigests (hkeys hk) (hkeys hk')
  exact ctx _ := by
    rw [hsettings, htranslator]
    refine .of_rules (by decide) fun c hc f hf => ?_
    rw [hrules c hc] at hf
    nomatch hf

/-- The sale is saved. -/
theorem saved_sale : (Request.query ctx sale).Saved later := by
  show ∀ p ∈ [((0 : StoreId), sale)], p.2 ∈ [shown, sale] ∧ p.2.store = p.1
  simp [sale, Category.ofPath]

end Outdated

/-! ## Invalidation -/

/-- **Invalidation reaches all workers.**  Whatever was done before, if since then, while some workers
    have invalidated after the last change of the catalog and others have not, only the former are
    called, then a worker that has invalidated answers as a new one does, for saved categories. -/
theorem Team.invalidation_reaches_all (settings : Settings) (translator : Translator)
    (catalog : Catalog) (n : Nat) (before steps : List Step) (i : Nat) (r : Request)
    (hlegible : (Scope.ofRun settings translator catalog (before ++ steps ++ [.call i r])).Legible)
    (horderly : (Edition.outdated n (catalog.after before)).OrderlyAll steps) (hi : i < n)
    (hfresh : i ∉ ((Edition.outdated n (catalog.after before)).followAll steps).stale)
    (hsaved : r.Saved (catalog.after (before ++ steps))) :
    let t := (Team.start catalog translator (List.replicate n settings)).after (before ++ steps)
    (t.step (.call i r)).1 =
      ((Team.start t.catalog translator [settings]).step (.call 0 r)).1 := by
  intro t
  have hcovers := Scope.covers_start settings translator catalog n (before ++ steps ++ [.call i r])
  generalize hS : Scope.ofRun settings translator catalog (before ++ steps ++ [.call i r]) = S
    at hlegible hcovers
  have hctx : (before ++ steps ++ [Step.call i r]).flatMap Step.contexts ⊆ S.contexts :=
    hS ▸ List.Subset.refl _
  have hcategories : (before ++ steps ++ [Step.call i r]).flatMap Step.categories ⊆ S.categories :=
    hS ▸ List.subset_append_right ..
  simp only [List.flatMap_append, List.append_subset] at hctx hcategories
  have hcontexts : r.contexts ⊆ S.contexts := by simpa [Step.contexts] using hctx.2
  obtain ⟨rfl, rfl⟩ : S.settings = settings ∧ S.translator = translator := hS ▸ ⟨rfl, rfl⟩
  have hstart : S.Holds hlegible _ hcovers
      (.start catalog S.translator (List.replicate n S.settings)) := .start hcovers
  have hall : S.Covers (.outdated n catalog) := .forget hcovers.catalog rfl
  obtain ⟨hall, hbefore⟩ := (hstart.weaken hall rfl rfl (List.Subset.refl _)).outdated before
    hcategories.1.1
  obtain ⟨hsome, hsteps⟩ := hbefore.orderly steps rfl horderly hctx.1.2 hcategories.1.2
  have ht : t = Team.after
      (Team.after (.start catalog S.translator (List.replicate n S.settings)) before) steps :=
    List.foldl_append
  rw [← ht] at hsteps
  have hcatalog : ((Edition.outdated n (catalog.after before)).followAll steps).catalog =
      catalog.after (before ++ steps) :=
    (Edition.catalog_followAll steps _).trans List.foldl_append.symm
  rw [← hcatalog] at hsaved
  have hcall := hsteps.call_fresh ((Edition.workers_followAll steps _).symm ▸ hi) hfresh
    hcontexts hsaved
  rw [hcall.2, hsteps.catalog]
  exact (Scope.Holds.new_call hlegible hsome.catalog hcontexts hsaved).symm

/-- Two workers, the second of which is called before the first one invalidates, and then not
    before it has invalidated itself. -/
theorem Team.invalidation_reaches_shown :
    let before : List Step :=
      [.call 1 (.query Outdated.ctx Outdated.hidden), .insert Outdated.shown]
    let steps : List Step := [.call 1 (.query Outdated.ctx Outdated.sale), .invalidate 0,
      .call 0 (.query Outdated.ctx Outdated.sale), .invalidate 1]
    let t := (Team.start Outdated.earlier Outdated.rules (List.replicate 2 .standard)).after
      (before ++ steps)
    (t.step (.call 1 (.query Outdated.ctx Outdated.sale))).1 =
      ((Team.start t.catalog Outdated.rules [.standard]).step
        (.call 0 (.query Outdated.ctx Outdated.sale))).1 := by
  intro before steps
  refine Team.invalidation_reaches_all _ _ _ 2 before steps 1 _
    (Outdated.legible rfl rfl (by decide) ?_)
    ⟨Or.inl rfl, trivial, Or.inr ⟨by decide, by decide, Outdated.saved_sale⟩, trivial, trivial⟩
    (by decide) (by decide) Outdated.saved_sale
  show ∀ c ∈ [Outdated.hidden, Outdated.sale, Outdated.hidden, Outdated.shown, Outdated.sale,
    Outdated.sale, Outdated.sale], c.rule = .empty
  simp [Outdated.hidden, Outdated.shown, Outdated.sale, Category.ofPath]

/-! ## A query that is kept too long -/

/-- Whether an answer is that there is no restriction. -/
def Answer.isUnrestricted : Answer → Bool
  | .query none => true
  | _ => false

namespace Outdated

/-- What is stored for the sale while winter is hidden. -/
def outdated : StoredQuery := ⟨none, .ofList [1, 2, 3, 4]⟩

theorem compile_hidden (resolve : Category → IdSet → Work Compiled) (d : Desk) :
    ((Worker.compiler .standard earlier rules ctx resolve).compile hidden ∅).outcome d =
      (.ok ⟨none, .ofList [3], ∅⟩, { d with events := .built :: d.events }) := rfl

theorem compile_sale {resolve : Category → IdSet → Work Compiled} {d : Desk}
    (hroots : d.worker.roots = [])
    (hresolve : ((resolve shown (.ofList [4])).outcome
      { d with worker := { d.worker with roots := [((3, 0), some shown)] } }).1 =
        .ok ⟨none, .ofList [3], ∅⟩) :
    ∃ d', ((Worker.compiler .standard later rules ctx resolve).compile sale ∅).outcome d =
      (.ok ⟨none, .ofList [1, 2, 3, 4], ∅⟩, d') := by
  obtain ⟨⟨settings, cache, roots⟩, shared, events⟩ := d
  obtain rfl : roots = [] := hroots
  set s := Worker.compiler .standard later rules ctx resolve
  have hroot : (s.root sale).outcome ⟨⟨settings, cache, []⟩, shared, events⟩ =
      (.ok (some shown), ⟨⟨settings, cache, [((3, 0), some shown)]⟩, shared, events⟩) := rfl
  have hquery : (s.rootQuery sale (.ofList [4])).outcome ⟨⟨settings, cache, []⟩, shared, events⟩ =
      (.ok ⟨none, .ofList [1, 2, 3], ∅⟩, _) :=
    (Work.outcome_bind_ok hroot _).trans
      ((Work.outcome_bind_ok (Prod.ext hresolve rfl) _).trans rfl)
  have hbase : (s.baseQuery sale (.ofList [4])).outcome ⟨⟨settings, cache, []⟩, shared, events⟩ =
      (.ok ⟨none, .ofList [1, 2, 3], ∅⟩, _) := (Work.outcome_bind_ok hquery _).trans rfl
  have hopen : (s.compileOpen sale (.ofList [4])).outcome ⟨⟨settings, cache, []⟩, shared, events⟩ =
      (.ok ⟨none, .ofList [1, 2, 3], ∅⟩, _) := (Work.outcome_bind_ok hbase _).trans rfl
  exact ⟨_, (Work.outcome_bind_ok hopen _).trans rfl⟩

section
variable {d d' : Desk} (hsettings : d.worker.settings = .standard)
include hsettings

/-- Every call leaves texts with the tag of the settings. -/
theorem tagged_request {catalog : Catalog} {r : Request}
    (hd' : ((r.work catalog rules).outcome d).2 = d')
    (htagged : d.shared.Tagged Settings.standard.tag) : d'.shared.Tagged Settings.standard.tag := by
  have hkeeps := Worker.Frame.keeps_request (r := r) rules
    (fun ctx _ => Worker.Frame.tagged .standard catalog ctx)
    (fun store c => (Worker.Frame.tagged .standard catalog ⟨store, 0⟩).root c)
    (fun _ _ => trivial)
  exact hd' ▸ (hkeeps d ⟨hsettings, htagged⟩).2

/-- A worker that is asked for winter while it is hidden keeps that it is no restriction. -/
theorem query_hidden (hd' : (((Request.query ctx hidden).work earlier rules).outcome d).2 = d')
    (hcapacity : d.worker.cache.capacity ≠ 0)
    (hlocal : ∀ id, d.worker.cache.entries[key id]? = none)
    (hshared : ∀ key, d.shared.load? key = none) :
    d'.worker.settings = .standard ∧ d'.worker.roots = d.worker.roots ∧
      d'.worker.cache.entries[key 3]? = some ⟨none, .ofList [3]⟩ ∧
      d'.worker.cache.entries[key 4]? = none := by
  obtain ⟨-, hworker, -⟩ := Worker.outcome_query earlier rules ctx hidden hsettings
  obtain ⟨-, hsettings', hroots, -, hcache⟩ := Worker.cached_compiled (c := hidden) rfl (hlocal 3)
    (hshared _) (compile_hidden _ _) (IdSet.notMem_empty _) rfl
  rw [← hd', hworker]
  refine ⟨hsettings'.trans hsettings, hroots, ?_, ?_⟩
  · rw [hcache]
    exact LocalCache.getElem?_insert_self (c := d.missLocal.worker.cache) hcapacity _ _
  · rw [hcache, Option.eq_none_iff_forall_ne_some]
    intro e he
    rcases LocalCache.of_insert he with ⟨hk, -⟩ | he
    · exact absurd hk (by decide)
    · nomatch (hlocal 4).symm.trans he

/-- If it is asked for the sale when winter is shown, it takes that, and shares the outcome. -/
theorem query_sale (hd' : (((Request.query ctx sale).work later rules).outcome d).2 = d')
    (hroots : d.worker.roots = [])
    (hhidden : d.worker.cache.entries[key 3]? = some ⟨none, .ofList [3]⟩)
    (hlocal : d.worker.cache.entries[key 4]? = none)
    (hshared : ∀ key, d.shared.load? key = none) :
    Worker.sharedQuery? d'.shared (key 4) = some outdated := by
  obtain ⟨-, -, hafter⟩ := Worker.outcome_query later rules ctx sale hsettings
  let looked : Desk := { d.missLocal.missShared (key 4) with
    worker := { d.missLocal.worker with roots := [((3, 0), some shown)] } }
  have hfits : Worker.fits (.ofList [4]) ⟨none, .ofList [3]⟩ = true := by decide
  have hshown : ((Worker.resolveWithin .standard later rules ctx Worker.tooDeep
      (later.size + d.worker.roots.length + 1) shown (.ofList [4])).outcome looked).1 =
        .ok ⟨none, .ofList [3], ∅⟩ :=
    (Worker.cached_local (c := shown) (d := looked) rfl hhidden hfits).1
  obtain ⟨d₁, hcompile⟩ := compile_sale (d := d.missLocal.missShared (key 4)) hroots hshown
  obtain ⟨-, -, -, hsave, -⟩ := Worker.cached_compiled (c := sale) rfl
    hlocal (hshared _) hcompile (IdSet.notMem_empty _) rfl
  have hdecode : StoredQuery.decode outdated.encode = .ok outdated := by
    rw [StoredQuery.decode_encode
      (StoredQuery.each_readsBack (by simp [outdated, StoredQuery.doubles])
      (by simp [outdated, StoredQuery.doubles]))]
    rfl
  have hload : d'.shared.load? (key 4).storageKey = some outdated.encode := by
    rw [← hd', hafter, hsave]
    exact (SharedCache.load?_save ..).trans (if_pos rfl)
  rw [Worker.sharedQuery?, hload]
  exact congrArg Except.toOption hdecode

/-- A worker that finds the outcome in the shared tier takes it into its local one. -/
theorem query_refilled (hd' : (((Request.query ctx sale).work later rules).outcome d).2 = d')
    (hcapacity : d.worker.cache.capacity ≠ 0)
    (hlocal : d.worker.cache.entries[key 4]? = none)
    (hshared : Worker.sharedQuery? d.shared (key 4) = some outdated) :
    d'.worker.settings = .standard ∧ d'.worker.cache.entries[key 4]? = some outdated := by
  obtain ⟨-, hworker, -⟩ := Worker.outcome_query later rules ctx sale hsettings
  have hfits : Worker.fits ∅ outdated = true := by decide
  obtain ⟨-, hsame, hcache⟩ := Worker.cached_shared (c := sale) rfl hlocal hshared hfits hcapacity
  rw [← hd', hworker]
  exact ⟨hsame.settings.trans hsettings, hcache⟩

/-- There it finds it again. -/
theorem query_kept (hlocal : d.worker.cache.entries[key 4]? = some outdated) :
    (((Request.query ctx sale).work later rules).outcome d).1 = .ok (.query none) := by
  obtain ⟨hanswer, -, -⟩ := Worker.outcome_query later rules ctx sale hsettings
  rw [hanswer, (Worker.cached_local (c := sale) rfl hlocal rfl).1]
  rfl

end

/-- Two workers, and what they share. -/
def pair (catalog : Catalog) (shared : SharedCache) (w₀ w₁ : Worker) : Team :=
  ⟨catalog, rules, shared, [w₀, w₁]⟩

section
variable {catalog : Catalog} {shared : SharedCache} {w₀ w₁ : Worker}

theorem call_first (r : Request) : ((pair catalog shared w₀ w₁).step (.call 0 r)).2 =
    pair catalog ((r.work catalog rules).outcome ⟨w₀, shared, []⟩).2.shared
      ((r.work catalog rules).outcome ⟨w₀, shared, []⟩).2.worker w₁ :=
  congrArg Prod.snd (Team.step_call (w := w₀) rfl r)

theorem call_second (r : Request) : ((pair catalog shared w₀ w₁).step (.call 1 r)).2 =
    pair catalog ((r.work catalog rules).outcome ⟨w₁, shared, []⟩).2.shared w₀
      ((r.work catalog rules).outcome ⟨w₁, shared, []⟩).2.worker :=
  congrArg Prod.snd (Team.step_call (w := w₁) rfl r)

theorem invalidate_first : ((pair catalog shared w₀ w₁).step (.invalidate 0)).2 =
    pair catalog (Worker.invalidate.outcome ⟨w₀, shared, []⟩).2.shared
      (Worker.invalidate.outcome ⟨w₀, shared, []⟩).2.worker w₁ :=
  congrArg Prod.snd (Team.step_invalidate (w := w₀) rfl)

theorem invalidate_second : ((pair catalog shared w₀ w₁).step (.invalidate 1)).2 =
    pair catalog (Worker.invalidate.outcome ⟨w₁, shared, []⟩).2.shared w₀
      (Worker.invalidate.outcome ⟨w₁, shared, []⟩).2.worker :=
  congrArg Prod.snd (Team.step_invalidate (w := w₁) rfl)

end

def steps : List Step :=
  [.call 1 (.query ctx hidden), .insert shown, .invalidate 0, .call 1 (.query ctx sale),
    .call 0 (.query ctx sale), .invalidate 1]

theorem after_steps :
    ∃ shared w₀ w₁, (Team.start earlier rules [.standard, .standard]).after steps =
      pair later shared w₀ w₁ ∧ w₀.settings = .standard ∧
      w₀.cache.entries[key 4]? = some outdated := by
  have hempty : ∀ key, SharedCache.empty.load? key = none := fun _ => Std.HashMap.getElem?_empty
  have hnew : ∀ id, (LocalCache.empty 10000).entries[key id]? = none := fun _ =>
    Std.HashMap.getElem?_empty
  let w : Worker := .ofSettings .standard
  -- the second worker is asked for winter
  obtain ⟨asked, hasked⟩ : ∃ d, (((Request.query ctx hidden).work earlier rules).outcome
    ⟨w, .empty, []⟩).2 = d := ⟨_, rfl⟩
  obtain ⟨hsettings, hroots, hwinter, hsale⟩ := query_hidden rfl hasked (by decide) hnew hempty
  have htagged := tagged_request rfl hasked (.empty _)
  -- the first one invalidates
  obtain ⟨emptied, hemptied⟩ : ∃ d, (Worker.invalidate.outcome ⟨w, asked.shared, []⟩).2 = d :=
    ⟨_, rfl⟩
  have hdropped : ∀ key, emptied.shared.load? key = none := hemptied ▸ fun _ => htagged.invalidate _
  have hworker : emptied.worker = { w with cache := w.cache.clear } := hemptied ▸ rfl
  -- both are asked for the sale
  obtain ⟨published, hpublished⟩ : ∃ d, (((Request.query ctx sale).work later rules).outcome
    ⟨asked.worker, emptied.shared, []⟩).2 = d := ⟨_, rfl⟩
  have hshared := query_sale (d := ⟨asked.worker, emptied.shared, []⟩) hsettings hpublished hroots
    hwinter hsale hdropped
  obtain ⟨refilled, hrefilled⟩ : ∃ d, (((Request.query ctx sale).work later rules).outcome
    ⟨emptied.worker, published.shared, []⟩).2 = d := ⟨_, rfl⟩
  have hkept := query_refilled (d := ⟨emptied.worker, published.shared, []⟩)
    (congrArg Worker.settings hworker) hrefilled (by simp only [hworker]; decide)
    (by simp only [hworker]; exact Std.HashMap.getElem?_empty) hshared
  -- the second one invalidates
  obtain ⟨ended, hended⟩ : ∃ d, (Worker.invalidate.outcome
    ⟨published.worker, refilled.shared, []⟩).2 = d := ⟨_, rfl⟩
  refine ⟨ended.shared, refilled.worker, ended.worker, ?_, hkept⟩
  have hstart : Team.start earlier rules [.standard, .standard] = pair earlier .empty w w := rfl
  have hinsert : ∀ shared w₀ w₁, ((pair earlier shared w₀ w₁).step (.insert shown)).2 =
      pair later shared w₀ w₁ := fun _ _ _ => rfl
  simp only [Team.after, steps, List.foldl_cons, List.foldl_nil, hstart]
  rw [call_second, hasked, hinsert, invalidate_first, hemptied, call_second, hpublished, call_first,
    hrefilled, invalidate_second, hended]

end Outdated

/-- **A worker that has invalidated may keep what another one compiled that had not.**  When both have
    invalidated at last, it says that the sale is no restriction, as it was when winter was
    hidden. -/
theorem Team.outdated_query_kept :
    let t := (Team.start Outdated.earlier Outdated.rules [.standard, .standard]).after Outdated.steps
    let r : Request := .query Outdated.ctx Outdated.sale
    ((Edition.start 2 Outdated.earlier).followAll Outdated.steps).stale = [] ∧
      r.Saved t.catalog ∧
      (t.step (.call 0 r)).1 ≠
        ((Team.start t.catalog Outdated.rules [.standard]).step (.call 0 r)).1 := by
  intro t r
  obtain ⟨shared, w₀, w₁, ht, hsettings, hlocal⟩ := Outdated.after_steps
  have hold : (t.step (.call 0 r)).1 = some (.ok (.query none)) := by
    rw [show t = _ from ht, Team.step_call (w := w₀) rfl]
    exact congrArg some (Outdated.query_kept (d := ⟨w₀, shared, []⟩) hsettings hlocal)
  have hlegible : (Scope.ofRun .standard Outdated.rules Outdated.later [.call 0 r]).Legible :=
    Outdated.legible rfl rfl (by decide) (by
      show ∀ c ∈ [Outdated.shown, Outdated.sale, Outdated.sale], c.rule = .empty
      simp [Outdated.shown, Outdated.hidden, Outdated.sale, Category.ofPath])
  have hnew : ((Team.start Outdated.later Outdated.rules [.standard]).step (.call 0 r)).1 =
      some (r.anew .standard Outdated.later Outdated.rules) :=
    Scope.Holds.new_call hlegible (fun _ hc => List.mem_append_left _ hc) (List.Subset.refl _)
      Outdated.saved_sale
  have hrestricts : (r.anew .standard Outdated.later Outdated.rules).toOption.any
      Answer.isUnrestricted = false := by decide +kernel
  have hcompiled : r.anew .standard Outdated.later Outdated.rules ≠ .ok (.query none) := by
    intro h
    rw [h] at hrestricts
    cases hrestricts
  have hcatalog : t.catalog = Outdated.later := congrArg Team.catalog ht
  rw [hold, hcatalog, hnew]
  exact ⟨by decide, Outdated.saved_sale, fun h => hcompiled (Option.some.inj h).symm⟩

end Merchandising

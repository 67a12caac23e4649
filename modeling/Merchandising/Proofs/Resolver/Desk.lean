/-
  What each step of a worker does to its desk.

  * `Work.outcome` is how some work ends, and the desk afterwards; `Work.outcome_bind_eq_ok` and the
    lemmas after it say what the parts of some work end with if it ends well;
  * `fromLocal_spec`, `fromShared_spec` and `store_spec` say what is found in the two tiers, what is
    kept there, and what stays as it was;
  * `virtualRoot_leaves` says what looking up a virtual root adds to those of the desk;
  * `RootsOf` is a desk whose virtual roots of one store were looked up in a catalog, `RootsFrom`
    one where all were: there `virtualRoot` finds what the catalog has (`virtualRoot_spec`).
-/
import Mathlib.Data.List.Forall2
import Merchandising.Resolver.Fresh
import Merchandising.Resolver.Worker

namespace Merchandising

namespace Work

variable {α β : Type}

/-- How work ends, and the desk afterwards. -/
def outcome (w : Work α) (d : Desk) : Except Failure α × Desk := w.run.run d

@[simp] theorem outcome_get (d : Desk) : (get : Work Desk).outcome d = (.ok d, d) := rfl

theorem outcome_bind (w : Work α) (f : α → Work β) (d : Desk) :
    (w >>= f).outcome d = match w.outcome d with
      | (.ok a, d') => (f a).outcome d'
      | (.error e, d') => (.error e, d') := by
  cases h : w.outcome d with
  | mk r d' =>
    have h' : w.run d = (r, d') := h
    have hb : (w >>= f).outcome d = (w.run >>= ExceptT.bindCont f) d := rfl
    have hs : (w.run >>= ExceptT.bindCont f) d = ExceptT.bindCont f (w.run d).1 (w.run d).2 := rfl
    rw [hb, hs, h']
    cases r <;> rfl

/-- Work that ends well goes on with what follows. -/
theorem outcome_bind_ok {w : Work α} {d d' : Desk} {a : α} (h : w.outcome d = (.ok a, d'))
    (f : α → Work β) : (w >>= f).outcome d = (f a).outcome d' := by
  rw [outcome_bind, h]

/-- Work in two parts ends well iff both parts do. -/
theorem outcome_bind_eq_ok {w : Work α} {f : α → Work β} {d d' : Desk} {b : β} :
    (w >>= f).outcome d = (.ok b, d') ↔
      ∃ a d₁, w.outcome d = (.ok a, d₁) ∧ (f a).outcome d₁ = (.ok b, d') := by
  rw [outcome_bind]
  generalize w.outcome d = o
  obtain ⟨r, d₁⟩ := o
  cases r with
  | ok a =>
    refine ⟨fun h => ⟨a, d₁, rfl, h⟩, ?_⟩
    rintro ⟨a', d₁', h, h'⟩
    obtain ⟨hr, rfl⟩ := Prod.mk.inj h
    obtain rfl := Except.ok.inj hr
    exact h'
  | error e =>
    refine iff_of_false (fun h => nomatch h) ?_
    rintro ⟨a, d₁', h, -⟩
    nomatch h

/-- What a list of work ends with, if it ends well. -/
theorem outcome_mapM_ok {f : α → Work β} {as : List α} {bs : List β} {d d' : Desk}
    (h : (as.mapM f).outcome d = (.ok bs, d')) :
    List.Forall₂ (fun a b => ∃ d₁ d₂, (f a).outcome d₁ = (.ok b, d₂)) as bs := by
  induction as generalizing bs d d' with
  | nil =>
    rw [List.mapM_nil] at h
    obtain rfl := Except.ok.inj (Prod.mk.inj h).1
    exact .nil
  | cons a as ih =>
    rw [List.mapM_cons] at h
    obtain ⟨b, d₁, hb, h⟩ := outcome_bind_eq_ok.1 h
    obtain ⟨bs', d₂, hbs, h⟩ := outcome_bind_eq_ok.1 h
    obtain rfl := Except.ok.inj (Prod.mk.inj h).1
    exact .cons ⟨d, d₁, hb⟩ (ih hbs)

theorem outcome_ofExcept_ok {x : Except Failure α} {a : α} {d d' : Desk}
    (h : (MonadExcept.ofExcept x : Work α).outcome d = (.ok a, d')) : x = .ok a ∧ d' = d := by
  cases x with
  | error e => nomatch (Prod.mk.inj h).1
  | ok b =>
    obtain ⟨hb, hd⟩ := Prod.mk.inj h
    exact ⟨hb, hd.symm⟩

theorem outcome_pure_ok {a b : α} {d d' : Desk} (h : (pure a : Work α).outcome d = (.ok b, d')) :
    a = b :=
  Except.ok.inj (Prod.mk.inj h).1

@[simp] theorem outcome_report (e : Event) (d : Desk) :
    (report e).outcome d = (.ok (), { d with events := e :: d.events }) := rfl

theorem outcome_timed (o : Operation) (w : Work α) (d : Desk) :
    (timed o w).outcome d = ((w.outcome d).1,
      { (w.outcome d).2 with events := .finished o :: (w.outcome d).2.events }) := rfl

end Work

/-- What a step that only looks at the shared tier and the virtual roots leaves as it was. -/
structure Desk.SameButLocal (d d' : Desk) : Prop where
  settings : d'.worker.settings = d.worker.settings
  roots : d'.worker.roots = d.worker.roots
  shared : d'.shared = d.shared

namespace Worker

/-! ## The two tiers -/

/-- The local tier yields the entry of the key if it fits the path, and keeps all entries. -/
theorem fromLocal_spec (key : CacheKey) (path : IdSet) (d : Desk) :
    let o := (fromLocal key path).outcome d
    o.1 = .ok (d.worker.cache.entries[key]?.filter (fits path)) ∧ d.SameButLocal o.2 ∧
      o.2.worker.cache.entries = d.worker.cache.entries := by
  unfold fromLocal LocalCache.get
  cases hf : d.worker.cache.entries[key]? with
  | none =>
    simp only [Work.outcome_bind, Work.outcome_get, hf]
    exact ⟨rfl, ⟨rfl, rfl, rfl⟩, rfl⟩
  | some e =>
    by_cases hfit : fits path e
    · simp only [Work.outcome_bind, Work.outcome_get, hf, hfit, ↓reduceIte, Option.filter]
      exact ⟨rfl, ⟨rfl, rfl, rfl⟩, rfl⟩
    · simp only [Work.outcome_bind, Work.outcome_get, hf, hfit, Option.filter]
      exact ⟨rfl, ⟨rfl, rfl, rfl⟩, rfl⟩

/-- The text of the shared tier, as an entry. -/
def sharedQuery? (shared : SharedCache) (key : CacheKey) : Option StoredQuery :=
  match shared.load? key.storageKey with
  | none => none
  | some text => (StoredQuery.decode text).toOption

/-- The shared tier yields the entry of the key if it fits the path; the entry goes into the local
    tier. -/
theorem fromShared_spec (key : CacheKey) (path : IdSet) (d : Desk) :
    let o := (fromShared key path).outcome d
    let found := (sharedQuery? d.shared key).filter (fits path)
    o.1 = .ok found ∧ d.SameButLocal o.2 ∧ o.2.worker.cache = match found with
      | none => d.worker.cache
      | some e => d.worker.cache.insert key e := by
  unfold fromShared sharedQuery?
  cases hl : d.shared.load? key.storageKey with
  | none =>
    simp only [Work.outcome_bind, Work.outcome_get, Work.outcome_report, hl]
    exact ⟨rfl, ⟨rfl, rfl, rfl⟩, rfl⟩
  | some text =>
    simp only [Work.outcome_bind, Work.outcome_get, Work.outcome_report, hl, Option.map_some]
    cases hd : StoredQuery.decode text with
    | error e => exact ⟨rfl, ⟨rfl, rfl, rfl⟩, rfl⟩
    | ok e =>
      by_cases hfit : fits path e
      · simp only [hfit, ↓reduceIte, Except.toOption, Option.filter]
        exact ⟨rfl, ⟨rfl, rfl, rfl⟩, rfl⟩
      · simp only [hfit, Except.toOption, Option.filter]
        exact ⟨rfl, ⟨rfl, rfl, rfl⟩, rfl⟩

/-- A compiled query of which nothing was cut goes into both tiers; another one leaves the desk as
    it was. -/
theorem store_spec (key : CacheKey) (r : Compiled) (d : Desk) :
    let o := (store key r).outcome d
    o.1 = .ok () ∧ o.2.worker.settings = d.worker.settings ∧ o.2.worker.roots = d.worker.roots ∧
      if r.cut.isEmpty then
        o.2.shared = d.shared.save key.storageKey (toStored r).encode
          (tags d.worker.settings key.category) ∧
        o.2.worker.cache = d.worker.cache.insert key (toStored r)
      else o.2.shared = d.shared ∧ o.2.worker.cache = d.worker.cache := by
  unfold store
  by_cases hcut : r.cut.isEmpty
  · simp only [hcut, ↓reduceIte]
    exact ⟨rfl, rfl, rfl, rfl, rfl⟩
  · simp only [hcut]
    exact ⟨rfl, rfl, rfl, rfl, rfl⟩

/-! ## Virtual roots -/

/-- Looking up a virtual root adds at most what the catalog has to those of the store. -/
theorem virtualRoot_leaves (catalog : Catalog) (store : StoreId) (c : Category) (d : Desk) :
    let o := (virtualRoot catalog store c).outcome d
    o.2.worker.settings = d.worker.settings ∧ o.2.worker.cache = d.worker.cache ∧
      o.2.shared = d.shared ∧ (o.2.worker.roots = d.worker.roots ∨
        ∃ id, o.2.worker.roots = ((id, store), catalog.root? store id) :: d.worker.roots) := by
  unfold virtualRoot
  cases c.virtualRoot with
  | none => exact ⟨rfl, rfl, rfl, Or.inl rfl⟩
  | some id =>
    by_cases hs : c.storeRoot? = some id
    · simp only [hs, ↓reduceIte]
      exact ⟨rfl, rfl, rfl, Or.inl rfl⟩
    · simp only [hs, ↓reduceIte, Work.outcome_bind, Work.outcome_get]
      cases d.worker.roots.lookup (id, store) with
      | some root => exact ⟨rfl, rfl, rfl, Or.inl rfl⟩
      | none =>
        cases hr : catalog.root? store id with
        | none => exact ⟨rfl, rfl, rfl, Or.inr ⟨id, by rw [hr]; rfl⟩⟩
        | some r => exact ⟨rfl, rfl, rfl, Or.inr ⟨id, by rw [hr]; rfl⟩⟩

/-- The virtual roots of a store were looked up in a catalog. -/
def RootsOf (catalog : Catalog) (store : StoreId) (d : Desk) : Prop :=
  ∀ id root, d.worker.roots.lookup (id, store) = some root → root = catalog.root? store id

/-- The virtual roots of a desk were looked up in a catalog. -/
def RootsFrom (catalog : Catalog) (d : Desk) : Prop :=
  ∀ store id root, d.worker.roots.lookup (id, store) = some root → root = catalog.root? store id

theorem RootsOf.of_eq {catalog : Catalog} {store : StoreId} {d d' : Desk}
    (hd : RootsOf catalog store d) (h : d'.worker.roots = d.worker.roots) :
    RootsOf catalog store d' := by
  rw [RootsOf, h]
  exact hd

theorem RootsFrom.of_eq {catalog : Catalog} {d d' : Desk} (hd : RootsFrom catalog d)
    (h : d'.worker.roots = d.worker.roots) : RootsFrom catalog d' :=
  fun store => RootsOf.of_eq (hd store) h

/-- Looking up a virtual root keeps what is right for any store. -/
theorem RootsOf.virtualRoot {catalog : Catalog} {store : StoreId} {d : Desk}
    (hd : RootsOf catalog store d) (store' : StoreId) (c : Category) :
    RootsOf catalog store ((virtualRoot catalog store' c).outcome d).2 := by
  obtain ⟨-, -, -, hroots | ⟨id', hroots⟩⟩ := virtualRoot_leaves catalog store' c d
  · exact hd.of_eq hroots
  · intro id root h
    rw [hroots, List.lookup_cons] at h
    by_cases hk : (id, store) = (id', store')
    · obtain ⟨rfl, rfl⟩ := Prod.mk.inj hk
      simpa using h.symm
    · rw [beq_eq_false_iff_ne.2 hk] at h
      exact hd id root h

/-- The virtual root of a category is the one in the catalog. -/
theorem RootsOf.found {catalog : Catalog} {store : StoreId} {d : Desk}
    (hd : RootsOf catalog store d) (c : Category) :
    ((Worker.virtualRoot catalog store c).outcome d).1 = .ok (Fresh.root? catalog store c) := by
  unfold Worker.virtualRoot Fresh.root?
  cases hv : c.virtualRoot with
  | none => rfl
  | some id =>
    by_cases hs : c.storeRoot? = some id
    · simp only [hs, ↓reduceIte]
      rfl
    · simp only [hs, ↓reduceIte, Work.outcome_bind, Work.outcome_get]
      cases hl : d.worker.roots.lookup (id, store) with
      | some root => exact congrArg Except.ok (hd id root hl)
      | none => cases hr : catalog.root? store id <;> rfl

/-- The virtual root of a category is the one in the catalog, and what is kept of it is from the
    catalog again. -/
theorem virtualRoot_spec (catalog : Catalog) (store : StoreId) (c : Category) {d : Desk}
    (hd : RootsFrom catalog d) :
    let o := (virtualRoot catalog store c).outcome d
    o.1 = .ok (Fresh.root? catalog store c) ∧ RootsFrom catalog o.2 ∧
      o.2.worker.settings = d.worker.settings ∧ o.2.worker.cache = d.worker.cache ∧
      o.2.shared = d.shared := by
  obtain ⟨hsettings, hcache, hshared, -⟩ := virtualRoot_leaves catalog store c d
  exact ⟨RootsOf.found (hd store) c, fun store' => RootsOf.virtualRoot (hd store') store c,
    hsettings, hcache, hshared⟩

/-! ## Invalidation -/

/-- Nothing is left in the local tier and of the virtual roots, and of the shared tier what does not
    have the tag. -/
theorem invalidate_spec (d : Desk) :
    let o := invalidate.outcome d
    let dropped := d.shared.invalidate [d.worker.settings.tag]
    o.1 = .ok dropped.2 ∧ o.2.shared = dropped.1 ∧
      o.2.worker = { d.worker with cache := d.worker.cache.clear, roots := [] } :=
  ⟨rfl, rfl, rfl⟩

end Worker

end Merchandising

/-
  Work for other stores and groups of customers.

  * `Epoch.only` is an epoch that vouches for one store and group only: what a desk holds for others
    may be anything;
  * `Worker.RootsWithin` is a desk all of whose virtual roots are known, of whichever catalog;
  * `Worker.Frame.foreign`: work for others keeps what concerns the store and group, because it does
    not use their keys.
-/
import Merchandising.Proofs.Resolver.Frame

namespace Merchandising

open Worker (keyOf storedId?)

/-! ## What concerns one store and group -/

namespace Epoch

/-- The epoch for one store and group. -/
def only (E : Epoch) (ctx : Context) : Epoch where
  settings := E.settings
  catalog := E.catalog
  translator := E.translator
  stores store := store = ctx.store
  contexts ctx' := E.contexts ctx' ∧ ctx' = ctx
  known := E.known
  used k := E.used k ∧ k.store = ctx.store ∧ k.group = ctx.group
  stores_contexts h := h.2 ▸ rfl
  known_saved := E.known_saved
  known_once := E.known_once
  used_known := by
    rintro ctx' c id ⟨hctx, rfl⟩ hc hid
    exact ⟨E.used_known hctx hc hid, rfl, rfl⟩
  used_once hk hk' := E.used_once hk.1 hk'.1
  faithful hctx := E.faithful hctx.1

variable {E : Epoch} {d : Desk}

theorem Sound.report (hd : E.Sound d) (e : Event) : E.Sound ((Work.report e).outcome d).2 :=
  (sim_report e d hd).1

theorem Sound.fromLocal (hd : E.Sound d) (key : CacheKey) (path : IdSet) :
    E.Sound ((Worker.fromLocal key path).outcome d).2 := by
  obtain ⟨-, hsame, hentries⟩ := Worker.fromLocal_spec key path d
  exact hd.of_same hsame (by rw [hentries]; exact hd.inLocal)

section
variable {key : CacheKey} (hkey : ∀ k, E.used k → k.storageKey ≠ key.storageKey)
include hkey

/-- An entry under another key may go into the local tier. -/
theorem Sound.insert_other (hd : E.Sound d) (e : StoredQuery) : ∀ k e', E.used k →
    (d.worker.cache.insert key e).entries[k]? = some e' → E.Good k e' := by
  intro k e' hk h
  rcases LocalCache.of_insert h with ⟨rfl, -⟩ | h
  · exact absurd rfl (hkey k hk)
  · exact hd.inLocal k e' hk h

theorem Sound.fromShared (hd : E.Sound d) (path : IdSet) :
    E.Sound ((Worker.fromShared key path).outcome d).2 := by
  obtain ⟨-, hsame, hcache⟩ := Worker.fromShared_spec key path d
  refine hd.of_same hsame ?_
  rw [hcache]
  split
  · exact hd.inLocal
  · exact hd.insert_other hkey _

/-- What is stored under another key is nothing that is asked for. -/
theorem Sound.store_other (hd : E.Sound d) (r : Compiled) :
    E.Sound ((Worker.store key r).outcome d).2 := by
  obtain ⟨-, hsettings, hroots, hstore⟩ := Worker.store_spec key r d
  split at hstore
  · obtain ⟨hshared, hcache⟩ := hstore
    refine ⟨hsettings.trans hd.settings, fun store hs => (hd.roots store hs).of_eq hroots,
      ?_, ?_, ?_⟩
    · rw [hcache]
      exact hd.insert_other hkey _
    · intro k e hk h
      rw [hshared, Worker.sharedQuery?, SharedCache.load?_save, if_neg (hkey k hk)] at h
      exact hd.inShared k e hk h
    · rw [hshared]
      exact hd.tagged.save (by simp [Worker.tags, hd.settings])
  · refine hd.of_same ⟨hsettings, hroots, hstore.1⟩ ?_
    rw [hstore.2]
    exact hd.inLocal

end

end Epoch

/-! ## Virtual roots of all stores -/

namespace Worker

/-- All virtual roots of a desk are known. -/
def RootsWithin (known : Category → Prop) (d : Desk) : Prop :=
  ∀ key root, d.worker.roots.lookup key = some (some root) → known root

variable {known : Category → Prop} {catalog : Catalog} {d : Desk}

theorem RootsWithin.of_eq {d' : Desk} (hd : RootsWithin known d)
    (h : d'.worker.roots = d.worker.roots) : RootsWithin known d' := by
  rw [RootsWithin, h]
  exact hd

section
variable (hcatalog : ∀ c ∈ catalog.entries, known c)
include hcatalog

theorem known_root? {store : StoreId} {id : CategoryId} {root : Category}
    (h : catalog.root? store id = some root) : known root :=
  hcatalog root (Catalog.load?_eq_some.1 (Option.filter_eq_some_iff.1 h).1).1

theorem RootsWithin.virtualRoot (hd : RootsWithin known d) (store : StoreId) (c : Category) :
    RootsWithin known ((virtualRoot catalog store c).outcome d).2 := by
  obtain ⟨-, -, -, hroots | ⟨id, hroots⟩⟩ := virtualRoot_leaves catalog store c d
  · exact hd.of_eq hroots
  · intro key root h
    rw [hroots, List.lookup_cons] at h
    split at h
    · exact known_root? hcatalog (Option.some.inj h)
    · exact hd key root h

theorem RootsWithin.found (hd : RootsWithin known d) (store : StoreId) (c : Category)
    {root : Category} (h : ((Worker.virtualRoot catalog store c).outcome d).1 = .ok (some root)) : known root := by
  unfold Worker.virtualRoot at h
  cases hv : c.virtualRoot with
  | none =>
    rw [hv] at h
    nomatch h
  | some id =>
    by_cases hs : c.storeRoot? = some id
    · simp only [hv, hs, ↓reduceIte, Work.outcome_bind, Work.outcome_report] at h
      nomatch h
    · simp only [hv, hs, ↓reduceIte, Work.outcome_bind, Work.outcome_get] at h
      cases hl : d.worker.roots.lookup (id, store) with
      | some root' =>
        rw [hl] at h
        obtain rfl := Except.ok.inj h
        exact hd _ root hl
      | none =>
        rw [hl] at h
        cases hr : catalog.root? store id with
        | none =>
          simp only [hr] at h
          nomatch h
        | some root' =>
          simp only [hr] at h
          obtain rfl := Option.some.inj (Except.ok.inj h)
          exact known_root? hcatalog hr

/-- A worker keeps its settings, and looks up known virtual roots only. -/
theorem Frame.rootsWithin (settings : Settings) (ctx : Context) :
    Frame (fun d => d.worker.settings = settings ∧ RootsWithin known d) known settings catalog
      ctx where
  configured _ hd := hd.1
  saved := hcatalog
  report _ _ hd := hd
  root c d hd := by
    obtain ⟨hsettings, -⟩ := virtualRoot_leaves catalog ctx.store c d
    exact ⟨hsettings.trans hd.1, hd.2.virtualRoot hcatalog ctx.store c⟩
  rooted c _ _ hd h := hd.2.found hcatalog ctx.store c h
  fromLocal _ id path _ _ d hd := by
    obtain ⟨-, hsame, -⟩ := fromLocal_spec (keyOf settings ctx id) path d
    exact ⟨hsame.settings.trans hd.1, hd.2.of_eq hsame.roots⟩
  fromShared _ id path _ _ d hd := by
    obtain ⟨-, hsame, -⟩ := fromShared_spec (keyOf settings ctx id) path d
    exact ⟨hsame.settings.trans hd.1, hd.2.of_eq hsame.roots⟩
  store _ id r _ _ d hd := by
    obtain ⟨-, hsettings, hroots, -⟩ := store_spec (keyOf settings ctx id) r d
    exact ⟨hsettings.trans hd.1, hd.2.of_eq hroots⟩

/-- **Work for others keeps what concerns one store and group**, if their keys do not collide. -/
theorem Frame.foreign {E : Epoch} (hE : E.catalog = catalog) {ctx : Context}
    (hkeys : ∀ c id, known c → storedId? c = some id →
      ∀ k, E.used k → k.storageKey ≠ (keyOf E.settings ctx id).storageKey) :
    Frame (fun d => E.Sound d ∧ RootsWithin known d) known E.settings catalog ctx where
  configured _ hd := hd.1.settings
  saved := hcatalog
  report e _ hd := ⟨hd.1.report e, hd.2⟩
  root c _ hd := ⟨hE ▸ hd.1.virtualRoot ctx.store c, hd.2.virtualRoot hcatalog ctx.store c⟩
  rooted c _ _ hd h := hd.2.found hcatalog ctx.store c h
  fromLocal _ id path _ _ d hd :=
    ⟨hd.1.fromLocal _ path, hd.2.of_eq (fromLocal_spec (keyOf E.settings ctx id) path d).2.1.roots⟩
  fromShared c id path hc hid d hd :=
    ⟨hd.1.fromShared (hkeys c id hc hid) path,
      hd.2.of_eq (fromShared_spec (keyOf E.settings ctx id) path d).2.1.roots⟩
  store c id r hc hid _ hd :=
    ⟨hd.1.store_other (hkeys c id hc hid) r,
      hd.2.of_eq (store_spec (keyOf E.settings ctx id) r _).2.2.1⟩

end

end Worker

end Merchandising

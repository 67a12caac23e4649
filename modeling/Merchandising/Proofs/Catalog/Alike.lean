/-
  Catalogs that hold the same categories for a store.

  * `Catalog.AlikeIn` are two catalogs with the same categories of a store, whatever they hold for
    other stores and in whichever order;
  * `AlikeIn.load?_eq` and `AlikeIn.descendants_eq`: for that store they find the same categories,
    and list descendants in the same order;
  * `alikeIn_insert` and `alikeIn_remove`: what is saved or removed in other stores does not matter.
-/
import Mathlib.Data.List.Nodup
import Merchandising.Catalog.Basic

namespace Merchandising.Catalog

/-- The catalogs hold the same categories for a store. -/
def AlikeIn (store : StoreId) (a b : Catalog) : Prop :=
  ∀ c, c.store = store → (c ∈ a.entries ↔ c ∈ b.entries)

/-- Two saved categories with one store and id are the same. -/
theorem eq_of_key {catalog : Catalog} {c c' : Category} (hc : c ∈ catalog.entries)
    (hc' : c' ∈ catalog.entries) (hs : c.store = c'.store) (hid : c.id = c'.id) : c = c' :=
  List.inj_on_of_nodup_map catalog.distinct hc hc' (Prod.ext hs hid)

theorem mem_insert {catalog : Catalog} {c d : Category} (h : d ∈ (catalog.insert c).entries) :
    d = c ∨ d ∈ catalog.entries := by
  unfold insert at h
  split at h
  · exact mem_put h
  · exact Or.inr h

theorem load?_eq_some {catalog : Catalog} {store : StoreId} {id : CategoryId} {c : Category} :
    catalog.load? store id = some c ↔
      c ∈ catalog.entries ∧ c.store = store ∧ c.id = some id := by
  constructor
  · intro h
    have hkey : key c = (store, some id) := by simpa using List.find?_some h
    exact ⟨List.mem_of_find?_eq_some h, (Prod.mk.inj hkey).1, (Prod.mk.inj hkey).2⟩
  · rintro ⟨hc, rfl, hid⟩
    cases hload : catalog.load? c.store id with
    | none =>
      have hnone := List.find?_eq_none.1 hload c hc
      simp [key, hid] at hnone
    | some e =>
      have hkey : key e = (c.store, some id) := by simpa using List.find?_some hload
      obtain ⟨hstore, hid'⟩ := Prod.mk.inj hkey
      exact congrArg some
        (eq_of_key (List.mem_of_find?_eq_some hload) hc hstore (hid'.trans hid.symm))

/-! ## The order of descendants -/

theorem noLater_trans {a b c : Category} (hab : noLater a b = true) (hbc : noLater b c = true) :
    noLater a c = true := by
  simp only [noLater, Bool.or_eq_true, Bool.and_eq_true, beq_iff_eq, decide_eq_true_eq,
    UInt64.le_iff_toNat_le] at hab hbc ⊢
  omega

theorem noLater_total (a b : Category) : (noLater a b || noLater b a) = true := by
  simp only [noLater, Bool.or_eq_true, Bool.and_eq_true, beq_iff_eq, decide_eq_true_eq,
    UInt64.le_iff_toNat_le]
  omega

/-- Categories that come no later than each other have the same id. -/
theorem noLater_antisymm {a b : Category} (ha : a.id.isSome) (hb : b.id.isSome)
    (hab : noLater a b = true) (hba : noLater b a = true) : a.id = b.id := by
  obtain ⟨i, hi⟩ := Option.isSome_iff_exists.1 ha
  obtain ⟨j, hj⟩ := Option.isSome_iff_exists.1 hb
  simp only [noLater, hi, hj, Bool.or_eq_true, Bool.and_eq_true, beq_iff_eq, decide_eq_true_eq,
    Option.getD_some, UInt64.le_iff_toNat_le] at hab hba
  rw [hi, hj, UInt64.toNat_inj.1 (show i.toNat = j.toNat by omega)]

theorem pairwise_noLater : ∀ es : List Category,
    (es.mergeSort noLater).Pairwise fun a b => noLater a b = true :=
  List.pairwise_mergeSort (fun _ _ _ => noLater_trans) noLater_total

/-! ## Catalogs that are alike -/

section
variable {store : StoreId} {a b : Catalog} (h : AlikeIn store a b)
include h

theorem AlikeIn.load?_eq (id : CategoryId) : a.load? store id = b.load? store id := by
  ext c
  rw [load?_eq_some, load?_eq_some]
  constructor
  · rintro ⟨hc, hs, hid⟩
    exact ⟨(h c hs).1 hc, hs, hid⟩
  · rintro ⟨hc, hs, hid⟩
    exact ⟨(h c hs).2 hc, hs, hid⟩

theorem AlikeIn.descendants_eq (e : Category) : a.descendants store e = b.descendants store e := by
  unfold descendants
  have hnodup : ∀ (c : Catalog) (p : Category → Bool), (c.entries.filter p).Nodup :=
    fun c p => (List.Nodup.of_map _ c.distinct).filter p
  have hperm : (a.entries.filter fun d => d.store == store && e.isAncestorOf d).Perm
      (b.entries.filter fun d => d.store == store && e.isAncestorOf d) := by
    refine (List.perm_ext_iff_of_nodup (hnodup a _) (hnodup b _)).2 fun d => ?_
    simp only [List.mem_filter, Bool.and_eq_true, beq_iff_eq]
    constructor
    · rintro ⟨hd, hs, hbelow⟩
      exact ⟨(h d hs).1 hd, hs, hbelow⟩
    · rintro ⟨hd, hs, hbelow⟩
      exact ⟨(h d hs).2 hd, hs, hbelow⟩
  refine List.Perm.eq_of_pairwise ?_ (pairwise_noLater _) (pairwise_noLater _) ?_
  · intro c d hc hd hcd hdc
    obtain ⟨hc, hcs⟩ := List.mem_filter.1 ((List.mergeSort_perm _ _).mem_iff.1 hc)
    obtain ⟨hd, hds⟩ := List.mem_filter.1 (hperm.mem_iff.2 ((List.mergeSort_perm _ _).mem_iff.1 hd))
    simp only [Bool.and_eq_true, beq_iff_eq] at hcs hds
    exact eq_of_key hc hd (hcs.1.trans hds.1.symm)
      (noLater_antisymm (a.saved c hc) (a.saved d hd) hcd hdc)
  · exact (List.mergeSort_perm _ _).trans (hperm.trans (List.mergeSort_perm _ _).symm)

end

/-! ## Changes in other stores -/

theorem mem_put_of_ne {c e : Category} {es : List Category} (hkey : key c ≠ key e) :
    c ∈ put e es ↔ c ∈ es := by
  induction es with
  | nil => simp [put, ne_of_apply_ne key hkey]
  | cons d r ih =>
    unfold put
    split
    · rename_i hd
      have hne : c ≠ d := ne_of_apply_ne key (hd ▸ hkey)
      simp [ne_of_apply_ne key hkey, hne]
    · rw [List.mem_cons, List.mem_cons, ih]

/-- Saving a category in another store. -/
theorem alikeIn_insert {store : StoreId} (catalog : Catalog) {e : Category} (he : e.store ≠ store) :
    AlikeIn store catalog (catalog.insert e) := by
  intro c hc
  unfold insert
  split
  · have hkey : key c ≠ key e := fun h => he ((Prod.mk.inj h).1.symm.trans hc)
    exact (mem_put_of_ne hkey).symm
  · rfl

/-- Removing a category from another store. -/
theorem alikeIn_remove {store store' : StoreId} (catalog : Catalog) (id : CategoryId)
    (hs : store' ≠ store) : AlikeIn store catalog (catalog.remove store' id) := by
  intro c hc
  have hkey : key c ≠ (store', some id) := fun h => hs ((Prod.mk.inj h).1.symm.trans hc)
  simp [remove, hkey]

end Merchandising.Catalog

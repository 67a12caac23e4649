/-
  What a catalog holds after changes, and how it lists descendants.

  * `Change` is a category that is saved or removed, and `ofChanges` the catalog that some changes
    leave;
  * `Held` are the categories that were saved, and neither replaced nor removed since;
    `mem_ofChanges`: they are what the catalog holds;
  * `mem_descendants`: descendants are the categories of the store whose paths go on from that of
    the category;
  * `pairwise_descendants`: each of them `Precedes` those behind it, so that none is listed twice;
  * `SameAs` are catalogs with the same categories, in whichever order.
-/
import Merchandising.Proofs.Catalog.Alike
import Merchandising.Proofs.LastWith

namespace Merchandising.Catalog

/-! ## Changes -/

/-- A change of a catalog. -/
inductive Change where
  | insert (c : Category)
  | remove (store : StoreId) (id : CategoryId)

/-- The store and the id that a change is about; no id for a category that was never saved. -/
def Change.key : Change → StoreId × Option CategoryId
  | insert c => Catalog.key c
  | remove store id => (store, some id)

/-- The catalog after a change. -/
def apply (catalog : Catalog) : Change → Catalog
  | .insert c => catalog.insert c
  | .remove store id => catalog.remove store id

/-- The catalog after some changes, without categories before them. -/
def ofChanges (changes : List Change) : Catalog := changes.foldl apply empty

/-- A category was saved, and no later change is about its store and id. -/
def Held (changes : List Change) (c : Category) : Prop :=
  LastWith (fun x => x.key = key c) changes (.insert c) ∧ c.id.isSome

theorem self_mem_put (c : Category) (es : List Category) : c ∈ put c es := by
  induction es with
  | nil => exact List.mem_singleton_self c
  | cons e r ih =>
    unfold put
    split
    · exact List.mem_cons_self
    · exact List.mem_cons_of_mem e ih

/-- A category that is saved takes the place of the one with its store and id. -/
theorem mem_insert_iff {catalog : Catalog} {c e : Category} (he : e.id.isSome) :
    c ∈ (catalog.insert e).entries ↔ c = e ∨ c ∈ catalog.entries ∧ key c ≠ key e := by
  have hentries : (catalog.insert e).entries = put e catalog.entries := by
    rw [insert, dif_pos he]
  constructor
  · intro hc
    by_cases hkey : key c = key e
    · have hself : e ∈ (catalog.insert e).entries := hentries ▸ self_mem_put e _
      obtain ⟨hstore, hid⟩ := Prod.mk.inj hkey
      exact Or.inl (eq_of_key hc hself hstore hid)
    · exact Or.inr ⟨(mem_put_of_ne hkey).1 (hentries ▸ hc), hkey⟩
  · rintro (rfl | ⟨hc, hkey⟩)
    · exact hentries ▸ self_mem_put c _
    · exact hentries ▸ (mem_put_of_ne hkey).2 hc

theorem mem_remove_iff {catalog : Catalog} {c : Category} {store : StoreId} {id : CategoryId} :
    c ∈ (catalog.remove store id).entries ↔ c ∈ catalog.entries ∧ key c ≠ (store, some id) := by
  simp [remove]

/-- What a single change does: it saves a category, and the others stay unless it is about them. -/
theorem mem_apply {catalog : Catalog} {c : Category} {x : Change} :
    c ∈ (catalog.apply x).entries ↔
      (x = .insert c ∧ c.id.isSome) ∨ c ∈ catalog.entries ∧ x.key ≠ key c := by
  cases x with
  | remove store id =>
    rw [apply, mem_remove_iff, Change.key, ne_comm]
    simp
  | insert e =>
    rw [apply, Change.key, ne_comm, Change.insert.injEq]
    by_cases he : e.id.isSome
    · rw [mem_insert_iff he]
      refine or_congr_left ⟨?_, ?_⟩
      · rintro rfl
        exact ⟨rfl, he⟩
      · rintro ⟨rfl, -⟩
        rfl
    · have hinsert : catalog.insert e = catalog := by rw [insert, dif_neg he]
      rw [hinsert]
      constructor
      · intro hc
        -- what is held has an id, and so another key
        refine Or.inr ⟨hc, fun hkey => he ?_⟩
        exact (Prod.mk.inj hkey).2 ▸ catalog.saved c hc
      · rintro (⟨rfl, hid⟩ | ⟨hc, -⟩)
        · exact absurd hid he
        · exact hc

/-- One more change saves a category, and the others stay held unless it is about them. -/
theorem held_concat {changes : List Change} {c : Category} {x : Change} :
    Held (changes ++ [x]) c ↔
      (x = .insert c ∧ c.id.isSome) ∨ Held changes c ∧ x.key ≠ key c := by
  rw [Held, Held, lastWith_concat]
  constructor
  · rintro ⟨⟨-, rfl⟩ | ⟨hkey, hc⟩, hid⟩
    · exact Or.inl ⟨rfl, hid⟩
    · exact Or.inr ⟨⟨hc, hid⟩, hkey⟩
  · rintro (⟨rfl, hid⟩ | ⟨⟨hc, hid⟩, hkey⟩)
    · exact ⟨Or.inl ⟨rfl, rfl⟩, hid⟩
    · exact ⟨Or.inr ⟨hkey, hc⟩, hid⟩

/-- **A catalog holds what was saved, and neither replaced nor removed since.** -/
theorem mem_ofChanges {changes : List Change} {c : Category} :
    c ∈ (ofChanges changes).entries ↔ Held changes c := by
  induction changes using List.reverseRecOn with
  | nil => exact iff_of_false List.not_mem_nil fun h => not_lastWith_nil h.1
  | append_singleton changes x ih =>
    rw [ofChanges, List.foldl_append, List.foldl_cons, List.foldl_nil, mem_apply, held_concat, ← ih]
    rfl

/-! ## Descendants -/

theorem isAncestorOf_iff {c d : Category} :
    c.isAncestorOf d = true ↔ c.path <+: d.path ∧ c.path ≠ d.path := by
  rw [Category.isAncestorOf, Bool.and_eq_true, decide_eq_true_eq, List.isPrefixOf_iff_prefix]
  constructor
  · rintro ⟨hlength, hbelow⟩
    exact ⟨hbelow, fun h => by rw [h] at hlength; exact Nat.lt_irrefl _ hlength⟩
  · rintro ⟨hbelow, hne⟩
    refine ⟨Nat.lt_of_le_of_ne hbelow.length_le fun h => hne ?_, hbelow⟩
    exact hbelow.eq_of_length h

theorem mem_descendants {catalog : Catalog} {store : StoreId} {e d : Category} :
    d ∈ catalog.descendants store e ↔
      d ∈ catalog.entries ∧ d.store = store ∧ e.path <+: d.path ∧ e.path ≠ d.path := by
  rw [descendants, List.mem_mergeSort, List.mem_filter, Bool.and_eq_true, beq_iff_eq,
    isAncestorOf_iff]

/-- A category comes in front of another one: its path is shorter, or as long and its id smaller. -/
def Precedes (a b : Category) : Prop :=
  a.path.length < b.path.length ∨ a.path.length = b.path.length ∧
    ∃ i j, a.id = some i ∧ b.id = some j ∧ i < j

theorem not_precedes_self (c : Category) : ¬ Precedes c c := by
  rintro (h | ⟨-, i, j, hi, hj, h⟩)
  · exact Nat.lt_irrefl _ h
  · obtain rfl := Option.some.inj (hi.symm.trans hj)
    exact UInt64.lt_irrefl i h

/-- Of two saved categories with different ids the one that comes no later comes in front. -/
theorem precedes_of_noLater {a b : Category} (ha : a.id.isSome) (hb : b.id.isSome)
    (hne : a.id ≠ b.id) (h : noLater a b = true) : Precedes a b := by
  obtain ⟨i, hi⟩ := Option.isSome_iff_exists.1 ha
  obtain ⟨j, hj⟩ := Option.isSome_iff_exists.1 hb
  simp only [noLater, hi, hj, Bool.or_eq_true, Bool.and_eq_true, beq_iff_eq, decide_eq_true_eq,
    Option.getD_some] at h
  rcases h with h | ⟨hlength, hle⟩
  · exact Or.inl h
  · have hij : i ≠ j := fun hij => hne (by rw [hi, hj, hij])
    exact Or.inr ⟨hlength, i, j, hi, hj, UInt64.lt_of_le_of_ne hle hij⟩

/-- **Descendants are listed in a strict order.** -/
theorem pairwise_descendants (catalog : Catalog) (store : StoreId) (e : Category) :
    (catalog.descendants store e).Pairwise Precedes := by
  have hsorted : (catalog.descendants store e).Pairwise fun a b => noLater a b = true :=
    pairwise_noLater _
  have hdistinct : (catalog.descendants store e).Nodup :=
    (List.mergeSort_perm _ _).nodup_iff.2 ((List.Nodup.of_map _ catalog.distinct).filter _)
  refine (hsorted.and hdistinct).imp_of_mem ?_
  rintro a b ha hb ⟨hnoLater, hne⟩
  obtain ⟨ha, hastore, -⟩ := mem_descendants.1 ha
  obtain ⟨hb, hbstore, -⟩ := mem_descendants.1 hb
  refine precedes_of_noLater (catalog.saved a ha) (catalog.saved b hb) (fun hid => hne ?_) hnoLater
  exact eq_of_key ha hb (hastore.trans hbstore.symm) hid

theorem nodup_descendants (catalog : Catalog) (store : StoreId) (e : Category) :
    (catalog.descendants store e).Nodup := by
  refine (pairwise_descendants catalog store e).imp ?_
  rintro a _ h rfl
  exact not_precedes_self a h

/-! ## The same categories -/

/-- The catalogs hold the same categories, in whichever order. -/
def SameAs (a b : Catalog) : Prop := ∀ c, c ∈ a.entries ↔ c ∈ b.entries

section
variable {a b : Catalog} (h : SameAs a b)
include h

theorem SameAs.alikeIn (store : StoreId) : AlikeIn store a b := fun c _ => h c

theorem SameAs.size_eq : a.size = b.size := by
  have hnodup : ∀ c : Catalog, c.entries.Nodup := fun c => List.Nodup.of_map _ c.distinct
  exact ((List.perm_ext_iff_of_nodup (hnodup a) (hnodup b)).2 h).length_eq

end

end Merchandising.Catalog

/-
  What the two tiers hold after a change.

  * `LocalCache.of_insert`: an entry of the local tier is the one that was put in last, or was there
    before; the capacity stays as it is;
  * `SharedCache.Tagged` is a tier all of whose texts have a tag; it stays so when a text with that
    tag is saved (`Tagged.save`), and is empty once the tag is invalidated (`Tagged.invalidate`).
-/
import Merchandising.Cache.Local
import Merchandising.Cache.Shared

namespace Merchandising

/-! ## The local tier -/

namespace LocalCache

theorem of_makeRoom {c : LocalCache} {order : List CacheKey} {k : CacheKey} {e : StoredQuery}
    (h : (c.makeRoom order).entries[k]? = some e) : c.entries[k]? = some e := by
  induction order generalizing c with
  | nil => exact h
  | cons k' r ih =>
    unfold makeRoom at h
    split at h
    · exact h
    · split at h
      · have h := ih h
        rw [Std.HashMap.getElem?_erase] at h
        split at h
        · nomatch h
        · exact h
      · exact ih h

theorem of_insert {c : LocalCache} {k k' : CacheKey} {e e' : StoredQuery}
    (h : (c.insert k e).entries[k']? = some e') :
    k' = k ∧ e' = e ∨ c.entries[k']? = some e' := by
  have hput : ∀ m : Std.HashMap CacheKey StoredQuery,
      (m.insert k e)[k']? = some e' → k' = k ∧ e' = e ∨ m[k']? = some e' := by
    intro m h
    rw [Std.HashMap.getElem?_insert] at h
    split at h
    · rename_i hk
      exact Or.inl ⟨(eq_of_beq hk).symm, (Option.some.inj h).symm⟩
    · exact Or.inr h
  unfold insert at h
  split at h
  · exact Or.inr h
  · split at h
    · exact hput _ h
    · exact (hput _ h).imp_right of_makeRoom

theorem capacity_get (c : LocalCache) (k : CacheKey) : (c.get k).2.capacity = c.capacity := by
  unfold get
  split <;> rfl

theorem capacity_makeRoom (c : LocalCache) (order : List CacheKey) :
    (c.makeRoom order).capacity = c.capacity := by
  induction order generalizing c with
  | nil => rfl
  | cons k r ih =>
    unfold makeRoom
    split
    · rfl
    · split
      · exact ih _
      · exact ih c

theorem capacity_insert (c : LocalCache) (k : CacheKey) (e : StoredQuery) :
    (c.insert k e).capacity = c.capacity := by
  unfold insert
  split
  · rfl
  · split
    · rfl
    · exact capacity_makeRoom c c.order

end LocalCache

/-! ## The shared tier -/

namespace SharedCache

/-- All texts of the tier have a tag. -/
def Tagged (c : SharedCache) (tag : String) : Prop :=
  ∀ key text, c.load? key = some text → key ∈ c.keysOf[tag]?.getD []

theorem Tagged.empty (tag : String) : Tagged .empty tag := by
  intro key text h
  simp [SharedCache.empty, load?] at h

theorem keysOf_unlink {c : SharedCache} {key tag t : String} (h : t ≠ tag) :
    (c.unlink key t).keysOf[tag]? = c.keysOf[tag]? := by
  unfold unlink
  split
  · rfl
  · split
    · simp [Std.HashMap.getElem?_erase, h]
    · simp [Std.HashMap.getElem?_insert, h]

theorem keysOf_unlink_foldl {c : SharedCache} {key tag : String} {tags : List String}
    (h : tag ∉ tags) :
    (tags.foldl (fun c t => c.unlink key t) c).keysOf[tag]? = c.keysOf[tag]? := by
  induction tags generalizing c with
  | nil => rfl
  | cons t r ih =>
    rw [List.mem_cons, not_or] at h
    rw [List.foldl_cons, ih h.2, keysOf_unlink (Ne.symm h.1)]

theorem mem_keysOf_link {c : SharedCache} {key tag t k : String} :
    k ∈ (c.link key t).keysOf[tag]?.getD [] ↔
      k ∈ c.keysOf[tag]?.getD [] ∨ t = tag ∧ k = key := by
  unfold link
  by_cases h : t = tag
  · subst h
    simp [or_comm]
  · simp [Std.HashMap.getElem?_insert, h]

theorem mem_keysOf_link_foldl {c : SharedCache} {key tag k : String} {tags : List String} :
    k ∈ (tags.foldl (fun c t => c.link key t) c).keysOf[tag]?.getD [] ↔
      k ∈ c.keysOf[tag]?.getD [] ∨ tag ∈ tags ∧ k = key := by
  induction tags generalizing c with
  | nil => simp
  | cons t r ih =>
    rw [List.foldl_cons, ih, mem_keysOf_link, List.mem_cons]
    constructor
    · rintro ((h | ⟨rfl, h⟩) | ⟨ht, h⟩)
      · exact Or.inl h
      · exact Or.inr ⟨Or.inl rfl, h⟩
      · exact Or.inr ⟨Or.inr ht, h⟩
    · rintro (h | ⟨rfl | ht, h⟩)
      · exact Or.inl (Or.inl h)
      · exact Or.inl (Or.inr ⟨rfl, h⟩)
      · exact Or.inr ⟨ht, h⟩

/-- A tag that a text is saved with is the tag of that text and of those that had it before. -/
theorem mem_keysOf_save {c : SharedCache} {key text tag k : String} {tags : List String}
    (ht : tag ∈ tags) :
    k ∈ (c.save key text tags).keysOf[tag]?.getD [] ↔ k ∈ c.keysOf[tag]?.getD [] ∨ k = key := by
  have hstale : tag ∉ (c.tagsOf[key]?.getD []).filter fun t => !tags.contains t := by
    intro h
    simpa [ht] using (List.mem_filter.1 h).2
  unfold save
  simp only [mem_keysOf_link_foldl, ht, true_and, keysOf_unlink_foldl hstale, putRaw]

theorem Tagged.save {c : SharedCache} {key text tag : String} {tags : List String}
    (h : c.Tagged tag) (ht : tag ∈ tags) : (c.save key text tags).Tagged tag := by
  intro k t hk
  rw [load?_save] at hk
  rw [mem_keysOf_save ht]
  split at hk
  · exact Or.inr ‹_›
  · exact Or.inl (h k t hk)

/-! ## Invalidation -/

theorem load?_dropKey (c : SharedCache) (tag key k : String) :
    (c.dropKey tag key).1.load? k = if k = key then none else c.load? k := by
  unfold dropKey
  simp only [load?, entries_foldl fun c t => entries_unlink c key t, Std.HashMap.getElem?_erase]
  by_cases h : k = key
  · simp [h]
  · simp [h, Ne.symm h]

theorem load?_dropKeys (tag : String) (keys : List String) (k : String) :
    ∀ p : SharedCache × Nat,
      (keys.foldl (fun (c, n) key => let (c, m) := c.dropKey tag key; (c, n + m)) p).1.load? k =
        if k ∈ keys then none else p.1.load? k := by
  induction keys with
  | nil => simp
  | cons key r ih =>
    intro p
    rw [List.foldl_cons, ih, load?_dropKey]
    by_cases hk : k = key <;> by_cases hr : k ∈ r <;> simp [hk, hr]

theorem load?_dropTag (c : SharedCache) (tag k : String) :
    (c.dropTag tag).1.load? k =
      if k ∈ c.keysOf[tag]?.getD [] then none else c.load? k := by
  unfold dropTag
  cases h : c.keysOf[tag]? with
  | none => simp
  | some keys =>
    simp only [load?_dropKeys, Option.getD_some]
    rfl

/-- Nothing is left once the tag of all texts is invalidated. -/
theorem Tagged.invalidate {c : SharedCache} {tag : String} (h : c.Tagged tag) (key : String) :
    (c.invalidate [tag]).1.load? key = none := by
  have hdrop : (c.invalidate [tag]).1 = (c.dropTag tag).1 := rfl
  rw [hdrop, load?_dropTag]
  split
  · rfl
  · cases hl : c.load? key with
    | none => rfl
    | some text => exact absurd (h key text hl) ‹_›

end SharedCache

end Merchandising

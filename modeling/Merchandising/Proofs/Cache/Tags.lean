/-
  The tag indexes of the shared tier.

  * `SharedCache.Indexed` is a tier whose two indexes agree: a key is listed under a tag iff the tag
    is one of its tags, no tag is listed without keys, and what has tags has a text;
  * `Indexed.save`, `Indexed.putRaw` and `Indexed.invalidate`: every change keeps it so;
  * `Slot` is what the changes so far say of a single key, whatever happened to the others;
  * `load?_invalidate`, `tagsOf_invalidate` and `dropped_invalidate`: an invalidation drops the
    texts with one of its tags, counts them, and leaves the others as they were.

  While the keys of a tag are dropped one after the other, the indexes agree but for those that are
  left (`Dropping`).
-/
import Mathlib.Data.List.Nodup
import Mathlib.Tactic.Tauto
import Merchandising.Proofs.Cache.Tiers

namespace Merchandising.SharedCache

/-! ## Links -/

/-- Under every tag a key is listed once, and no tag is listed without keys. -/
structure Proper (c : SharedCache) : Prop where
  once : ∀ tag : String, (c.keysOf[tag]?.getD []).Nodup
  inhabited : ∀ tag : String, c.keysOf[tag]? ≠ some []

section
variable {c : SharedCache} {key tag t k : String}

theorem Proper.of_eq {c' : SharedCache} (hc : c.Proper) (h : c'.keysOf = c.keysOf) : c'.Proper := by
  constructor
  · rw [h]
    exact hc.once
  · rw [h]
    exact hc.inhabited

theorem keysOf_unlink_self (c : SharedCache) (key tag : String) :
    (c.unlink key tag).keysOf[tag]?.getD [] = (c.keysOf[tag]?.getD []).erase key := by
  unfold unlink
  cases h : c.keysOf[tag]? with
  | none => simp [h]
  | some keys =>
    dsimp only
    split
    · rename_i he
      simp [he]
    · simp

theorem mem_keysOf_unlink (hc : c.Proper) :
    k ∈ (c.unlink key t).keysOf[tag]?.getD [] ↔
      k ∈ c.keysOf[tag]?.getD [] ∧ ¬ (t = tag ∧ k = key) := by
  by_cases h : t = tag
  · subst h
    rw [keysOf_unlink_self, (hc.once t).mem_erase_iff]
    simp [and_comm]
  · simp [keysOf_unlink h, h]

theorem Proper.unlink (hc : c.Proper) (key t : String) : (c.unlink key t).Proper where
  once tag := by
    by_cases h : t = tag
    · subst h
      rw [keysOf_unlink_self]
      exact (hc.once t).erase key
    · rw [keysOf_unlink h]
      exact hc.once tag
  inhabited tag := by
    by_cases h : t = tag
    · subst h
      unfold SharedCache.unlink
      split
      · exact hc.inhabited t
      · split
        · simp
        · rename_i hne
          simpa using hne
    · rw [keysOf_unlink h]
      exact hc.inhabited tag

theorem Proper.link (hc : c.Proper) (key t : String) : (c.link key t).Proper where
  once tag := by
    by_cases h : t = tag
    · subst h
      simpa [SharedCache.link] using (hc.once t).insert
    · simpa [SharedCache.link, Std.HashMap.getElem?_insert, h] using hc.once tag
  inhabited tag := by
    by_cases h : t = tag
    · subst h
      simp [SharedCache.link, List.ne_nil_of_mem List.mem_insert_self]
    · simpa [SharedCache.link, Std.HashMap.getElem?_insert, h] using hc.inhabited tag

theorem Proper.unlinks (hc : c.Proper) (key : String) (tags : List String) :
    (tags.foldl (fun c t => c.unlink key t) c).Proper := by
  induction tags generalizing c with
  | nil => exact hc
  | cons t r ih => exact ih (hc.unlink key t)

theorem Proper.links (hc : c.Proper) (key : String) (tags : List String) :
    (tags.foldl (fun c t => c.link key t) c).Proper := by
  induction tags generalizing c with
  | nil => exact hc
  | cons t r ih => exact ih (hc.link key t)

theorem mem_keysOf_unlinks (hc : c.Proper) {tags : List String} :
    k ∈ (tags.foldl (fun c t => c.unlink key t) c).keysOf[tag]?.getD [] ↔
      k ∈ c.keysOf[tag]?.getD [] ∧ ¬ (tag ∈ tags ∧ k = key) := by
  induction tags generalizing c with
  | nil => simp
  | cons t r ih =>
    rw [List.foldl_cons, ih (hc.unlink key t), mem_keysOf_unlink hc, List.mem_cons, eq_comm (a := t)]
    tauto

theorem tagsOf_unlink (c : SharedCache) (key t : String) : (c.unlink key t).tagsOf = c.tagsOf := by
  unfold unlink
  split
  · rfl
  · split <;> rfl

theorem tagsOf_unlinks (c : SharedCache) (key : String) (tags : List String) :
    (tags.foldl (fun c t => c.unlink key t) c).tagsOf = c.tagsOf := by
  induction tags generalizing c with
  | nil => rfl
  | cons t r ih => rw [List.foldl_cons, ih, tagsOf_unlink]

theorem tagsOf_links (c : SharedCache) (key : String) (tags : List String) :
    (tags.foldl (fun c t => c.link key t) c).tagsOf = c.tagsOf := by
  induction tags generalizing c with
  | nil => rfl
  | cons t r ih =>
    rw [List.foldl_cons, ih]
    rfl

end

/-! ## Saving -/

/-- The two indexes agree. -/
structure Indexed (c : SharedCache) : Prop extends c.Proper where
  linked : ∀ key tag : String, key ∈ c.keysOf[tag]?.getD [] ↔ tag ∈ c.tagsOf[key]?.getD []
  kept : ∀ key : String, c.tagsOf[key]?.isSome → (c.load? key).isSome

theorem Indexed.empty : Indexed .empty := by
  constructor
  · constructor <;> simp [SharedCache.empty]
  · simp [SharedCache.empty]
  · simp [SharedCache.empty]

section
variable {c : SharedCache} (hc : c.Indexed) (key text : String)
include hc

theorem Indexed.putRaw : (c.putRaw key text).Indexed where
  once := hc.once
  inhabited := hc.inhabited
  linked := hc.linked
  kept k hk := by
    rw [load?_putRaw]
    split
    · rfl
    · exact hc.kept k hk

omit hc in
/-- The tags of a text are those it was saved with. -/
theorem tagsOf_save (c : SharedCache) (key text : String) (tags : List String) (k : String) :
    (c.save key text tags).tagsOf[k]? = if k = key then some tags.eraseDups else c.tagsOf[k]? := by
  unfold save
  simp only [tagsOf_links, tagsOf_unlinks, SharedCache.putRaw, Std.HashMap.getElem?_insert]
  by_cases h : k = key
  · simp [h]
  · simp [h, Ne.symm h]

theorem Indexed.save (tags : List String) : (c.save key text tags).Indexed where
  toProper := by
    have hstale := (hc.putRaw key text).toProper.unlinks key
      ((c.tagsOf[key]?.getD []).filter fun t => !tags.contains t)
    apply Proper.links
    exact hstale.of_eq rfl
  linked k tag := by
    have hproper := (hc.putRaw key text).toProper
    have hlinked := (hc.putRaw key text).linked
    rw [tagsOf_save]
    unfold SharedCache.save
    simp only [mem_keysOf_link_foldl, mem_keysOf_unlinks hproper, hlinked]
    by_cases hk : k = key
    · subst hk
      simp [SharedCache.putRaw]
      tauto
    · simp [SharedCache.putRaw, hk]
  kept k hk := by
    rw [load?_save]
    rw [tagsOf_save] at hk
    split
    · rfl
    · rw [if_neg ‹_›] at hk
      exact hc.kept k hk

end

/-! ## Dropping -/

/-- The indexes while the keys of a tag are dropped, which is no longer listed: they agree but for
    the tag, which the keys in `rest` still have. -/
structure Dropping (c : SharedCache) (tag : String) (rest : List String) : Prop extends c.Proper where
  gone : c.keysOf[tag]? = none
  linked : ∀ key t : String, t ≠ tag →
    (key ∈ c.keysOf[t]?.getD [] ↔ t ∈ c.tagsOf[key]?.getD [])
  left : ∀ key : String, tag ∈ c.tagsOf[key]?.getD [] ↔ key ∈ rest
  distinct : rest.Nodup
  kept : ∀ key : String, c.tagsOf[key]?.isSome → (c.load? key).isSome

theorem tagsOf_dropKey (c : SharedCache) (tag key k : String) :
    (c.dropKey tag key).1.tagsOf[k]? = if k = key then none else c.tagsOf[k]? := by
  unfold dropKey
  simp only [tagsOf_unlinks, Std.HashMap.getElem?_erase]
  by_cases h : k = key
  · simp [h]
  · simp [h, Ne.symm h]

theorem size_dropKey (c : SharedCache) (tag key : String) :
    (c.dropKey tag key).1.size + (c.dropKey tag key).2 = c.size := by
  unfold dropKey size
  simp only [entries_foldl fun c t => entries_unlink c key t, Std.HashMap.size_erase,
    Std.HashMap.contains_iff_mem]
  split
  · have hpos : 0 < c.entries.size := by
      rw [← Std.HashMap.length_keys]
      exact List.length_pos_of_mem (Std.HashMap.mem_keys.2 ‹_›)
    omega
  · rfl

section
variable {c : SharedCache} {tag : String}

theorem keysOf_dropKey (hc : c.Proper) {key k t : String} :
    k ∈ (c.dropKey tag key).1.keysOf[t]?.getD [] ↔ k ∈ c.keysOf[t]?.getD [] ∧
      ¬ (t ∈ c.tagsOf[key]?.getD [] ∧ t ≠ tag ∧ k = key) := by
  have hproper : Proper { c with tagsOf := c.tagsOf.erase key } := hc.of_eq rfl
  unfold dropKey
  simp only [mem_keysOf_unlinks hproper, List.mem_filter, decide_eq_true_eq, and_assoc]

/-- One more key is dropped. -/
theorem Dropping.step {key : String} {rest : List String} (hc : c.Dropping tag (key :: rest)) :
    (c.dropKey tag key).1.Dropping tag rest where
  toProper := by
    have hproper : Proper { c with tagsOf := c.tagsOf.erase key } := hc.toProper.of_eq rfl
    exact (hproper.unlinks key _).of_eq rfl
  gone := by
    have hnot : tag ∉ (c.tagsOf[key]?.getD []).filter (· ≠ tag) := by simp
    unfold dropKey
    simp only [keysOf_unlink_foldl hnot, hc.gone]
  linked k t ht := by
    rw [keysOf_dropKey hc.toProper, tagsOf_dropKey, hc.linked k t ht]
    by_cases hk : k = key
    · subst hk
      simp [ht]
    · simp [hk]
  left k := by
    have hnew := (List.nodup_cons.1 hc.distinct).1
    rw [tagsOf_dropKey]
    by_cases hk : k = key
    · subst hk
      simpa using hnew
    · rw [if_neg hk, hc.left, List.mem_cons, or_iff_right hk]
  distinct := (List.nodup_cons.1 hc.distinct).2
  kept k hk := by
    rw [tagsOf_dropKey] at hk
    rw [load?_dropKey]
    split
    · simp [‹k = key›] at hk
    · rw [if_neg ‹_›] at hk
      exact hc.kept k hk

/-- The indexes agree again when all keys of the tag are dropped. -/
theorem Dropping.indexed (hc : c.Dropping tag []) : c.Indexed where
  toProper := hc.toProper
  linked key t := by
    by_cases ht : t = tag
    · subst ht
      rw [hc.left, hc.gone]
      simp
    · exact hc.linked key t ht
  kept := hc.kept

/-- **All keys of the tag are dropped**, and no other one. -/
theorem Dropping.run {keys : List String} {p : SharedCache × Nat} (hp : p.1.Dropping tag keys) :
    let q := keys.foldl (fun (c, n) key => let (c, m) := c.dropKey tag key; (c, n + m)) p
    q.1.Indexed ∧ q.1.size + q.2 = p.1.size + p.2 ∧
      ∀ k : String, q.1.tagsOf[k]? = if k ∈ keys then none else p.1.tagsOf[k]? := by
  induction keys generalizing p with
  | nil => exact ⟨hp.indexed, rfl, by simp⟩
  | cons key r ih =>
    obtain ⟨hindexed, hsize, htags⟩ :=
      ih (p := ((p.1.dropKey tag key).1, p.2 + (p.1.dropKey tag key).2)) hp.step
    refine ⟨hindexed, ?_, fun k => ?_⟩
    · have hkey := size_dropKey p.1 tag key
      refine hsize.trans ?_
      dsimp only
      omega
    · rw [List.foldl_cons, htags, tagsOf_dropKey]
      by_cases hk : k = key <;> by_cases hr : k ∈ r <;> simp [hk, hr]

end

/-! ## Invalidation -/

/-- Whether the text under a key has one of some tags. -/
def hasAny (c : SharedCache) (tags : List String) (key : String) : Bool :=
  (c.tagsOf[key]?.getD []).any tags.contains

theorem hasAny_cons (c : SharedCache) (tag : String) (tags : List String) (key : String) :
    c.hasAny (tag :: tags) key = (c.hasAny [tag] key || c.hasAny tags key) := by
  rw [Bool.eq_iff_iff]
  simp only [hasAny, List.any_eq_true, Bool.or_eq_true, List.contains_iff_mem, List.mem_cons,
    List.not_mem_nil, or_false, and_or_left, exists_or]

section
variable {c : SharedCache} (hc : c.Indexed)
include hc

/-- The keys that are listed under a tag can be dropped. -/
theorem Indexed.dropping {tag : String} {keys : List String} (h : c.keysOf[tag]? = some keys) :
    Dropping { c with keysOf := c.keysOf.erase tag } tag keys where
  once t := by
    by_cases ht : tag = t
    · simp [ht]
    · simpa [Std.HashMap.getElem?_erase, ht] using hc.once t
  inhabited t := by
    by_cases ht : tag = t
    · simp [ht]
    · simpa [Std.HashMap.getElem?_erase, ht] using hc.inhabited t
  gone := by simp
  linked key t ht := by simpa [Std.HashMap.getElem?_erase, Ne.symm ht] using hc.linked key t
  left key := by
    have hlinked := hc.linked key tag
    rw [h] at hlinked
    exact hlinked.symm
  distinct := by
    have honce := hc.once tag
    rw [h] at honce
    exact honce
  kept := hc.kept

/-- The texts with a tag are dropped. -/
theorem Indexed.dropTag (tag : String) :
    (c.dropTag tag).1.Indexed ∧ (c.dropTag tag).1.size + (c.dropTag tag).2 = c.size ∧
      (∀ k : String, (c.dropTag tag).1.tagsOf[k]? =
        if c.hasAny [tag] k then none else c.tagsOf[k]?) ∧
      ∀ k, (c.dropTag tag).1.load? k = if c.hasAny [tag] k then none else c.load? k := by
  have hany : ∀ k, c.hasAny [tag] k = true ↔ k ∈ c.keysOf[tag]?.getD [] := by
    intro k
    rw [hc.linked]
    simp [hasAny]
  simp only [hany, load?_dropTag, implies_true, and_true]
  unfold SharedCache.dropTag
  cases h : c.keysOf[tag]? with
  | none => exact ⟨hc, rfl, by simp⟩
  | some keys =>
    obtain ⟨hindexed, hsize, htags⟩ := (hc.dropping h).run (p := (_, 0))
    exact ⟨hindexed, hsize, htags⟩

/-- **An invalidation keeps the indexes, and drops the texts with one of its tags.** -/
theorem Indexed.invalidate (tags : List String) :
    (c.invalidate tags).1.Indexed ∧ (c.invalidate tags).1.size + (c.invalidate tags).2 = c.size ∧
      (∀ k : String, (c.invalidate tags).1.tagsOf[k]? =
        if c.hasAny tags k then none else c.tagsOf[k]?) ∧
      ∀ k, (c.invalidate tags).1.load? k = if c.hasAny tags k then none else c.load? k := by
  have hrun : ∀ p : SharedCache × Nat, p.1.Indexed →
      let q := tags.foldl (fun (c, n) tag => let (c, m) := c.dropTag tag; (c, n + m)) p
      q.1.Indexed ∧ q.1.size + q.2 = p.1.size + p.2 ∧
        (∀ k : String, q.1.tagsOf[k]? = if p.1.hasAny tags k then none else p.1.tagsOf[k]?) ∧
        ∀ k, q.1.load? k = if p.1.hasAny tags k then none else p.1.load? k := by
    induction tags with
    | nil => exact fun p hp => ⟨hp, rfl, by simp [hasAny], by simp [hasAny]⟩
    | cons tag r ih =>
      intro p hp
      obtain ⟨hindexed, hsize, htags, hload⟩ := hp.dropTag tag
      obtain ⟨hindexed', hsize', htags', hload'⟩ :=
        ih ((p.1.dropTag tag).1, p.2 + (p.1.dropTag tag).2) hindexed
      have hany : ∀ k, p.1.hasAny (tag :: r) k =
          (p.1.hasAny [tag] k || (p.1.dropTag tag).1.hasAny r k) := by
        intro k
        rw [hasAny_cons]
        cases h : p.1.hasAny [tag] k with
        | true => rfl
        | false =>
          have hsame : (p.1.dropTag tag).1.tagsOf[k]? = p.1.tagsOf[k]? := by
            rw [htags, h, if_neg Bool.false_ne_true]
          rw [Bool.false_or, Bool.false_or, hasAny, hasAny, hsame]
      refine ⟨hindexed', ?_, fun k => ?_, fun k => ?_⟩
      · refine hsize'.trans ?_
        dsimp only
        omega
      · rw [List.foldl_cons, htags', htags, hany]
        cases p.1.hasAny [tag] k <;> simp
      · rw [List.foldl_cons, hload', hload, hany]
        cases p.1.hasAny [tag] k <;> simp
  exact hrun (c, 0) hc

/-- What an invalidation counts are the texts with one of its tags. -/
theorem Indexed.dropped_invalidate (tags : List String) :
    (c.invalidate tags).2 = (c.entries.keys.filter (c.hasAny tags)).length := by
  obtain ⟨-, hsize, -, hload⟩ := hc.invalidate tags
  have hrest : (c.invalidate tags).1.entries.keys.Perm
      (c.entries.keys.filter fun k => !c.hasAny tags k) := by
    refine (List.perm_ext_iff_of_nodup Std.HashMap.nodup_keys
      (Std.HashMap.nodup_keys.filter _)).2 fun k => ?_
    have hk := congrArg Option.isSome (hload k)
    simp only [load?, Std.HashMap.isSome_getElem?_eq_contains] at hk
    rw [Std.HashMap.mem_keys, ← Std.HashMap.contains_iff_mem, hk, List.mem_filter,
      Std.HashMap.mem_keys, ← Std.HashMap.contains_iff_mem]
    cases c.hasAny tags k <;> simp
  have hlength := hrest.length_eq
  have hsplit := List.length_eq_length_filter_add (l := c.entries.keys) (c.hasAny tags)
  rw [Std.HashMap.length_keys] at hlength hsplit
  unfold size at hsize
  omega

end

/-! ## Runs -/

/-- A change of the tier. -/
inductive Change where
  | save (key text : String) (tags : List String)
  | putRaw (key text : String)
  | invalidate (tags : List String)

/-- The tier after a change. -/
def apply (c : SharedCache) : Change → SharedCache
  | .save key text tags => c.save key text tags
  | .putRaw key text => c.putRaw key text
  | .invalidate tags => (c.invalidate tags).1

/-- What is kept under one key: a text, and the tags it was saved with, if it was saved. -/
structure Slot where
  text : String
  tags : Option (List String)

/-- What is kept under `key` after a change: what was saved last, unless it was dropped since. -/
def Slot.after (key : String) (slot : Option Slot) : Change → Option Slot
  | .save k text tags => if key = k then some ⟨text, some tags⟩ else slot
  | .putRaw k text => if key = k then some ⟨text, slot.bind Slot.tags⟩ else slot
  | .invalidate tags => slot.filter fun s => !(s.tags.getD []).any tags.contains

/-- What a tier keeps under a key. -/
structure Holds (c : SharedCache) (key : String) (slot : Option Slot) : Prop where
  text : c.load? key = slot.map Slot.text
  tags : c.tagsOf[key]? = (slot.bind Slot.tags).map List.eraseDups

theorem Indexed.apply {c : SharedCache} (hc : c.Indexed) (change : Change) :
    (c.apply change).Indexed := by
  cases change with
  | save key text tags => exact hc.save key text tags
  | putRaw key text => exact hc.putRaw key text
  | invalidate tags => exact (hc.invalidate tags).1

/-- A change does to a key what it says. -/
theorem Holds.apply {c : SharedCache} (hc : c.Indexed) {key : String} {slot : Option Slot}
    (h : c.Holds key slot) (change : Change) :
    (c.apply change).Holds key (Slot.after key slot change) := by
  cases change with
  | save k text tags =>
    constructor
    · rw [SharedCache.apply, load?_save, h.text, Slot.after]
      split <;> rfl
    · rw [SharedCache.apply, tagsOf_save, h.tags, Slot.after]
      split <;> rfl
  | putRaw k text =>
    constructor
    · rw [SharedCache.apply, load?_putRaw, h.text, Slot.after]
      split <;> rfl
    · rw [SharedCache.apply, Slot.after]
      split
      · exact h.tags
      · exact h.tags
  | invalidate tags =>
    obtain ⟨-, -, htags, hload⟩ := hc.invalidate tags
    have hany : c.hasAny tags key = ((slot.bind Slot.tags).getD []).any tags.contains := by
      rw [hasAny, h.tags]
      cases slot.bind Slot.tags with
      | none => rfl
      | some ts =>
        rw [Bool.eq_iff_iff]
        simp
    constructor
    · rw [SharedCache.apply, hload, h.text, hany, Slot.after]
      cases slot with
      | none => simp
      | some s => cases h : (s.tags.getD []).any tags.contains <;> simp [Option.filter, h]
    · rw [SharedCache.apply, htags, h.tags, hany, Slot.after]
      cases slot with
      | none => simp
      | some s => cases h : (s.tags.getD []).any tags.contains <;> simp [Option.filter, h]

/-- The tier after some changes. -/
def applyAll (c : SharedCache) (changes : List Change) : SharedCache := changes.foldl apply c

/-- What is kept under a key after some changes, first of all nothing. -/
def slotAfter (key : String) (changes : List Change) : Option Slot :=
  changes.foldl (Slot.after key) none

theorem indexed_applyAll (changes : List Change) {c : SharedCache} (hc : c.Indexed) :
    (c.applyAll changes).Indexed := by
  induction changes generalizing c with
  | nil => exact hc
  | cons change rest ih => exact ih (hc.apply change)

theorem holds_applyAll (changes : List Change) {c : SharedCache} (hc : c.Indexed) {key : String}
    {slot : Option Slot} (h : c.Holds key slot) :
    (c.applyAll changes).Holds key (changes.foldl (Slot.after key) slot) := by
  induction changes generalizing c slot with
  | nil => exact h
  | cons change rest ih => exact ih (hc.apply change) (h.apply hc change)

/-- **The tag indexes stay exact.**  After any changes of an empty tier, a key is listed under a tag
    iff the tag is one of its tags, no tag is listed without keys, what has tags has a text, and the
    tags are those of the last save unless the text was dropped since.  An invalidation then drops
    exactly the texts that have one of its tags, says how many they are, and leaves the other texts
    and their tags as they are. -/
theorem tags_exact (changes : List Change) (tags : List String) :
    let c := empty.applyAll changes
    let dropped := c.invalidate tags
    c.Indexed ∧ (∀ key, c.Holds key (slotAfter key changes)) ∧
      dropped.2 = (c.entries.keys.filter (c.hasAny tags)).length ∧
      ∀ key : String,
        dropped.1.load? key = (if c.hasAny tags key then none else c.load? key) ∧
        dropped.1.tagsOf[key]? = if c.hasAny tags key then none else c.tagsOf[key]? := by
  intro c dropped
  have hc : c.Indexed := indexed_applyAll changes .empty
  obtain ⟨-, -, htags, hload⟩ := hc.invalidate tags
  refine ⟨hc, fun key => holds_applyAll changes .empty ⟨?_, ?_⟩, hc.dropped_invalidate tags,
    fun key => ⟨hload key, htags key⟩⟩
  · simp [SharedCache.empty, load?]
  · simp [SharedCache.empty]

end Merchandising.SharedCache

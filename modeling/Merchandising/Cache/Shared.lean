/-
  The shared tier: texts by key, with tags.

  * `save` keeps a text under a key with tags, in place of an earlier text and its tags;
  * `invalidate` drops every text that has one of some tags;
  * tags are indexed both ways, `keysOf` by tag and `tagsOf` by key; no tag is indexed without keys;
  * `load?_save` says what is found after a text was saved.
-/
import Std.Data.HashMap

namespace Merchandising

/-- The shared tier of the cache. -/
structure SharedCache where
  entries : Std.HashMap String String
  /-- The keys of the texts that have a tag, each once. -/
  keysOf : Std.HashMap String (List String)
  /-- The tags of the text under a key, each once. -/
  tagsOf : Std.HashMap String (List String)

namespace SharedCache

/-- A tier without texts. -/
def empty : SharedCache := ⟨∅, ∅, ∅⟩

/-- The number of texts. -/
def size (c : SharedCache) : Nat := c.entries.size

/-- The text under a key. -/
def load? (c : SharedCache) (key : String) : Option String := c.entries[key]?

/-- The tier with another text under a key, whatever its tags. -/
def putRaw (c : SharedCache) (key text : String) : SharedCache :=
  { c with entries := c.entries.insert key text }

/-- The key no longer has the tag. -/
def unlink (c : SharedCache) (key tag : String) : SharedCache :=
  match c.keysOf[tag]? with
  | none => c
  | some keys =>
    match keys.erase key with
    | [] => { c with keysOf := c.keysOf.erase tag }
    | rest => { c with keysOf := c.keysOf.insert tag rest }

/-- The key has the tag. -/
def link (c : SharedCache) (key tag : String) : SharedCache :=
  { c with keysOf := c.keysOf.insert tag ((c.keysOf[tag]?.getD []).insert key) }

/-- The tier with a text and its tags. -/
def save (c : SharedCache) (key text : String) (tags : List String) : SharedCache :=
  let stale := (c.tagsOf[key]?.getD []).filter fun t => !tags.contains t
  let c := stale.foldl (fun c t => c.unlink key t) (c.putRaw key text)
  let c := { c with tagsOf := c.tagsOf.insert key tags.eraseDups }
  tags.foldl (fun c t => c.link key t) c

/-- The tier without the text under a key, which has the tag `tag`, and whether there was one. -/
def dropKey (c : SharedCache) (tag key : String) : SharedCache × Nat :=
  let others := (c.tagsOf[key]?.getD []).filter (· ≠ tag)
  let c := others.foldl (fun c t => c.unlink key t) { c with tagsOf := c.tagsOf.erase key }
  ({ c with entries := c.entries.erase key }, if c.entries.contains key then 1 else 0)

/-- The tier without the texts that have a tag, and how many there were. -/
def dropTag (c : SharedCache) (tag : String) : SharedCache × Nat :=
  match c.keysOf[tag]? with
  | none => (c, 0)
  | some keys =>
    keys.foldl (fun (c, n) key => let (c, m) := c.dropKey tag key; (c, n + m))
      ({ c with keysOf := c.keysOf.erase tag }, 0)

/-- The tier without the texts that have one of some tags, and how many there were. -/
def invalidate (c : SharedCache) (tags : List String) : SharedCache × Nat :=
  tags.foldl (fun (c, n) tag => let (c, m) := c.dropTag tag; (c, n + m)) (c, 0)

/-! ## What is found -/

theorem load?_putRaw (c : SharedCache) (key text k : String) :
    (c.putRaw key text).load? k = if k = key then some text else c.load? k := by
  by_cases h : k = key
  · simp [load?, putRaw, h]
  · simp [load?, putRaw, Std.HashMap.getElem?_insert, h, Ne.symm h]

theorem entries_unlink (c : SharedCache) (key tag : String) :
    (c.unlink key tag).entries = c.entries := by
  unfold unlink
  split
  · rfl
  · split <;> rfl

theorem entries_link (c : SharedCache) (key tag : String) :
    (c.link key tag).entries = c.entries := rfl

/-- What leaves the texts alone at each step leaves them alone. -/
theorem entries_foldl {f : SharedCache → String → SharedCache}
    (h : ∀ c t, (f c t).entries = c.entries) (c : SharedCache) (tags : List String) :
    (tags.foldl f c).entries = c.entries := by
  induction tags generalizing c with
  | nil => rfl
  | cons t r ih => rw [List.foldl_cons, ih, h]

/-- A text that was saved is found, and the others are as before. -/
theorem load?_save (c : SharedCache) (key text : String) (tags : List String) (k : String) :
    (c.save key text tags).load? k = if k = key then some text else c.load? k := by
  rw [← load?_putRaw, load?, save]
  simp only [entries_foldl fun c t => entries_link c key t,
    entries_foldl fun c t => entries_unlink c key t]
  rfl

end SharedCache

end Merchandising

/-
  Catalogs: the saved categories, one for each store and id.

  * `insert` saves a category, in place of the one with its store and id; one without an id is not
    saved;
  * `load?` finds a category;
  * `descendants` are the categories of a store below another one, the shorter paths first, and
    those of one length in the order of their ids.
-/
import Merchandising.Catalog.Category

namespace Merchandising

/-- The saved categories. -/
structure Catalog where
  entries : List Category
  /-- Every saved category has an id. -/
  saved : ∀ c ∈ entries, c.id.isSome
  /-- No two have the same store and id. -/
  distinct : (entries.map fun c => (c.store, c.id)).Nodup

namespace Catalog

/-- What tells one saved category from another. -/
def key (c : Category) : StoreId × Option CategoryId := (c.store, c.id)

/-- The catalog without categories. -/
def empty : Catalog := ⟨[], by simp, by simp⟩

/-- The number of categories. -/
def size (c : Catalog) : Nat := c.entries.length

/-- The category of a store with an id. -/
def load? (c : Catalog) (store : StoreId) (id : CategoryId) : Option Category :=
  c.entries.find? fun e => key e == (store, some id)

/-- The catalog without the category of a store with an id. -/
def remove (c : Catalog) (store : StoreId) (id : CategoryId) : Catalog where
  entries := c.entries.filter fun e => key e != (store, some id)
  saved e he := c.saved e (List.mem_filter.1 he).1
  distinct := c.distinct.sublist (List.filter_sublist.map _)

/-- A list of categories with one more, in place of the one with its key. -/
def put (c : Category) : List Category → List Category
  | [] => [c]
  | e :: r => if key e = key c then c :: r else e :: put c r

theorem mem_put {c e : Category} {es : List Category} (h : e ∈ put c es) : e = c ∨ e ∈ es := by
  induction es with
  | nil => simpa [put] using h
  | cons a r ih =>
    unfold put at h
    split at h
    · rcases List.mem_cons.1 h with h | h
      · exact Or.inl h
      · exact Or.inr (by simp [h])
    · rcases List.mem_cons.1 h with h | h
      · exact Or.inr (by simp [h])
      · rcases ih h with h | h
        · exact Or.inl h
        · exact Or.inr (by simp [h])

theorem nodup_put (c : Category) {es : List Category} (h : (es.map key).Nodup) :
    ((put c es).map key).Nodup := by
  induction es with
  | nil => simp [put]
  | cons a r ih =>
    have ⟨ha, hr⟩ := List.nodup_cons.1 h
    unfold put
    split
    · rename_i hk
      exact List.nodup_cons.2 ⟨hk ▸ ha, hr⟩
    · rename_i hk
      refine List.nodup_cons.2 ⟨fun hm => ?_, ih hr⟩
      obtain ⟨e, he, hek⟩ := List.mem_map.1 hm
      rcases mem_put he with rfl | he
      · exact hk hek.symm
      · exact ha (List.mem_map.2 ⟨e, he, hek⟩)

/-- The catalog with one more category, if that has an id. -/
def insert (c : Catalog) (e : Category) : Catalog :=
  if h : e.id.isSome then
    { entries := put e c.entries
      saved := fun x hx => by
        rcases mem_put hx with rfl | hx
        · exact h
        · exact c.saved x hx
      distinct := nodup_put e c.distinct }
  else c

/-- The catalog of the categories of a list; of two with the same key the later one is saved. -/
def ofList (categories : List Category) : Catalog := categories.foldl insert empty

/-- Whether a category comes no later than another one among descendants. -/
def noLater (a b : Category) : Bool :=
  a.path.length < b.path.length ||
    (a.path.length == b.path.length && a.id.getD 0 ≤ b.id.getD 0)

/-- The categories of a store below a category. -/
def descendants (c : Catalog) (store : StoreId) (e : Category) : List Category :=
  (c.entries.filter fun d => d.store == store && e.isAncestorOf d).mergeSort noLater

end Catalog

end Merchandising

/-
  Finite sets of category ids, as increasing lists.

  `mem_insert`, `mem_union` and `mem_erase` say what the operations do to membership; a set is empty
  iff it has no member (`isEmpty_iff`), and two sets with the same members are equal (`ext`).
-/

namespace Merchandising

/-- The id of a category. -/
abbrev CategoryId := UInt64

/-- A finite set of category ids. -/
structure IdSet where
  ids : List CategoryId
  sorted : ids.Pairwise (· < ·)
  deriving DecidableEq

namespace IdSet

/-- Membership in the list. -/
instance : Membership CategoryId IdSet := ⟨fun s id => id ∈ s.ids⟩

instance (id : CategoryId) (s : IdSet) : Decidable (id ∈ s) :=
  inferInstanceAs (Decidable (id ∈ s.ids))

/-- The set without members. -/
def empty : IdSet := ⟨[], List.Pairwise.nil⟩

instance : EmptyCollection IdSet := ⟨empty⟩

/-- An increasing list with one more element. -/
def insertInto (id : CategoryId) : List CategoryId → List CategoryId
  | [] => [id]
  | a :: r => if id < a then id :: a :: r else if id = a then a :: r else a :: insertInto id r

theorem mem_insertInto {id x : CategoryId} {ids : List CategoryId} :
    x ∈ insertInto id ids ↔ x = id ∨ x ∈ ids := by
  induction ids with
  | nil => simp [insertInto]
  | cons a r ih =>
    unfold insertInto
    split
    · simp
    · split
      · rename_i h
        subst h
        simp
      · simp only [List.mem_cons, ih]
        exact ⟨fun h => by rcases h with h | h | h <;> simp [h],
          fun h => by rcases h with h | h | h <;> simp [h]⟩

theorem sorted_insertInto (id : CategoryId) {ids : List CategoryId} (h : ids.Pairwise (· < ·)) :
    (insertInto id ids).Pairwise (· < ·) := by
  induction ids with
  | nil => simp [insertInto]
  | cons a r ih =>
    have ⟨ha, hr⟩ := List.pairwise_cons.1 h
    unfold insertInto
    split
    · rename_i hlt
      refine List.pairwise_cons.2 ⟨fun x hx => ?_, h⟩
      rcases List.mem_cons.1 hx with rfl | hx
      · exact hlt
      · exact UInt64.lt_trans hlt (ha x hx)
    · split
      · exact h
      · rename_i hlt hne
        refine List.pairwise_cons.2 ⟨fun x hx => ?_, ih hr⟩
        rcases mem_insertInto.1 hx with rfl | hx
        · exact UInt64.lt_of_le_of_ne (UInt64.not_lt.1 hlt) (Ne.symm hne)
        · exact ha x hx

/-- The set with one more member. -/
def insert (s : IdSet) (id : CategoryId) : IdSet :=
  ⟨insertInto id s.ids, sorted_insertInto id s.sorted⟩

/-- The set of the elements of a list. -/
def ofList (ids : List CategoryId) : IdSet :=
  ids.foldl insert empty

/-- The members of two sets. -/
def union (s t : IdSet) : IdSet :=
  t.ids.foldl insert s

/-- The members that satisfy `p`. -/
def filter (p : CategoryId → Bool) (s : IdSet) : IdSet :=
  ⟨s.ids.filter p, s.sorted.filter p⟩

/-- The set without `id`. -/
def erase (s : IdSet) (id : CategoryId) : IdSet :=
  s.filter (· ≠ id)

/-- Whether the set has no member. -/
def isEmpty (s : IdSet) : Bool :=
  s.ids.isEmpty

/-- The number of members. -/
def size (s : IdSet) : Nat :=
  s.ids.length

/-- Whether some element of a list is a member. -/
def meets (s : IdSet) (ids : List CategoryId) : Bool :=
  ids.any (· ∈ s)

theorem mem_def {s : IdSet} {id : CategoryId} : id ∈ s ↔ id ∈ s.ids := Iff.rfl

@[simp] theorem notMem_empty (id : CategoryId) : id ∉ (∅ : IdSet) := by
  simp [mem_def, EmptyCollection.emptyCollection, empty]

@[simp] theorem mem_insert {s : IdSet} {id x : CategoryId} : x ∈ s.insert id ↔ x = id ∨ x ∈ s :=
  mem_insertInto

theorem mem_foldl_insert {ids : List CategoryId} {s : IdSet} {x : CategoryId} :
    x ∈ ids.foldl insert s ↔ x ∈ ids ∨ x ∈ s := by
  induction ids generalizing s with
  | nil => simp
  | cons a r ih =>
    rw [List.foldl_cons, ih, mem_insert, List.mem_cons]
    exact ⟨fun h => by rcases h with h | h | h <;> simp [h],
      fun h => by rcases h with (h | h) | h <;> simp [h]⟩

@[simp] theorem mem_ofList {ids : List CategoryId} {x : CategoryId} : x ∈ ofList ids ↔ x ∈ ids := by
  rw [ofList, mem_foldl_insert]
  exact or_iff_left (notMem_empty x)

@[simp] theorem mem_union {s t : IdSet} {x : CategoryId} : x ∈ s.union t ↔ x ∈ s ∨ x ∈ t := by
  rw [union, mem_foldl_insert, mem_def, mem_def, or_comm]

@[simp] theorem mem_filter {p : CategoryId → Bool} {s : IdSet} {x : CategoryId} :
    x ∈ s.filter p ↔ x ∈ s ∧ p x = true := by
  simp [mem_def, filter]

@[simp] theorem mem_erase {s : IdSet} {id x : CategoryId} : x ∈ s.erase id ↔ x ∈ s ∧ x ≠ id := by
  simp [erase]

@[simp] theorem meets_iff {s : IdSet} {ids : List CategoryId} :
    s.meets ids = true ↔ ∃ x ∈ ids, x ∈ s := by
  simp [meets]

theorem isEmpty_iff {s : IdSet} : s.isEmpty = true ↔ ∀ x, x ∉ s := by
  rw [isEmpty, List.isEmpty_iff, List.eq_nil_iff_forall_not_mem]
  rfl

theorem eq_of_ids {s t : IdSet} (h : s.ids = t.ids) : s = t := by
  cases s
  cases t
  simp_all

theorem nodup_ids (s : IdSet) : s.ids.Nodup :=
  s.sorted.imp fun h => UInt64.ne_of_lt h

/-- Sets with the same members are equal. -/
theorem ext {s t : IdSet} (h : ∀ x, x ∈ s ↔ x ∈ t) : s = t := by
  have hp : s.ids.Perm t.ids := (List.perm_ext_iff_of_nodup s.nodup_ids t.nodup_ids).2 h
  refine eq_of_ids (hp.eq_of_pairwise (fun a b _ _ hab hba => ?_) s.sorted t.sorted)
  exact absurd (UInt64.lt_trans hab hba) (UInt64.lt_irrefl a)

end IdSet

end Merchandising

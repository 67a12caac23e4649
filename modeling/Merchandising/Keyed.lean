/-
  Finite maps from names, as lists in the order of the names.

  * `put` binds a name, in place of an earlier binding;
  * `lookup_put` says what is found afterwards, `sorted_put` that the order is kept;
  * `KeyedMap` is a map whose list is sorted, so that equal maps are equal lists.
-/

namespace Merchandising

namespace Keyed

variable {β : Type}

/-- The names increase strictly. -/
abbrev Sorted (es : List (String × β)) : Prop :=
  es.Pairwise fun a b => a.1 < b.1

/-- The list with `key` bound to `value`. -/
def put (key : String) (value : β) : List (String × β) → List (String × β)
  | [] => [(key, value)]
  | (k, v) :: r =>
    if key < k then (key, value) :: (k, v) :: r
    else if key = k then (key, value) :: r
    else (k, v) :: put key value r

theorem lookup_put (key : String) (value : β) (es : List (String × β)) (k : String) :
    (put key value es).lookup k = if k = key then some value else es.lookup k := by
  induction es with
  | nil =>
    by_cases h : k = key
    · simp [put, h]
    · simp [put, h, List.lookup_cons, beq_eq_false_iff_ne.2 h]
  | cons e r ih =>
    obtain ⟨k', v'⟩ := e
    unfold put
    split
    · by_cases h : k = key
      · simp [h]
      · simp [h, List.lookup_cons, beq_eq_false_iff_ne.2 h]
    · split
      · rename_i hk
        subst hk
        by_cases h : k = key
        · simp [h]
        · simp [h, List.lookup_cons, beq_eq_false_iff_ne.2 h]
      · rename_i hk
        by_cases h : k = k'
        · subst h
          simp [Ne.symm hk]
        · simp only [List.lookup_cons, beq_eq_false_iff_ne.2 h]
          exact ih

theorem mem_put {key : String} {value : β} {es : List (String × β)} {e : String × β}
    (h : e ∈ put key value es) : e = (key, value) ∨ e ∈ es := by
  induction es with
  | nil => simpa [put] using h
  | cons a r ih =>
    obtain ⟨k, v⟩ := a
    unfold put at h
    split at h
    · simpa using h
    · split at h
      · rcases List.mem_cons.1 h with h | h
        · exact Or.inl h
        · exact Or.inr (by simp [h])
      · rcases List.mem_cons.1 h with h | h
        · exact Or.inr (by simp [h])
        · rcases ih h with h | h
          · exact Or.inl h
          · exact Or.inr (by simp [h])

theorem sorted_put (key : String) (value : β) {es : List (String × β)} (h : Sorted es) :
    Sorted (put key value es) := by
  induction es with
  | nil => simp [put, Sorted]
  | cons a r ih =>
    obtain ⟨k, v⟩ := a
    have ⟨hk, hr⟩ := List.pairwise_cons.1 h
    unfold put
    split
    · rename_i hlt
      refine List.pairwise_cons.2 ⟨fun e he => ?_, h⟩
      rcases List.mem_cons.1 he with rfl | he
      · exact hlt
      · exact String.lt_trans hlt (hk e he)
    · split
      · rename_i heq
        subst heq
        exact List.pairwise_cons.2 ⟨hk, hr⟩
      · rename_i hlt hne
        refine List.pairwise_cons.2 ⟨fun e he => ?_, ih hr⟩
        rcases mem_put he with rfl | he
        · rcases Decidable.em (k < key) with h | h
          · exact h
          · exact absurd (String.le_antisymm (String.not_lt.1 h) (String.not_lt.1 hlt)) hne
        · exact hk e he

end Keyed

/-- A finite map from names, in the order of the names. -/
structure KeyedMap (β : Type) where
  entries : List (String × β)
  sorted : Keyed.Sorted entries

namespace KeyedMap

variable {β : Type}

/-- The map without a name. -/
def empty : KeyedMap β := ⟨[], List.Pairwise.nil⟩

/-- The map with `key` bound to `value`, in place of an earlier binding. -/
def insert (m : KeyedMap β) (key : String) (value : β) : KeyedMap β :=
  ⟨Keyed.put key value m.entries, Keyed.sorted_put key value m.sorted⟩

/-- What a name is bound to. -/
def get? (m : KeyedMap β) (key : String) : Option β :=
  m.entries.lookup key

/-- The map of some bindings, of which a later one replaces an earlier one. -/
def ofList (es : List (String × β)) : KeyedMap β :=
  es.foldl (fun m e => m.insert e.1 e.2) empty

theorem get?_insert (m : KeyedMap β) (key : String) (value : β) (k : String) :
    (m.insert key value).get? k = if k = key then some value else m.get? k :=
  Keyed.lookup_put key value m.entries k

end KeyedMap

end Merchandising

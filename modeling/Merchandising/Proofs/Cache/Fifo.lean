/-
  The local tier is a bounded map that drops its oldest entry first.

  * `Shelf` is the plain list of the entries, oldest first: a new entry is put at its end, and if it
    is full the first one is dropped; an entry whose key is there is replaced where it is;
  * `LocalCache.Follows` is a tier that has the entries of a shelf under their keys, and their keys
    in the same order;
  * `Follows.insert`, `Follows.get` and `Follows.clear`: whatever is done with both, the tier still
    follows the shelf;
  * `LocalCache.fifo_exact`: so an empty tier finds along any run what an empty shelf finds.

  Making room is a loop that skips keys without an entry.  In a tier that follows a shelf there are
  none, so that it drops a single entry, or nothing (`Follows.makeRoom`).
-/
import Mathlib.Data.List.Nodup
import Merchandising.Proofs.Cache.Tiers

namespace Merchandising

/-! ## Shelves -/

/-- The entries that are kept, oldest first. -/
structure Shelf where
  entries : List (CacheKey × StoredQuery)
  /-- How many entries were dropped to make room. -/
  dropped : Nat

namespace Shelf

/-- A shelf without entries. -/
def empty : Shelf := ⟨[], 0⟩

/-- The keys of the entries, oldest first. -/
def keys (s : Shelf) : List CacheKey := s.entries.map Prod.fst

/-- The entry under a key. -/
def find? (s : Shelf) (k : CacheKey) : Option StoredQuery := s.entries.lookup k

/-- The shelf with another entry under a key, at the same place. -/
def replace (s : Shelf) (k : CacheKey) (e : StoredQuery) : Shelf :=
  { s with entries := s.entries.map fun p => if p.1 = k then (k, e) else p }

/-- The shelf with one more entry. -/
def append (s : Shelf) (k : CacheKey) (e : StoredQuery) : Shelf :=
  { s with entries := s.entries ++ [(k, e)] }

/-- The shelf without its oldest entry. -/
def dropOldest (s : Shelf) : Shelf := ⟨s.entries.tail, s.dropped + 1⟩

/-- The shelf with an entry, if it has room for `capacity` of them. -/
def insert (capacity : Nat) (s : Shelf) (k : CacheKey) (e : StoredQuery) : Shelf :=
  if capacity = 0 then s
  else if k ∈ s.keys then s.replace k e
  else if s.entries.length = capacity then s.dropOldest.append k e
  else s.append k e

/-- The shelf without its entries. -/
def clear (s : Shelf) : Shelf := { s with entries := [] }

section
variable {s : Shelf} {k k' : CacheKey} {e : StoredQuery}

theorem mem_keys_iff : k ∈ s.keys ↔ (s.find? k).isSome := by
  simp [keys, find?, List.lookup_isSome_iff]

theorem find?_eq_none (hk : k ∉ s.keys) : s.find? k = none := by
  simpa [mem_keys_iff] using hk

theorem keys_replace (s : Shelf) (k : CacheKey) (e : StoredQuery) :
    (s.replace k e).keys = s.keys := by
  simp only [keys, replace, List.map_map]
  refine List.map_congr_left fun p _ => ?_
  by_cases hp : p.1 = k
  · simp [hp]
  · simp [hp]

/-- Another entry is found in place of one that was there. -/
theorem find?_replace (s : Shelf) (k : CacheKey) (e : StoredQuery) (k' : CacheKey) :
    (s.replace k e).find? k' =
      if k' = k then (s.find? k).map fun _ => e else s.find? k' := by
  obtain ⟨entries, dropped⟩ := s
  simp only [find?, replace]
  induction entries with
  | nil => simp
  | cons p r ih =>
    obtain ⟨k₁, e₁⟩ := p
    rw [List.map_cons]
    by_cases h₁ : k₁ = k
    · subst h₁
      by_cases h : k' = k₁
      · simp [h]
      · rw [if_neg h] at ih ⊢
        simp [List.lookup_cons, beq_eq_false_iff_ne.2 h, ih]
    · simp only [if_neg h₁, List.lookup_cons, beq_eq_false_iff_ne.2 (Ne.symm h₁), ih]
      by_cases h : k' = k
      · simp [h, beq_eq_false_iff_ne.2 (Ne.symm h₁)]
      · simp [h]

theorem keys_append (s : Shelf) (k : CacheKey) (e : StoredQuery) :
    (s.append k e).keys = s.keys ++ [k] := by
  simp [keys, append]

theorem find?_append (hk : k ∉ s.keys) :
    (s.append k e).find? k' = if k' = k then some e else s.find? k' := by
  simp only [find?, append, List.lookup_append]
  by_cases h : k' = k
  · subst h
    have hnone : s.entries.lookup k' = none := find?_eq_none hk
    simp [hnone]
  · simp [List.lookup_cons, beq_eq_false_iff_ne.2 h, h]

theorem keys_dropOldest (s : Shelf) : s.dropOldest.keys = s.keys.tail := by
  simp [keys, dropOldest, List.map_tail]

/-- The entry under the oldest key is no longer found. -/
theorem find?_dropOldest {r : List CacheKey} (hkeys : s.keys = k :: r) (hk : k ∉ r) :
    s.dropOldest.find? k' = if k' = k then none else s.find? k' := by
  obtain ⟨entries, dropped⟩ := s
  cases entries with
  | nil => nomatch hkeys
  | cons p rest =>
    obtain ⟨k₁, e₁⟩ := p
    obtain ⟨rfl, rfl⟩ := List.cons.inj hkeys
    by_cases h : k' = k₁
    · subst h
      rw [if_pos rfl]
      exact find?_eq_none hk
    · simp [find?, dropOldest, List.lookup_cons, beq_eq_false_iff_ne.2 h, h]

end

end Shelf

/-! ## A tier and a shelf -/

namespace LocalCache

theorem getElem?_insert (m : Std.HashMap CacheKey StoredQuery) (k : CacheKey) (e : StoredQuery)
    (k' : CacheKey) : (m.insert k e)[k']? = if k' = k then some e else m[k']? := by
  by_cases h : k' = k
  · simp [h]
  · simp [Std.HashMap.getElem?_insert, h, Ne.symm h]

theorem getElem?_erase (m : Std.HashMap CacheKey StoredQuery) (k k' : CacheKey) :
    (m.erase k)[k']? = if k' = k then none else m[k']? := by
  by_cases h : k' = k
  · simp [h]
  · simp [Std.HashMap.getElem?_erase, h, Ne.symm h]

/-- The tier has the entries of a shelf, and their keys in the same order. -/
structure Follows (c : LocalCache) (s : Shelf) : Prop where
  found : ∀ k : CacheKey, c.entries[k]? = s.find? k
  order : c.order = s.keys
  distinct : s.keys.Nodup
  room : s.entries.length ≤ c.capacity
  evictions : c.evictions = s.dropped

theorem Follows.empty (n : Nat) : (empty n).Follows .empty where
  found k := by simp [LocalCache.empty, Shelf.empty, Shelf.find?]
  order := rfl
  distinct := List.nodup_nil
  room := Nat.zero_le n
  evictions := rfl

section
variable {c : LocalCache} {s : Shelf} (h : c.Follows s)
include h

theorem Follows.mem_iff (k : CacheKey) : k ∈ c.entries ↔ k ∈ s.keys := by
  rw [Std.HashMap.mem_iff_isSome_getElem?, h.found, Shelf.mem_keys_iff]

theorem Follows.size_eq : c.entries.size = s.entries.length := by
  have hperm : c.entries.keys.Perm s.keys :=
    (List.perm_ext_iff_of_nodup Std.HashMap.nodup_keys h.distinct).2 fun k => by
      rw [Std.HashMap.mem_keys, h.mem_iff]
  calc c.entries.size = c.entries.keys.length := Std.HashMap.length_keys.symm
    _ = s.keys.length := hperm.length_eq
    _ = s.entries.length := List.length_map _

theorem Follows.clear : c.clear.Follows s.clear where
  found k := by simp [LocalCache.clear, Shelf.clear, Shelf.find?]
  order := rfl
  distinct := List.nodup_nil
  room := Nat.zero_le _
  evictions := h.evictions

/-- A look-up finds what is on the shelf. -/
theorem Follows.get_eq (k : CacheKey) : (c.get k).1 = s.find? k := by
  have hfound := h.found k
  unfold LocalCache.get
  cases hs : s.find? k with
  | none => rw [hfound, hs]
  | some e => rw [hfound, hs]

/-- It changes nothing but what is counted. -/
theorem Follows.get (k : CacheKey) : (c.get k).2.Follows s := by
  unfold LocalCache.get
  split
  · exact ⟨h.found, h.order, h.distinct, h.room, h.evictions⟩
  · exact ⟨h.found, h.order, h.distinct, h.room, h.evictions⟩

/-! ### Putting an entry in -/

theorem Follows.replace {k : CacheKey} (hk : k ∈ s.keys) (e : StoredQuery) :
    Follows { c with entries := c.entries.insert k e } (s.replace k e) where
  found k' := by
    obtain ⟨e', he'⟩ := Option.isSome_iff_exists.1 (Shelf.mem_keys_iff.1 hk)
    rw [getElem?_insert, Shelf.find?_replace, he', Option.map_some, h.found]
  order := by rw [Shelf.keys_replace]; exact h.order
  distinct := by rw [Shelf.keys_replace]; exact h.distinct
  room := by simpa [Shelf.replace] using h.room
  evictions := h.evictions

theorem Follows.append {k : CacheKey} (hk : k ∉ s.keys) (hroom : s.entries.length < c.capacity)
    (e : StoredQuery) :
    Follows { c with entries := c.entries.insert k e, order := c.order ++ [k] }
      (s.append k e) where
  found k' := by
    rw [getElem?_insert, Shelf.find?_append hk, h.found]
  order := by rw [Shelf.keys_append, h.order]
  distinct := by
    rw [Shelf.keys_append]
    exact List.nodup_append_comm.1 (List.nodup_cons.2 ⟨hk, h.distinct⟩)
  room := by simpa [Shelf.append] using Nat.succ_le_of_lt hroom
  evictions := h.evictions

theorem Follows.dropOldest {k : CacheKey} {r : List CacheKey} (hkeys : s.keys = k :: r) :
    Follows { c with entries := c.entries.erase k, order := r, evictions := c.evictions + 1 }
      s.dropOldest where
  found k' := by
    have hk : k ∉ r := (List.nodup_cons.1 (hkeys ▸ h.distinct)).1
    rw [getElem?_erase, Shelf.find?_dropOldest hkeys hk, h.found]
  order := by rw [Shelf.keys_dropOldest, hkeys, List.tail_cons]
  distinct := by
    rw [Shelf.keys_dropOldest, hkeys]
    exact (List.nodup_cons.1 (hkeys ▸ h.distinct)).2
  room := by
    have hroom := h.room
    simp only [Shelf.dropOldest, List.length_tail]
    omega
  evictions := congrArg (· + 1) h.evictions

end

/-- Nothing is dropped as long as there is room. -/
theorem makeRoom_of_lt {c : LocalCache} (hroom : c.entries.size < c.capacity)
    (order : List CacheKey) : c.makeRoom order = { c with order } := by
  cases order with
  | nil => rfl
  | cons k r => rw [makeRoom, if_pos hroom]

section
variable {c : LocalCache} {s : Shelf} (h : c.Follows s)
include h

/-- Room is made by dropping the oldest entry, if the shelf is full. -/
theorem Follows.makeRoom (hcapacity : c.capacity ≠ 0) :
    (c.makeRoom c.order).Follows
      (if s.entries.length = c.capacity then s.dropOldest else s) := by
  split
  · rename_i hfull
    cases hkeys : s.keys with
    | nil =>
      have hlength : s.entries.length = 0 := by
        simpa [Shelf.keys] using congrArg List.length hkeys
      omega
    | cons k r =>
      have hmem : k ∈ s.keys := by rw [hkeys]; exact List.mem_cons_self
      have hdropped := h.dropOldest hkeys
      have hsize := h.size_eq
      have hfree : ¬ c.entries.size < c.capacity := by omega
      rw [h.order, hkeys, LocalCache.makeRoom, if_neg hfree,
        if_pos (Std.HashMap.contains_iff_mem.2 ((h.mem_iff k).2 hmem)), makeRoom_of_lt]
      · exact hdropped
      · -- one entry less is enough
        have hsize' := hdropped.size_eq
        simp only [Shelf.dropOldest, List.length_tail] at hsize' ⊢
        omega
  · rename_i hfull
    have hroom := h.room
    have hsize := h.size_eq
    rw [makeRoom_of_lt (by omega)]
    exact h

theorem Follows.insert (k : CacheKey) (e : StoredQuery) :
    (c.insert k e).Follows (s.insert c.capacity k e) := by
  unfold LocalCache.insert Shelf.insert
  split
  · exact h
  · rename_i hcapacity
    by_cases hk : k ∈ s.keys
    · rw [if_pos hk, if_pos (Std.HashMap.contains_iff_mem.2 ((h.mem_iff k).2 hk))]
      exact h.replace hk e
    · have hmem : ¬ c.entries.contains k = true := fun hc =>
        hk ((h.mem_iff k).1 (Std.HashMap.contains_iff_mem.1 hc))
      have hmade := h.makeRoom hcapacity
      have hmakes := capacity_makeRoom c c.order
      rw [if_neg hk, if_neg hmem]
      split
      · rename_i hfull
        rw [if_pos hfull] at hmade
        refine hmade.append (fun hk' => hk ?_) ?_ e
        · rw [Shelf.keys_dropOldest] at hk'
          exact List.mem_of_mem_tail hk'
        · simp only [Shelf.dropOldest, List.length_tail]
          omega
      · rename_i hfull
        have hroom := h.room
        rw [if_neg hfull] at hmade
        exact hmade.append hk (by omega) e

end

end LocalCache

/-! ## Runs -/

/-- Something that is done with a tier. -/
inductive Access where
  | insert (k : CacheKey) (e : StoredQuery)
  | get (k : CacheKey)
  | clear

/-- Whether something is looked for. -/
def Access.isGet : Access → Bool
  | get _ => true
  | insert _ _ | clear => false

namespace Shelf

/-- The shelf afterwards. -/
def access (capacity : Nat) (s : Shelf) : Access → Shelf
  | .insert k e => s.insert capacity k e
  | .get _ => s
  | .clear => s.clear

/-- What is found, if something is looked for. -/
def answer (s : Shelf) : Access → List (Option StoredQuery)
  | .get k => [s.find? k]
  | .insert _ _ | .clear => []

/-- The shelf after a run. -/
def after (capacity : Nat) (s : Shelf) (accesses : List Access) : Shelf :=
  accesses.foldl (access capacity) s

/-- What is found along a run. -/
def answers (capacity : Nat) (s : Shelf) : List Access → List (Option StoredQuery)
  | [] => []
  | a :: r => s.answer a ++ (s.access capacity a).answers capacity r

end Shelf

namespace LocalCache

/-- The tier afterwards. -/
def access (c : LocalCache) : Access → LocalCache
  | .insert k e => c.insert k e
  | .get k => (c.get k).2
  | .clear => c.clear

/-- What is found, if something is looked for. -/
def answer (c : LocalCache) : Access → List (Option StoredQuery)
  | .get k => [(c.get k).1]
  | .insert _ _ | .clear => []

/-- The tier after a run. -/
def after (c : LocalCache) (accesses : List Access) : LocalCache := accesses.foldl access c

/-- What is found along a run. -/
def answers (c : LocalCache) : List Access → List (Option StoredQuery)
  | [] => []
  | a :: r => c.answer a ++ (c.access a).answers r

/-! ### What is found -/

theorem capacity_access (c : LocalCache) (a : Access) : (c.access a).capacity = c.capacity := by
  cases a with
  | insert k e => exact capacity_insert c k e
  | get k => exact capacity_get c k
  | clear => rfl

theorem capacity_after (c : LocalCache) (accesses : List Access) :
    (c.after accesses).capacity = c.capacity := by
  induction accesses generalizing c with
  | nil => rfl
  | cons a r ih => exact (ih (c.access a)).trans (capacity_access c a)

section
variable {c : LocalCache} {s : Shelf} (h : c.Follows s)
include h

theorem Follows.answer_eq (a : Access) : c.answer a = s.answer a := by
  cases a with
  | insert k e => rfl
  | get k => exact congrArg (fun found => [found]) (h.get_eq k)
  | clear => rfl

/-- **The tier follows the shelf**, whatever is done with both. -/
theorem Follows.access (a : Access) : (c.access a).Follows (s.access c.capacity a) := by
  cases a with
  | insert k e => exact h.insert k e
  | get k => exact h.get k
  | clear => exact h.clear

/-- It does so along a run, and finds what is on the shelf. -/
theorem Follows.after (accesses : List Access) :
    (c.after accesses).Follows (s.after c.capacity accesses) ∧
      c.answers accesses = s.answers c.capacity accesses := by
  induction accesses generalizing c s with
  | nil => exact ⟨h, rfl⟩
  | cons a r ih =>
    obtain ⟨hfollows, hanswers⟩ := ih (h.access a)
    rw [capacity_access] at hfollows hanswers
    exact ⟨hfollows, by rw [answers, Shelf.answers, h.answer_eq, hanswers]⟩

end

/-! ### What is counted -/

theorem tally_makeRoom (c : LocalCache) (order : List CacheKey) :
    (c.makeRoom order).hits = c.hits ∧ (c.makeRoom order).misses = c.misses := by
  induction order generalizing c with
  | nil => exact ⟨rfl, rfl⟩
  | cons k r ih =>
    unfold makeRoom
    split
    · exact ⟨rfl, rfl⟩
    · split
      · exact ih _
      · exact ih c

theorem tally_insert (c : LocalCache) (k : CacheKey) (e : StoredQuery) :
    (c.insert k e).hits = c.hits ∧ (c.insert k e).misses = c.misses := by
  unfold insert
  split
  · exact ⟨rfl, rfl⟩
  · split
    · exact ⟨rfl, rfl⟩
    · exact tally_makeRoom c c.order

/-- A look-up counts as a hit if it finds something, and otherwise as a miss. -/
theorem tally_access (c : LocalCache) (a : Access) :
    (c.access a).hits = c.hits + (c.answer a).countP Option.isSome ∧
      (c.access a).misses = c.misses + (c.answer a).countP Option.isNone := by
  cases a with
  | insert k e => exact tally_insert c k e
  | get k =>
    simp only [access, answer, get]
    split
    · exact ⟨rfl, rfl⟩
    · exact ⟨rfl, rfl⟩
  | clear => exact ⟨rfl, rfl⟩

theorem tally_after (c : LocalCache) (accesses : List Access) :
    (c.after accesses).hits = c.hits + (c.answers accesses).countP Option.isSome ∧
      (c.after accesses).misses = c.misses + (c.answers accesses).countP Option.isNone := by
  induction accesses generalizing c with
  | nil => exact ⟨rfl, rfl⟩
  | cons a r ih =>
    obtain ⟨hhits, hmisses⟩ := ih (c.access a)
    obtain ⟨hhits', hmisses'⟩ := tally_access c a
    have hafter : c.after (a :: r) = (c.access a).after r := rfl
    rw [hafter, answers, List.countP_append, List.countP_append, hhits, hmisses, hhits', hmisses']
    omega

theorem length_answers (c : LocalCache) (accesses : List Access) :
    (c.answers accesses).length = accesses.countP Access.isGet := by
  induction accesses generalizing c with
  | nil => rfl
  | cons a r ih =>
    rw [answers, List.length_append, ih, List.countP_cons, Nat.add_comm]
    cases a <;> rfl

/-- **The local tier is a bounded map that drops its oldest entry first.**  Along any run an empty
    tier finds what an empty shelf with as much room finds.  Afterwards it finds under every key
    what is on the shelf, is as large as that, and holds no more than it may; its order are the keys
    on the shelf, which are those of its entries, each once; it has counted as evictions what was
    dropped from the shelf, and every look-up as a hit or as a miss. -/
theorem fifo_exact (capacity : Nat) (accesses : List Access) :
    let c := (LocalCache.empty capacity).after accesses
    let s := Shelf.empty.after capacity accesses
    let found := (LocalCache.empty capacity).answers accesses
    found = Shelf.empty.answers capacity accesses ∧
      (∀ k, (c.get k).1 = s.find? k) ∧
      c.size = s.entries.length ∧ c.size ≤ capacity ∧
      c.order = s.keys ∧ c.order.Nodup ∧ (∀ k, k ∈ c.order ↔ k ∈ c.entries) ∧
      c.evictions = s.dropped ∧
      c.hits = found.countP Option.isSome ∧ c.misses = found.countP Option.isNone ∧
      c.hits + c.misses = accesses.countP Access.isGet := by
  intro c s found
  obtain ⟨hfollows, hanswers⟩ := (Follows.empty capacity).after accesses
  obtain ⟨hhits, hmisses⟩ := tally_after (LocalCache.empty capacity) accesses
  have hfollows : c.Follows s := hfollows
  have hhits : c.hits = found.countP Option.isSome := hhits.trans (Nat.zero_add _)
  have hmisses : c.misses = found.countP Option.isNone := hmisses.trans (Nat.zero_add _)
  have hcapacity : c.capacity = capacity := capacity_after (LocalCache.empty capacity) accesses
  refine ⟨hanswers, hfollows.get_eq, hfollows.size_eq, ?_, hfollows.order,
    hfollows.order ▸ hfollows.distinct, fun k => ?_, hfollows.evictions, hhits, hmisses, ?_⟩
  · have hroom := hfollows.room
    rw [← hfollows.size_eq, hcapacity] at hroom
    exact hroom
  · rw [hfollows.order, hfollows.mem_iff]
  · have hmissed : (fun q : Option StoredQuery => decide ¬ q.isSome = true) = Option.isNone := by
      funext q
      cases q <;> rfl
    have hcount := List.length_eq_countP_add_countP Option.isSome (l := found)
    rw [hmissed] at hcount
    rw [hhits, hmisses, ← hcount]
    exact length_answers (LocalCache.empty capacity) accesses

end LocalCache

end Merchandising

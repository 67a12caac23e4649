/-
  Calls inside calls, and how deep they may stand.

  * a `Call` compiles a category on a path; `Call.Nested` says which calls it may make, as
    `Compiler.Refers` lists them;
  * `Fresh.root?_eq_some` says which category is a virtual root, and `refers_saved` that every nested
    call is about a saved category;
  * `chain_ids`: on a chain of nested calls no id is compiled past the cycle check twice, and none
    that was on the path;
  * `chain_bound`: at most one call more goes past that check than ids are saved outside the path.

  The measure is the number of ids that are saved and not on the path.  The first call may be about
  a category that was never saved and takes nothing from the measure, hence the one call more.
-/
import Mathlib.Data.List.Perm.Subperm
import Merchandising.Proofs.Catalog.Contents
import Merchandising.Proofs.Resolver.Correspondence

namespace Merchandising

/-- The ids that are saved for a store. -/
def Catalog.ids (catalog : Catalog) (store : StoreId) : List CategoryId :=
  (catalog.entries.filter fun e => e.store == store).filterMap Category.id

/-- Those that are not on a path. -/
def Catalog.idsOutside (catalog : Catalog) (store : StoreId) (path : IdSet) : List CategoryId :=
  (catalog.ids store).filter fun id => id ∉ path

/-- A virtual root is the saved category that is referred to, if that is not the root of the store and
    lies below the root of the tree. -/
theorem Fresh.root?_eq_some {catalog : Catalog} {store : StoreId} {c r : Category} :
    root? catalog store c = some r ↔ ∃ id, c.virtualRoot = some id ∧ c.path[1]? ≠ some id ∧
      r ∈ catalog.entries ∧ r.store = store ∧ r.id = some id ∧ 2 ≤ r.path.length := by
  have hbelow : 1 ≤ r.level ↔ 2 ≤ r.path.length := by
    rw [Category.level]
    omega
  unfold root?
  cases hid : c.virtualRoot with
  | none => simp
  | some id =>
    have hsecond : c.path[1]? = c.storeRoot? := rfl
    simp only [hsecond, Option.some.injEq, exists_eq_left']
    by_cases hstore : c.storeRoot? = some id
    · rw [if_pos hstore]
      exact iff_of_false (by simp) fun h => h.1 hstore
    · rw [if_neg hstore, Catalog.root?, Option.filter_eq_some_iff, Catalog.load?_eq_some,
        decide_eq_true_eq, hbelow, and_iff_right hstore, and_assoc, and_assoc]

/-- A category that is to be compiled on a path. -/
structure Call where
  category : Category
  path : IdSet

namespace Call

/-- Whether the call goes past the cycle check. -/
def opens (k : Call) : Bool := k.category.id.all fun id => id ∉ k.path

theorem opens_iff {k : Call} : k.opens = true ↔ Compiler.Opens k.category k.path := by
  simp [opens, Compiler.Opens, Option.all_eq_true]

/-- A call may make another one: past the cycle check, for a category that its own refers to. -/
structure Nested (catalog : Catalog) (store : StoreId) (k k' : Call) : Prop where
  opens : k.opens = true
  path : k'.path = Compiler.innerPath k.category k.path
  refers : Compiler.Refers catalog store k.category (Compiler.innerPath k.category k.path)
    k'.category

/-- The ids that some calls compile past the cycle check. -/
def openedIds (ks : List Call) : List CategoryId :=
  (ks.filter opens).filterMap fun k => k.category.id

variable {catalog : Catalog} {store : StoreId}

theorem mem_ids {c : Category} {id : CategoryId} (hc : c ∈ catalog.entries) (hs : c.store = store)
    (hid : c.id = some id) : id ∈ catalog.ids store :=
  List.mem_filterMap.2 ⟨c, List.mem_filter.2 ⟨hc, by simp [hs]⟩, hid⟩

theorem root?_mem {c r : Category} (h : Fresh.root? catalog store c = some r) :
    r ∈ catalog.entries ∧ r.store = store := by
  obtain ⟨id, -, -, hr, hs, -⟩ := Fresh.root?_eq_some.1 h
  exact ⟨hr, hs⟩

theorem contributors_mem {c d : Category} (h : d ∈ catalog.contributors store c) :
    d ∈ catalog.entries ∧ d.store = store := by
  have hd : d ∈ catalog.descendants store c := (List.mem_filter.1 h).1
  obtain ⟨hd, hs, -⟩ := Catalog.mem_descendants.1 hd
  exact ⟨hd, hs⟩

/-- What a category refers to is saved in the store. -/
theorem refers_mem {c d : Category} {path : IdSet} (h : Compiler.Refers catalog store c path d) :
    d ∈ catalog.entries ∧ d.store = store := by
  cases h with
  | root hc hr hpath => exact root?_mem hr
  | child hd hv id hid hpath => exact contributors_mem hd

theorem refers_saved {c d : Category} {path : IdSet} (h : Compiler.Refers catalog store c path d) :
    ∃ id, d.id = some id ∧ id ∈ catalog.ids store := by
  obtain ⟨hd, hs⟩ := refers_mem h
  obtain ⟨id, hid⟩ := Option.isSome_iff_exists.1 (catalog.saved d hd)
  exact ⟨id, hid, mem_ids hd hs hid⟩

theorem mem_innerPath {c : Category} {path : IdSet} {id : CategoryId} :
    id ∈ Compiler.innerPath c path ↔ c.id = some id ∨ id ∈ path := by
  unfold Compiler.innerPath
  cases c.id <;> simp [eq_comm]

/-- Along a chain of nested calls every id is new. -/
theorem chain_ids {ks : List Call} {k : Call}
    (h : List.IsChain (Nested catalog store) (k :: ks)) :
    (openedIds (k :: ks)).Nodup ∧ ∀ id ∈ openedIds (k :: ks), id ∉ k.path := by
  induction ks generalizing k with
  | nil =>
    cases ho : k.opens with
    | false => simp [openedIds, ho]
    | true =>
      cases hid : k.category.id with
      | none => simp [openedIds, ho, hid]
      | some id => simpa [openedIds, ho, hid] using opens_iff.1 ho id hid
  | cons k' ks ih =>
    obtain ⟨hk, hks⟩ := List.isChain_cons_cons.1 h
    obtain ⟨hnodup, hnew⟩ := ih hks
    have hnew : ∀ id ∈ openedIds (k' :: ks), k.category.id ≠ some id ∧ id ∉ k.path := by
      intro id hid
      have h := hnew id hid
      rw [hk.path, mem_innerPath, not_or] at h
      exact h
    have hcons : openedIds (k :: k' :: ks) = k.category.id.toList ++ openedIds (k' :: ks) := by
      cases hid : k.category.id <;> simp [openedIds, hk.opens, hid]
    rw [hcons]
    cases hid : k.category.id with
    | none => exact ⟨hnodup, fun id h => (hnew id h).2⟩
    | some id =>
      refine ⟨List.nodup_cons.2 ⟨fun h => (hnew id h).1 hid, hnodup⟩, fun x hx => ?_⟩
      rcases List.mem_cons.1 hx with rfl | hx
      · exact opens_iff.1 hk.opens x hid
      · exact (hnew x hx).2

/-- The calls that are made inside others are about saved categories. -/
theorem chain_saved {ks : List Call} {k : Call}
    (h : List.IsChain (Nested catalog store) (k :: ks)) :
    ∀ k' ∈ ks, ∃ id, k'.category.id = some id ∧ id ∈ catalog.ids store := by
  induction ks generalizing k with
  | nil => simp
  | cons k' ks ih =>
    obtain ⟨hk, hks⟩ := List.isChain_cons_cons.1 h
    exact List.forall_mem_cons.2 ⟨refers_saved hk.refers, ih hks⟩

/-- **Past the cycle check goes at most one call more than ids are saved outside the path.** -/
theorem chain_bound {ks : List Call} {k : Call}
    (h : List.IsChain (Nested catalog store) (k :: ks)) :
    ((k :: ks).filter opens).length ≤ (catalog.idsOutside store k.path).length + 1 := by
  have hsaved : ∀ k' ∈ ks.filter opens, ∃ id, k'.category.id = some id ∧ id ∈ catalog.ids store :=
    fun k' hk' => chain_saved h k' (List.mem_filter.1 hk').1
  have hlen : (ks.filter opens).length = (openedIds ks).length := by
    rw [openedIds, List.length_filterMap_eq_countP, eq_comm, List.countP_eq_length]
    intro k' hk'
    obtain ⟨id, hid, -⟩ := hsaved k' hk'
    simp [hid]
  have hsub : (openedIds ks).Sublist (openedIds (k :: ks)) :=
    ((List.sublist_cons_self k ks).filter _).filterMap _
  have hle : (openedIds ks).length ≤ (catalog.idsOutside store k.path).length := by
    refine List.Subperm.length_le (List.Nodup.subperm ((chain_ids h).1.sublist hsub) fun id hid => ?_)
    obtain ⟨k', hk', hid'⟩ := List.mem_filterMap.1 hid
    obtain ⟨id', hid'', hmem⟩ := hsaved k' hk'
    obtain rfl : id' = id := Option.some.inj (hid''.symm.trans hid')
    refine List.mem_filter.2 ⟨hmem, ?_⟩
    simpa using (chain_ids h).2 id' (hsub.subset hid)
  have hcons : ((k :: ks).filter opens).length ≤ (ks.filter opens).length + 1 := by
    rw [List.filter_cons]
    split <;> simp
  omega

/-- A call that stands `n` calls deep inside another one. -/
inductive Inside (catalog : Catalog) (store : StoreId) : Nat → Call → Call → Prop where
  | here (k : Call) : Inside catalog store 0 k k
  | deeper {n : Nat} {k k' k'' : Call} : Nested catalog store k k' →
    Inside catalog store n k' k'' → Inside catalog store (n + 1) k k''

theorem Inside.chain {n : Nat} {k k' : Call} (h : Inside catalog store n k k') :
    ∃ ks, List.IsChain (Nested catalog store) (k :: ks) ∧ n ≤ ((k :: ks).filter opens).length := by
  induction h with
  | here k => exact ⟨[], List.IsChain.singleton k, Nat.zero_le _⟩
  | @deeper n k k' k'' hk _ ih =>
    obtain ⟨ks, hks, hn⟩ := ih
    refine ⟨k' :: ks, List.isChain_cons_cons.2 ⟨hk, hks⟩, ?_⟩
    rw [List.filter_cons_of_pos hk.opens]
    exact Nat.succ_le_succ hn

/-- No call stands deeper than the chains of calls are long. -/
theorem Inside.le {n : Nat} {k k' : Call} (h : Inside catalog store n k k') :
    n ≤ (catalog.idsOutside store k.path).length + 1 := by
  obtain ⟨ks, hks, hn⟩ := h.chain
  exact Nat.le_trans hn (chain_bound hks)

theorem length_idsOutside_le (catalog : Catalog) (store : StoreId) (path : IdSet) :
    (catalog.idsOutside store path).length ≤ catalog.size :=
  calc (catalog.idsOutside store path).length
      ≤ (catalog.ids store).length := List.length_filter_le _ _
    _ ≤ (catalog.entries.filter fun e => e.store == store).length := List.length_filterMap_le _ _
    _ ≤ catalog.size := List.length_filter_le _ _

/-- No call stands deeper than there are categories, and one more. -/
theorem Inside.le_size {n : Nat} {k k' : Call} (h : Inside catalog store n k k') :
    n ≤ catalog.size + 1 :=
  Nat.le_trans h.le (Nat.succ_le_succ (length_idsOutside_le catalog store k.path))

end Call

end Merchandising

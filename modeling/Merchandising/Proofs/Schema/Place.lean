/-
  What placing a property does to a mapping.

  * `Tree.Has` is a property at a path, `Tree.at?` looks for it;
  * a mapping is `Tidy` if its names are in order, at every depth, and nothing is inside a value;
    then the two agree (`Tidy.has_iff`);
  * `Tree.demand` is what placing a property asks for at a path: a container on the way, the
    property itself at the end;
  * `Property.over` is what becomes of that where something is already: a container stays, and
    turns from an object into nested documents if they are asked for;
  * `Tidy.place` and `Tidy.property?_place`: a tidy mapping stays tidy, and at every path there is
    what was asked for over what was there.
-/
import Mathlib.Tactic.SplitIfs
import Merchandising.Schema.Mapping

namespace Merchandising

namespace Keyed

variable {β : Type}

theorem mem_iff_lookup {es : List (String × β)} (h : Sorted es) {k : String} {v : β} :
    (k, v) ∈ es ↔ es.lookup k = some v := by
  induction es with
  | nil => simp
  | cons e r ih =>
    obtain ⟨k', v'⟩ := e
    have ⟨hk, hr⟩ := List.pairwise_cons.1 h
    rw [List.mem_cons, ih hr, List.lookup_cons]
    by_cases heq : k = k'
    · subst heq
      simp only [Prod.mk.injEq, true_and, BEq.rfl, Option.some.injEq]
      constructor
      · rintro (rfl | hv)
        · rfl
        · exact absurd (hk _ ((ih hr).2 hv)) (String.lt_irrefl k)
      · rintro rfl
        exact Or.inl rfl
    · simp only [Prod.mk.injEq, heq, false_and, false_or, beq_eq_false_iff_ne.2 heq]

end Keyed

/-! ## Properties at paths -/

/-- A property at a path of names. -/
inductive Tree.Has : Tree → List String → Node → Prop where
  | here {t : Tree} {k : String} {n : Node} (h : (k, n) ∈ t) : Has t [k] n
  | within {t : Tree} {k : String} {n m : Node} {ks : List String} (h : (k, n) ∈ t)
      (hm : Has n.children ks m) : Has t (k :: ks) m

/-- What the names of a path lead to. -/
def Tree.at? : List String → Tree → Option Node
  | [], _ => none
  | k :: ks, t => (t.lookup k).bind fun n => if ks = [] then some n else at? ks n.children

/-- The property at a path, without those inside it. -/
def Tree.property? (t : Tree) (p : List String) : Option Property :=
  (Tree.at? p t).map Node.property

/-- The names are in order at every depth, and nothing is inside a value. -/
inductive Tree.Tidy : Tree → Prop where
  | mk {t : Tree} (sorted : Keyed.Sorted t)
      (values : ∀ e ∈ t, e.2.isContainer = false → e.2.children = [])
      (inner : ∀ e ∈ t, Tidy e.2.children) : Tidy t

namespace Tree

theorem tidy_nil : Tidy [] := .mk .nil (by simp) (by simp)

theorem Tidy.of_lookup {t : Tree} (h : t.Tidy) {k : String} {n : Node} (hn : t.lookup k = some n) :
    (n.isContainer = false → n.children = []) ∧ Tidy n.children := by
  obtain ⟨hsorted, hvalues, hinner⟩ := h
  have hmem := (Keyed.mem_iff_lookup hsorted).2 hn
  exact ⟨hvalues _ hmem, hinner _ hmem⟩

theorem ne_nil_of_has {t : Tree} {p : List String} {n : Node} (h : t.Has p n) : p ≠ [] := by
  cases h <;> simp

theorem Tidy.has_iff {t : Tree} (h : t.Tidy) {p : List String} {n : Node} :
    t.Has p n ↔ at? p t = some n := by
  induction p generalizing t with
  | nil => exact ⟨fun hp => absurd rfl (ne_nil_of_has hp), fun hp => by cases hp⟩
  | cons k ks ih =>
    obtain ⟨hsorted, -, hinner⟩ := h
    rw [at?, Option.bind_eq_some_iff]
    constructor
    · rintro (⟨hk⟩ | ⟨hk, hm⟩)
      · exact ⟨n, (Keyed.mem_iff_lookup hsorted).1 hk, if_pos rfl⟩
      · refine ⟨_, (Keyed.mem_iff_lookup hsorted).1 hk, ?_⟩
        rw [if_neg (ne_nil_of_has hm)]
        exact (ih (hinner _ hk)).1 hm
    · rintro ⟨m, hm, hn⟩
      have hk := (Keyed.mem_iff_lookup hsorted).2 hm
      split at hn
      · rename_i hks
        obtain rfl := Option.some.inj hn
        exact hks ▸ .here hk
      · exact .within hk ((ih (hinner _ hk)).2 hn)

/-- In a tidy mapping no value has properties inside it. -/
theorem Tidy.of_at? {t : Tree} (h : t.Tidy) {p : List String} {n : Node} (hn : at? p t = some n) :
    n.isContainer = false → n.children = [] := by
  induction p generalizing t with
  | nil => cases hn
  | cons k ks ih =>
    obtain ⟨m, hm, hn⟩ := Option.bind_eq_some_iff.1 hn
    obtain ⟨hvalue, hinner⟩ := h.of_lookup hm
    split at hn
    · exact Option.some.inj hn ▸ hvalue
    · exact ih hinner hn

end Tree

/-! ## What is asked for, and what becomes of it -/

/-- What takes the place of a property when another one is asked for. -/
def Property.over (q : Property) : Option Property → Property
  | none => q
  | some o =>
    if !o.type.isContainer then q
    else if q.type.isContainer ∧ o.type ≠ .nested then { o with type := q.type }
    else o

/-- What placing the property `q` asks for at a path. -/
def Tree.demand : List (String × FieldType) → String → Property → List String → Option Property
  | [], name, q, p => if p = [name] then some q else none
  | (c, type) :: steps, name, q, p => match p with
    | [] => none
    | k :: ks =>
      if k = c then if ks = [] then some (.ofType type) else demand steps name q ks else none

/-- Placing a property asks for itself at the end of its path, and for containers on the way. -/
theorem Tree.demand_eq (steps : List (String × FieldType)) (name : String) (q : Property)
    (p : List String) :
    demand steps name q p =
      if p = steps.map Prod.fst ++ [name] then some q
      else if p ≠ [] ∧ p <+: steps.map Prod.fst then
        (steps[p.length - 1]?).map fun e => .ofType e.2
      else none := by
  induction steps generalizing p with
  | nil => cases p <;> simp [demand]
  | cons s steps ih =>
    obtain ⟨c, type⟩ := s
    cases p with
    | nil => simp [demand]
    | cons k ks =>
      rw [demand]
      by_cases hk : k = c
      · subst hk
        cases ks with
        | nil => simp
        | cons k' ks => simp [ih, List.cons_prefix_cons]
      · simp [hk, List.cons_prefix_cons]

namespace Node

theorem property_merge (new : Node) (o : Option Node) :
    (new.merge o).property = new.property.over (o.map property) := by
  cases o with
  | none => rfl
  | some n =>
    rw [merge, Option.map_some, Property.over, apply_ite property, apply_ite property]
    rfl

theorem children_merge {new : Node} (hnew : new.children = []) {o : Option Node}
    (ho : ∀ n ∈ o, n.isContainer = false → n.children = []) :
    (new.merge o).children = (o.map children).getD [] := by
  cases o with
  | none => exact hnew
  | some n =>
    simp only [merge, Option.map_some, Option.getD_some]
    split_ifs with hn
    · rw [hnew]
      exact (ho n rfl (by simpa using hn)).symm
    · rfl
    · rfl

/-- A container takes a place as it does when it is declared. -/
theorem container_eq_merge {type : FieldType} (htype : type.isContainer = true) (o : Option Node) :
    container type o = (leaf (.ofType type)).merge o := by
  cases o with
  | none => rfl
  | some n =>
    obtain ⟨⟨t, analyzer, subs, copyTo⟩, cs⟩ := n
    cases type with
    | object => cases t <;> rfl
    | nested => cases t <;> rfl
    | _ => cases htype

end Node

namespace Property

theorem isContainer_over {q : Property} (hq : q.type.isContainer = true) (o : Option Property) :
    (q.over o).type.isContainer = true := by
  cases o with
  | none => exact hq
  | some o =>
    simp only [Property.over]
    split_ifs with ho hn
    · exact hq
    · exact hq
    · simpa using ho

/-- A value takes the place of values only. -/
theorem value_of_over {q : Property} {o : Option Property}
    (h : (q.over o).type.isContainer = false) : ∀ p ∈ o, p.type.isContainer = false := by
  rintro p rfl
  simp only [Property.over] at h
  split_ifs at h with hp hn
  · simpa using hp
  · exact absurd (hn.1.symm.trans h) (by decide)
  · exact h

end Property

namespace Tree

/-! ## Placing -/

theorem Tidy.put {t : Tree} (h : t.Tidy) {k : String} {n : Node}
    (hvalue : n.isContainer = false → n.children = []) (hn : Tidy n.children) :
    Tidy (Keyed.put k n t) := by
  obtain ⟨hsorted, hvalues, hinner⟩ := h
  refine .mk (Keyed.sorted_put k n hsorted) (fun e he => ?_) (fun e he => ?_)
  · rcases Keyed.mem_put he with rfl | he
    · exact hvalue
    · exact hvalues e he
  · rcases Keyed.mem_put he with rfl | he
    · exact hn
    · exact hinner e he

section
variable {t : Tree} (h : t.Tidy) {new : Node} (hnew : new.children = []) (k : String)
include h hnew

theorem Tidy.children_merge :
    (new.merge (t.lookup k)).children = ((t.lookup k).map Node.children).getD [] :=
  Node.children_merge hnew fun _ hn => (h.of_lookup hn).1

theorem Tidy.merge : Tidy (new.merge (t.lookup k)).children := by
  rw [h.children_merge hnew k]
  cases hk : t.lookup k with
  | none => exact tidy_nil
  | some n => exact (h.of_lookup hk).2

theorem Tidy.value_merge (hvalue : (new.merge (t.lookup k)).isContainer = false) :
    (new.merge (t.lookup k)).children = [] := by
  rw [h.children_merge hnew k]
  cases hk : t.lookup k with
  | none => rfl
  | some n =>
    refine (h.of_lookup hk).1 ?_
    rw [hk, Node.isContainer, Node.property_merge] at hvalue
    exact Property.value_of_over hvalue n.property rfl

/-- What is below the name of a property that is merged is what was below it. -/
theorem Tidy.at?_merge {ks : List String} (hks : ks ≠ []) :
    at? ks (new.merge (t.lookup k)).children = at? (k :: ks) t := by
  rw [h.children_merge hnew k, at?]
  cases t.lookup k with
  | none => cases ks <;> rfl
  | some n => simp [hks]

end

theorem at?_put (k : String) (n : Node) (t : Tree) (k' : String) (ks : List String) :
    at? (k' :: ks) (Keyed.put k n t) =
      if k' = k then if ks = [] then some n else at? ks n.children else at? (k' :: ks) t := by
  rw [at?, Keyed.lookup_put]
  split <;> rfl

section
variable {steps : List (String × FieldType)} (hsteps : ∀ e ∈ steps, e.2.isContainer = true)
  (name : String) {new : Node} (hnew : new.children = [])
include hsteps hnew

/-- **Placing a property keeps a mapping tidy.** -/
theorem Tidy.place {t : Tree} (h : t.Tidy) : Tidy (place steps name new t) := by
  induction steps generalizing t with
  | nil => exact h.put (h.value_merge hnew name) (h.merge hnew name)
  | cons s steps ih =>
    obtain ⟨c, type⟩ := s
    have htype : type.isContainer = true := hsteps (c, type) (by simp)
    simp only [Tree.place, Node.container_eq_merge htype]
    refine h.put (fun hvalue => ?_) ?_
    · rw [Node.isContainer, Node.property, Node.property_merge,
        Property.isContainer_over htype] at hvalue
      cases hvalue
    · exact ih (fun e he => hsteps e (by simp [he])) (h.merge rfl c)

/-- **Placing a property does what is asked for at every path, and nothing else.** -/
theorem Tidy.property?_place {t : Tree} (h : t.Tidy) (p : List String) :
    (Tree.place steps name new t).property? p =
      (demand steps name new.property p).elim (t.property? p)
        fun q => some (q.over (t.property? p)) := by
  induction steps generalizing t p with
  | nil =>
    cases p with
    | nil => rfl
    | cons k ks =>
      simp only [property?, Tree.place, at?_put, demand]
      by_cases hk : k = name
      · subst hk
        by_cases hks : ks = []
        · subst hks
          simp [at?, Node.property_merge]
        · simp [hks, h.at?_merge hnew k hks]
      · simp [hk]
  | cons s steps ih =>
    obtain ⟨c, type⟩ := s
    have htype : type.isContainer = true := hsteps (c, type) (by simp)
    cases p with
    | nil => rfl
    | cons k ks =>
      simp only [property?, Tree.place, at?_put, demand, Node.container_eq_merge htype]
      by_cases hk : k = c
      · subst hk
        by_cases hks : ks = []
        · subst hks
          have hmerge := Node.property_merge (.leaf (.ofType type)) (t.lookup k)
          simp only [at?, ↓reduceIte, Option.map_some, Option.bind_fun_some]
          exact congrArg some hmerge
        · have htidy : Tidy ((Node.leaf (.ofType type)).merge (t.lookup k)).children := h.merge rfl k
          have hinner := ih (fun e he => hsteps e (by simp [he])) htidy ks
          rw [property?, property?, h.at?_merge rfl k hks] at hinner
          simp only [hks, ↓reduceIte, Node.children]
          exact hinner
      · simp [hk]

end

end Tree

end Merchandising

/-
  The mapping is exactly what the declared fields ask for.

  * `Declarations.demand` is what a field asks for at a path (`demand_eq`);
  * `Property.settle` is what becomes of some demands in a row: what is asked for last, or one
    container once a container was asked for;
  * `property?_foldl`: after any number of fields there is at every path what they ask for in a row;
  * `Declarations.Laid` is a schema whose mapping is exactly what its fields ask for;
  * `compile_laid`: so is every schema, in whatever order its fields were declared.
-/
import Merchandising.Proofs.Schema.Assembly
import Merchandising.Proofs.Schema.Fields
import Merchandising.Proofs.Schema.Values

namespace Merchandising

/-! ## What a field asks for -/

namespace Declarations

variable (d : Declarations)

/-- What a field asks for at a path. -/
def demand (p : List String) (f : Field) : Option Property :=
  Tree.demand f.steps.1 f.steps.2 (.ofField f (d.copyTo f)) p

/-- A field asks for itself at its path, and for containers on the way: for nested documents at its
    nested path, for objects elsewhere. -/
theorem demand_eq (f : Field) (p : List String) :
    d.demand p f =
      if p = f.segments then some (.ofField f (d.copyTo f))
      else if p ≠ [] ∧ p <+: f.segments then
        some (.ofType (if f.nestedPath.map (Text.split '.') = some p then .nested else .object))
      else none := by
  rw [demand, Tree.demand_eq, f.segments_eq_steps]
  by_cases hp : p = f.segments
  · rw [if_pos hp, if_pos hp]
  rw [if_neg hp, if_neg hp]
  have hbelow : p <+: f.segments ↔ p <+: f.steps.1.map Prod.fst := by
    rw [← f.segments_eq_steps, List.prefix_concat_iff, f.segments_eq_steps]
    exact or_iff_right hp
  by_cases hproper : p ≠ [] ∧ p <+: f.segments
  · have hproper' : p ≠ [] ∧ p <+: f.steps.1.map Prod.fst := ⟨hproper.1, hbelow.1 hproper.2⟩
    rw [if_pos hproper, if_pos hproper']
    have hpos := List.length_pos_iff.2 hproper.1
    have hlength := hproper'.2.length_le
    rw [List.length_map] at hlength
    obtain ⟨e, hstep⟩ : ∃ e, f.steps.1[p.length - 1]? = some e :=
      ⟨_, List.getElem?_eq_getElem (by omega)⟩
    rw [hstep, Option.map_some, Field.type_of_steps f hstep]
    have hnested : f.nestedPath.map (fun path => (Text.split '.' path).length) = some p.length ↔
        f.nestedPath.map (Text.split '.') = some p := by
      cases hpath : f.nestedPath with
      | none => simp
      | some path =>
        simp only [Option.map_some, Option.some.injEq]
        refine ⟨fun h => ?_, congrArg List.length⟩
        have hstart := List.prefix_of_prefix_length_le (Field.split_nestedPath hpath) hproper.2
          (Nat.le_of_eq h)
        exact hstart.eq_of_length h
    simp only [Nat.sub_add_cancel hpos, hnested]
  · rw [if_neg hproper, if_neg fun h => hproper ⟨h.1, hbelow.2 h.2⟩]

end Declarations

/-! ## Some demands in a row -/

namespace Property

/-- What becomes of some demands in a row. -/
def settle (o : Option Property) (qs : List Property) : Option Property :=
  qs.foldl (fun o q => some (q.over o)) o

theorem isContainer_over_iff (q : Property) (o : Option Property) :
    (q.over o).type.isContainer = true ↔
      q.type.isContainer = true ∨ ∃ r ∈ o, r.type.isContainer = true := by
  cases o with
  | none => simp [Property.over]
  | some o =>
    simp only [Property.over]
    split_ifs with ho hn <;> simp_all

theorem nested_over_iff (q : Property) (o : Option Property) :
    (q.over o).type = .nested ↔ q.type = .nested ∨ ∃ r ∈ o, r.type = .nested := by
  cases o with
  | none => simp [Property.over]
  | some o =>
    obtain ⟨t, a, s, c⟩ := o
    obtain ⟨t', a', s', c'⟩ := q
    cases t <;> cases t' <;> simp [Property.over, FieldType.isContainer]

theorem over_of_value {q : Property} {o : Option Property}
    (h : (q.over o).type.isContainer = false) : q.over o = q := by
  cases o with
  | none => rfl
  | some o =>
    have ho := value_of_over h o rfl
    simp [Property.over, ho]

section
variable (o : Option Property) (qs : List Property)

theorem settle_concat (q : Property) : settle o (qs ++ [q]) = some (q.over (settle o qs)) := by
  simp [settle]

theorem isSome_settle : (settle o qs).isSome = true ↔ o.isSome = true ∨ qs ≠ [] := by
  induction qs using List.reverseRecOn with
  | nil => simp [settle]
  | append_singleton qs q _ => simp [settle_concat]

theorem isContainer_settle : (∃ r ∈ settle o qs, r.type.isContainer = true) ↔
    (∃ r ∈ o, r.type.isContainer = true) ∨ ∃ q ∈ qs, q.type.isContainer = true := by
  induction qs using List.reverseRecOn with
  | nil => simp [settle]
  | append_singleton qs q ih =>
    simp only [settle_concat, Option.mem_some_iff, exists_eq_left', isContainer_over_iff, ih,
      List.mem_append, List.mem_singleton, or_and_right, exists_or, exists_eq_left]
    exact or_comm.trans or_assoc

theorem nested_settle : (∃ r ∈ settle o qs, r.type = .nested) ↔
    (∃ r ∈ o, r.type = .nested) ∨ ∃ q ∈ qs, q.type = .nested := by
  induction qs using List.reverseRecOn with
  | nil => simp [settle]
  | append_singleton qs q ih =>
    simp only [settle_concat, Option.mem_some_iff, exists_eq_left', nested_over_iff, ih,
      List.mem_append, List.mem_singleton, or_and_right, exists_or, exists_eq_left]
    exact or_comm.trans or_assoc

/-- Where only values are asked for there is the one that was asked for last. -/
theorem settle_of_values (h : ∀ r ∈ settle o qs, r.type.isContainer = false) :
    settle o qs = qs.getLast?.or o := by
  induction qs using List.reverseRecOn with
  | nil => simp [settle]
  | append_singleton qs q _ =>
    rw [settle_concat] at h ⊢
    rw [over_of_value (h _ rfl)]
    simp

end

end Property

/-! ## The whole mapping -/

namespace Declarations

variable (d : Declarations)

/-- The last of some fields that is laid out at a path. -/
def lastField (fields : List Field) (p : List String) : Option Field :=
  (fields.filter fun f => p = f.segments).getLast?

/-- The last cross-field of a name. -/
def lastComposite (p : List String) : Option Composite :=
  (d.composites.filter fun c => p = [c.name]).getLast?

/-- A schema whose fields are what is left of the declarations, in the order of their first ones,
    and whose mapping is exactly what these fields ask for, over the cross-fields. -/
structure Laid (s : Schema) : Prop where
  names : s.fields.map Field.name = (d.fields.map Field.name).eraseDups
  declared : ∀ {f}, f ∈ s.fields ↔ lastDeclaration d.fields f.name = some f
  dotless : ∀ {p n}, s.mapping.Has p n → ∀ k ∈ p, '.' ∉ k.toList
  unique : ∀ {p n n'}, s.mapping.Has p n → s.mapping.Has p n' → n = n'
  exists_iff : ∀ {p}, (∃ n, s.mapping.Has p n) ↔
    (p ≠ [] ∧ ∃ f ∈ s.fields, p <+: f.segments) ∨ ∃ c ∈ d.composites, p = [c.name]
  isContainer_iff : ∀ {p n}, s.mapping.Has p n → (n.isContainer = true ↔
    ∃ f ∈ s.fields, p <+: f.segments ∧ (p ≠ f.segments ∨ f.type.isContainer = true))
  nested_iff : ∀ {p n}, s.mapping.Has p n → n.isContainer = true → (n.property.type = .nested ↔
    ∃ f ∈ s.fields, f.nestedPath.map (Text.split '.') = some p ∨ p = f.segments ∧ f.type = .nested)
  object : ∀ {p n}, s.mapping.Has p n → n.isContainer = true → n.property.type ≠ .nested →
    n.property.type = .object
  value : ∀ {p n}, s.mapping.Has p n → n.isContainer = false →
    some n = ((lastField s.fields p).map d.node).or
      ((d.lastComposite p).map fun c => .leaf (.analyzed c.analyzers))
  fieldValue : ∀ {p n f}, s.mapping.Has p n → n.isContainer = false →
    lastField s.fields p = some f → n.ShowsField d f
  crossFieldValue : ∀ {p n c}, s.mapping.Has p n → n.isContainer = false →
    lastField s.fields p = none → d.lastComposite p = some c → n.ShowsComposite c

section
variable {t : Tree} (h : t.Tidy)
include h

theorem tidy_layField (f : Field) : (d.layField t f).Tidy :=
  h.place f.container_steps _ rfl

/-- Laying out a field does what it asks for at every path. -/
theorem property?_layField (f : Field) (p : List String) :
    (d.layField t f).property? p =
      Property.settle (t.property? p) (d.demand p f).toList := by
  refine (h.property?_place f.container_steps f.steps.2 rfl p).trans ?_
  show (d.demand p f).elim _ _ = _
  cases d.demand p f <;> rfl

theorem tidy_foldl (fields : List Field) : (fields.foldl d.layField t).Tidy := by
  induction fields generalizing t with
  | nil => exact h
  | cons f fields ih => exact ih (d.tidy_layField h f)

/-- At every path there is what the fields ask for in a row. -/
theorem property?_foldl (fields : List Field) (p : List String) :
    (fields.foldl d.layField t).property? p =
      Property.settle (t.property? p) (fields.filterMap (d.demand p)) := by
  induction fields generalizing t with
  | nil => rfl
  | cons f fields ih =>
    rw [List.foldl_cons, ih (d.tidy_layField h f), d.property?_layField h]
    cases hdemand : d.demand p f with
    | none =>
      rw [List.filterMap_cons_none hdemand]
      rfl
    | some q =>
      rw [List.filterMap_cons_some hdemand]
      rfl

end

/-- The cross-fields are values, of which the last one of a name is there. -/
theorem seed_spec : d.seed.Tidy ∧
    ∀ p, d.seed.property? p = (d.lastComposite p).map fun c => .analyzed c.analyzers := by
  unfold seed lastComposite
  induction d.composites using List.reverseRecOn with
  | nil => exact ⟨Tree.tidy_nil, fun p => by cases p <;> rfl⟩
  | append_singleton cs c ih =>
    rw [List.foldl_append, List.foldl_cons, List.foldl_nil]
    obtain ⟨htidy, hproperty⟩ := ih
    refine ⟨htidy.put (fun _ => rfl) Tree.tidy_nil, fun p => ?_⟩
    rw [List.filter_append, List.getLast?_append, List.filter_cons, List.filter_nil]
    cases p with
    | nil => exact hproperty []
    | cons k ks =>
      have hproperty := hproperty (k :: ks)
      rw [Tree.property?] at hproperty ⊢
      rw [Tree.at?_put]
      by_cases hk : k = c.name
      · subst hk
        cases ks with
        | nil => simp [Node.leaf, Node.property]
        | cons k' ks =>
          have hnone : (cs.filter fun b => c.name :: k' :: ks = [b.name]) = [] := by simp
          simp only [hnone, Node.leaf, Node.children, Tree.at?]
          simp
      · simp [hk, hproperty]

theorem tidy_mapping : d.mapping.Tidy := d.tidy_foldl d.seed_spec.1 _

/-- At every path there is what the fields ask for in a row, over a cross-field. -/
theorem property?_mapping (p : List String) :
    d.mapping.property? p =
      Property.settle ((d.lastComposite p).map fun c => .analyzed c.analyzers)
        ((assemble d.fields).filterMap (d.demand p)) := by
  rw [mapping, d.property?_foldl d.seed_spec.1, d.seed_spec.2]

/-! ## What is asked for altogether -/

section
variable {d} {fields : List Field} {p : List String}

theorem isSome_demand {f : Field} :
    (d.demand p f).isSome = true ↔ p ≠ [] ∧ p <+: f.segments := by
  rw [demand_eq]
  by_cases hp : p = f.segments
  · simp [hp, f.segments_ne_nil]
  · rw [if_neg hp]
    split <;> simp_all

/-- A container is asked for on the way, and by a field that is one. -/
theorem isContainer_demand {f : Field} : (∃ q ∈ d.demand p f, q.type.isContainer = true) ↔
    p ≠ [] ∧ p <+: f.segments ∧ (p ≠ f.segments ∨ f.type.isContainer = true) := by
  rw [demand_eq]
  by_cases hp : p = f.segments
  · simp [hp, f.segments_ne_nil, Property.type_ofField]
  · rw [if_neg hp]
    by_cases hproper : p ≠ [] ∧ p <+: f.segments
    · rw [if_pos hproper]
      refine iff_of_true ⟨_, rfl, ?_⟩ ⟨hproper.1, hproper.2, Or.inl hp⟩
      unfold Property.ofType
      split <;> rfl
    · rw [if_neg hproper]
      exact iff_of_false (by simp) fun h => hproper ⟨h.1, h.2.1⟩

/-- Nested documents are asked for at a nested path, and by a field of that type. -/
theorem nested_demand {f : Field} : (∃ q ∈ d.demand p f, q.type = .nested) ↔
    f.nestedPath.map (Text.split '.') = some p ∨ p = f.segments ∧ f.type = .nested := by
  rw [demand_eq]
  by_cases hp : p = f.segments
  · have hpath : f.nestedPath.map (Text.split '.') ≠ some p := fun h => (f.nested_proper h).2.2 hp
    simp [hp, hp ▸ hpath, Property.type_ofField]
  · rw [if_neg hp]
    by_cases hproper : p ≠ [] ∧ p <+: f.segments
    · simp [hproper, hp, Property.ofType]
    · rw [if_neg hproper]
      refine iff_of_false (by simp) ?_
      rintro (h | h)
      · exact hproper ⟨(f.nested_proper h).1, (f.nested_proper h).2.1⟩
      · exact hp h.1

/-- Where no container is asked for, fields ask for themselves. -/
theorem demands_of_values (h : ∀ q ∈ fields.filterMap (d.demand p), q.type.isContainer = false) :
    fields.filterMap (d.demand p) =
      (fields.filter fun f => p = f.segments).map fun f => .ofField f (d.copyTo f) := by
  induction fields with
  | nil => rfl
  | cons f fields ih =>
    by_cases hp : p = f.segments
    · have hdemand : d.demand p f = some (.ofField f (d.copyTo f)) := by rw [demand_eq, if_pos hp]
      rw [List.filterMap_cons_some hdemand] at h ⊢
      rw [ih fun q hq => h q (List.mem_cons_of_mem _ hq), List.filter_cons_of_pos (by simpa using hp)]
      rfl
    · have hdemand : d.demand p f = none := by
        rw [Option.eq_none_iff_forall_ne_some]
        intro q hq
        have hcontainer := (isContainer_demand (d := d) (p := p) (f := f)).2 ?_
        · obtain ⟨q', hq', htype⟩ := hcontainer
          obtain rfl := Option.some.inj (hq.symm.trans hq')
          rw [h q (List.mem_filterMap.2 ⟨f, by simp, hq⟩)] at htype
          cases htype
        · have hsome := isSome_demand.1 (hq ▸ rfl : (d.demand p f).isSome = true)
          exact ⟨hsome.1, hsome.2, Or.inl hp⟩
      rw [List.filterMap_cons_none hdemand] at h ⊢
      rw [ih h, List.filter_cons_of_neg (by simpa using hp)]

end

theorem isSome_lastComposite {p : List String} :
    (d.lastComposite p).isSome = true ↔ ∃ c ∈ d.composites, p = [c.name] := by
  simp [lastComposite]

section
variable {d} {p : List String} {n : Node}

/-- What is at a path is what the fields ask for in a row, over a cross-field. -/
theorem property_of_has (hn : d.mapping.Has p n) :
    Property.settle ((d.lastComposite p).map fun c => .analyzed c.analyzers)
      ((assemble d.fields).filterMap (d.demand p)) = some n.property := by
  rw [← d.property?_mapping, Tree.property?, d.tidy_mapping.has_iff.1 hn]
  rfl

theorem exists_demand {fields : List Field} (P : Property → Prop) :
    (∃ q ∈ fields.filterMap (d.demand p), P q) ↔ ∃ f ∈ fields, ∃ q ∈ d.demand p f, P q := by
  constructor
  · rintro ⟨q, hq, h⟩
    obtain ⟨f, hf, hfq⟩ := List.mem_filterMap.1 hq
    exact ⟨f, hf, q, hfq, h⟩
  · rintro ⟨f, hf, q, hfq, h⟩
    exact ⟨q, List.mem_filterMap.2 ⟨f, hf, hfq⟩, h⟩

theorem exists_has : (∃ n, d.mapping.Has p n) ↔
    (p ≠ [] ∧ ∃ f ∈ assemble d.fields, p <+: f.segments) ∨ ∃ c ∈ d.composites, p = [c.name] := by
  have hsome : (∃ n, d.mapping.Has p n) ↔ (d.mapping.property? p).isSome = true := by
    simp only [d.tidy_mapping.has_iff, Tree.property?, Option.isSome_map, Option.isSome_iff_exists]
  have hdemands : (assemble d.fields).filterMap (d.demand p) ≠ [] ↔
      p ≠ [] ∧ ∃ f ∈ assemble d.fields, p <+: f.segments := by
    constructor
    · intro h
      obtain ⟨q, hq⟩ := List.exists_mem_of_ne_nil _ h
      obtain ⟨f, hf, hfq⟩ := List.mem_filterMap.1 hq
      obtain ⟨hp, hbelow⟩ := isSome_demand.1 (Option.isSome_of_mem hfq)
      exact ⟨hp, f, hf, hbelow⟩
    · rintro ⟨hp, f, hf, hbelow⟩
      obtain ⟨q, hfq⟩ := Option.isSome_iff_exists.1 (isSome_demand (d := d).2 ⟨hp, hbelow⟩)
      exact List.ne_nil_of_mem (List.mem_filterMap.2 ⟨f, hf, hfq⟩)
  rw [hsome, d.property?_mapping, Property.isSome_settle, Option.isSome_map, isSome_lastComposite,
    hdemands]
  exact or_comm

theorem isContainer_of_has (hn : d.mapping.Has p n) : n.isContainer = true ↔
    ∃ f ∈ assemble d.fields, p <+: f.segments ∧ (p ≠ f.segments ∨ f.type.isContainer = true) := by
  have hsettle := Property.isContainer_settle
    ((d.lastComposite p).map fun c => .analyzed c.analyzers)
    ((assemble d.fields).filterMap (d.demand p))
  rw [property_of_has hn, exists_demand fun q => q.type.isContainer = true] at hsettle
  simp only [Option.mem_some_iff, exists_eq_left', isContainer_demand] at hsettle
  rw [Node.isContainer, hsettle]
  have hp : p ≠ [] := Tree.ne_nil_of_has hn
  simp [hp, Property.analyzed, FieldType.isContainer]

theorem nested_of_has (hn : d.mapping.Has p n) : n.property.type = .nested ↔
    ∃ f ∈ assemble d.fields, f.nestedPath.map (Text.split '.') = some p ∨
      p = f.segments ∧ f.type = .nested := by
  have hsettle := Property.nested_settle
    ((d.lastComposite p).map fun c => .analyzed c.analyzers)
    ((assemble d.fields).filterMap (d.demand p))
  rw [property_of_has hn, exists_demand fun q => q.type = .nested] at hsettle
  simp only [Option.mem_some_iff, exists_eq_left', nested_demand] at hsettle
  rw [hsettle]
  simp [Property.analyzed]

theorem value_of_has (hn : d.mapping.Has p n) (hvalue : n.isContainer = false) :
    some n = ((lastField (assemble d.fields) p).map d.node).or
      ((d.lastComposite p).map fun c => .leaf (.analyzed c.analyzers)) := by
  have hchildren := d.tidy_mapping.of_at? (d.tidy_mapping.has_iff.1 hn) hvalue
  have hleaf : n = .leaf n.property := by
    obtain ⟨q, cs⟩ := n
    exact congrArg (Node.mk q) hchildren
  have hsettle := property_of_has hn
  have hsettled : ∀ r ∈ Property.settle ((d.lastComposite p).map fun c => .analyzed c.analyzers)
      ((assemble d.fields).filterMap (d.demand p)), r.type.isContainer = false := by
    rw [hsettle]
    rintro r ⟨⟩
    exact hvalue
  have hvalues : ∀ q ∈ (assemble d.fields).filterMap (d.demand p), q.type.isContainer = false := by
    intro q hq
    by_contra hcontainer
    obtain ⟨r, hr, htype⟩ := (Property.isContainer_settle _ _).2
      (Or.inr ⟨q, hq, Bool.not_eq_false _ ▸ hcontainer⟩)
    rw [hsettled r hr] at htype
    cases htype
  rw [Property.settle_of_values _ _ hsettled, demands_of_values hvalues, List.getLast?_map]
    at hsettle
  have hleaves := congrArg (Option.map Node.leaf) hsettle
  rw [Option.map_or, Option.map_map, Option.map_map, Option.map_some, ← hleaf] at hleaves
  exact hleaves.symm

theorem showsField_of_has {f : Field} (hn : d.mapping.Has p n) (hvalue : n.isContainer = false)
    (hlast : lastField (assemble d.fields) p = some f) : n.ShowsField d f := by
  have hnode := value_of_has hn hvalue
  rw [hlast, Option.map_some, Option.some_or] at hnode
  obtain rfl := Option.some.inj hnode
  exact d.shows_node f

theorem showsComposite_of_has {c : Composite} (hn : d.mapping.Has p n)
    (hvalue : n.isContainer = false) (hnone : lastField (assemble d.fields) p = none)
    (hlast : d.lastComposite p = some c) : n.ShowsComposite c := by
  have hnode := value_of_has hn hvalue
  rw [hnone, hlast, Option.map_none, Option.none_or, Option.map_some] at hnode
  obtain rfl := Option.some.inj hnode
  exact c.shows_leaf

end

/-- **The mapping is exactly what the declared fields ask for.**  No name in it holds a point; there
    is something at a path if a field is laid out there or below it, or if it is the name of a
    cross-field; it is a container if it has to be one for a field below it or is declared as one,
    and then it holds nested documents if a field says so; otherwise it is the last field that is
    laid out there, with the type, the analyzers and the copies that are declared of it. -/
theorem compile_laid (s : Schema) (hs : d.compile = .ok s)
    (hnames : ∀ c ∈ d.composites, '.' ∉ c.name.toList) : d.Laid s := by
  obtain rfl := d.compile_eq_ok hs
  constructor
  case names => exact (names_assemble d.fields).1
  case declared => exact mem_assemble
  case dotless =>
    intro p n hn k hk
    rcases exists_has.1 ⟨n, hn⟩ with ⟨-, f, -, hbelow⟩ | ⟨c, hc, rfl⟩
    · exact Field.dotless_segments (hbelow.subset hk)
    · exact List.mem_singleton.1 hk ▸ hnames c hc
  case unique =>
    intro p n n' hn hn'
    have hfound := d.tidy_mapping.has_iff.1 hn
    rw [d.tidy_mapping.has_iff.1 hn'] at hfound
    exact (Option.some.inj hfound).symm
  case exists_iff => exact exists_has
  case isContainer_iff => exact isContainer_of_has
  case nested_iff => exact fun hn _ => nested_of_has hn
  case object =>
    rintro p ⟨⟨type, analyzer, subs, copyTo⟩, cs⟩ - hcontainer hnested
    cases type <;> first | rfl | contradiction
  case value => exact value_of_has
  case fieldValue => exact showsField_of_has
  case crossFieldValue => exact showsComposite_of_has

/-- A value that gives way to the field below it, a field that is declared again, and one in nested
    documents. -/
theorem compile_laid_offers :
    let d : Declarations := ⟨Composite.standard, "sku", [.plain "sku" .keyword,
      .plain "price" .integer, .plain "price.net" .double, .plain "sku" .text,
      { Field.plain "offers.price" .double with nestedPath := some "offers" }]⟩
    ∃ s, d.compile = .ok s ∧ d.Laid s := by
  intro d
  exact ⟨_, rfl, compile_laid d _ rfl (by decide)⟩

end Declarations

end Merchandising

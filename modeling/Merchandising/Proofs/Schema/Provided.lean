/-
  What the properties of a mapping provide, and where queries find them.

  * `Node.Provides` is a property that provides an analyzer under a name: under its own name, or
    under that, a point and the name of the analyzer;
  * `Declarations.provides_node`: the property of a field provides what the field is asked for;
  * `Declarations.Separate` is what is asked of the names: nested documents hold the fields that
    start with their path, and nothing is declared below a value or a cross-field;
  * `Separate.at?_value`, `Separate.at?_composite`, `at?_nestedPath`: then values, cross-fields and
    nested documents are at the paths of their names.
-/
import Mathlib.Data.List.Nodup
import Merchandising.Proofs.Schema.Layout

namespace Merchandising

/-! ## What a property provides -/

/-- The property itself is analyzed with `a`; values that are no texts are left as they are. -/
def Node.IsMain (n : Node) (a : Analyzer) : Prop :=
  if n.property.type = .text then n.property.analyzer = some a else a = .untouched

/-- A further property of the same values is analyzed with `a`. -/
def Node.HasSub (n : Node) (a : Analyzer) : Prop :=
  n.property.subs.lookup a.name =
    some (if a = .untouched then ⟨.keyword, none⟩ else ⟨.text, some a⟩)

/-- The property `name` provides the analyzer `a` as `p`. -/
def Node.Provides (n : Node) (name : String) (a : Analyzer) (p : String) : Prop :=
  n.IsMain a ∧ p = name ∨ n.HasSub a ∧ p = name ++ "." ++ a.name

theorem propertyOf_eq_some {name : String} {analyzers : List Analyzer} {a : Analyzer} {p : String} :
    propertyOf name analyzers a = some p ↔
      analyzers.head? = some a ∧ p = name ∨
        analyzers.head? ≠ some a ∧ a ∈ analyzers.tail ∧ p = name ++ "." ++ a.name := by
  cases analyzers with
  | nil => simp [propertyOf]
  | cons main others =>
    simp only [propertyOf, List.head?_cons, List.tail_cons, Option.some.injEq]
    by_cases hmain : a = main
    · simp [hmain, eq_comm]
    · by_cases hother : a ∈ others
      · simp [hmain, hother, Ne.symm hmain, eq_comm]
      · simp [hmain, hother, Ne.symm hmain]

/-- A name that is indexed with an analyzer has a property for it. -/
theorem exists_propertyOf (name : String) {analyzers : List Analyzer} {a : Analyzer}
    (ha : a ∈ analyzers) : ∃ p, propertyOf name analyzers a = some p := by
  cases analyzers with
  | nil => cases ha
  | cons main others =>
    by_cases hmain : main = a
    · exact ⟨_, propertyOf_eq_some.2 (Or.inl ⟨congrArg some hmain, rfl⟩)⟩
    · have hother : a ∈ others := (List.mem_cons.1 ha).resolve_left (Ne.symm hmain)
      exact ⟨_, propertyOf_eq_some.2 (Or.inr ⟨by simpa using hmain, hother, rfl⟩)⟩

/-- A property is a text that is analyzed with some analyzers, the first one being its own. -/
structure Node.IsAnalyzed (n : Node) (analyzers : List Analyzer) : Prop where
  type : n.property.type = .text
  main : n.property.analyzer = analyzers.head?
  subs : n.property.subs = (Property.analyzed analyzers).subs

theorem Node.IsAnalyzed.isMain_iff {n : Node} {analyzers : List Analyzer}
    (h : n.IsAnalyzed analyzers) (a : Analyzer) : n.IsMain a ↔ analyzers.head? = some a := by
  rw [IsMain, if_pos h.type, h.main]

theorem Node.IsAnalyzed.hasSub_iff {n : Node} {analyzers : List Analyzer}
    (h : n.IsAnalyzed analyzers) (a : Analyzer) : n.HasSub a ↔ a ∈ analyzers.tail := by
  rw [HasSub, h.subs, ← Keyed.mem_iff_lookup (Property.sorted_subs _), Property.mem_subs]
  constructor
  · rintro ⟨b, hb, hname, -⟩
    rwa [Analyzer.name_injective hname]
  · exact fun ha => ⟨a, ha, rfl, rfl⟩

/-- It provides each of them as the property that it is asked for. -/
theorem Node.IsAnalyzed.provides {n : Node} {analyzers : List Analyzer} (h : n.IsAnalyzed analyzers)
    {name : String} {a : Analyzer} {p : String} (hp : propertyOf name analyzers a = some p) :
    n.Provides name a p := by
  rw [Provides, h.isMain_iff, h.hasSub_iff]
  rcases propertyOf_eq_some.1 hp with hp | ⟨-, hp⟩
  · exact Or.inl hp
  · exact Or.inr hp

/-- It provides nothing else, if no analyzer is listed twice. -/
theorem Node.IsAnalyzed.provides_iff {n : Node} {analyzers : List Analyzer}
    (h : n.IsAnalyzed analyzers) (hnodup : analyzers.Nodup) {name : String} {a : Analyzer}
    {p : String} : propertyOf name analyzers a = some p ↔ n.Provides name a p := by
  rw [Provides, h.isMain_iff, h.hasSub_iff, propertyOf_eq_some]
  refine or_congr_right (and_iff_right_of_imp ?_)
  rintro ⟨hmem, -⟩ hhead
  cases analyzers with
  | nil => cases hhead
  | cons main others =>
    obtain rfl := Option.some.inj hhead
    exact (List.nodup_cons.1 hnodup).1 hmem

/-- A field that is no text is asked for its values as they are. -/
theorem Field.property?_of_value {f : Field} (htext : f.isText = false) {a : Analyzer}
    {p : String} : f.property? a = some p ↔ a = .untouched ∧ p = f.name := by
  rw [property?, analyzers, htext, propertyOf_eq_some]
  simp [eq_comm]

/-- The values as they are, are among what a field is indexed with. -/
theorem Field.property?_untouched (f : Field) : f.property? .untouched = some f.filterProperty := by
  have hmem : Analyzer.untouched ∈ f.analyzers := by
    unfold Field.analyzers
    split
    · by_cases hmain : f.analyzer = .untouched
      · simp [hmain]
      · simp [Field.extraAnalyzers, Ne.symm hmain]
    · simp
  obtain ⟨p, hp⟩ := exists_propertyOf f.name hmem
  have hproperty : f.property? .untouched = some p := hp
  rw [Field.filterProperty, hproperty, Option.getD_some]

theorem Field.property?_analyzer {f : Field} (htext : f.isText = true) :
    f.property? f.analyzer = some f.name := by
  simp [Field.property?, Field.analyzers, htext, propertyOf]

/-- A field is laid out with the properties that it is asked for. -/
theorem Declarations.provides_node (d : Declarations) (f : Field) (a : Analyzer) (p : String) :
    f.property? a = some p ↔ (d.node f).Provides f.name a p := by
  cases htext : f.isText with
  | true =>
    have hproperty : (d.node f).property =
        { Property.analyzed f.analyzers with copyTo := d.copyTo f } := by
      simp [node, Node.leaf, Node.property, Property.ofField, htext]
    have hanalyzed : (d.node f).IsAnalyzed f.analyzers :=
      ⟨by rw [hproperty]; rfl, by rw [hproperty]; rfl, by rw [hproperty]⟩
    exact hanalyzed.provides_iff f.nodup_analyzers
  | false =>
    have hproperty :
        (d.node f).property = { Property.ofType f.type with copyTo := d.copyTo f } := by
      simp [node, Node.leaf, Node.property, Property.ofField, htext]
    have htype : (d.node f).property.type ≠ .text := by
      rw [hproperty]
      simpa [Field.isText, Property.ofType] using htext
    rw [Field.property?_of_value htext, Node.Provides, Node.IsMain, if_neg htype, Node.HasSub,
      hproperty]
    simp [Property.ofType]

/-! ## What is asked of the names -/

/-- Nested documents hold the fields that start with their path, and nothing is declared below a
    value or a cross-field, nor under the name of a cross-field. -/
structure Declarations.Separate (d : Declarations) : Prop where
  distinct : (d.composites.map Composite.name).Nodup
  dotless : ∀ c ∈ d.composites, '.' ∉ c.name.toList
  nested : ∀ f ∈ assemble d.fields, ∀ path ∈ f.nestedPath, Text.Dotted path f.name
  values : ∀ f ∈ assemble d.fields, f.type.isContainer = false →
    ∀ g ∈ assemble d.fields, ¬ Text.Dotted f.name g.name
  crossFields : ∀ c ∈ d.composites, ∀ g ∈ assemble d.fields,
    g.name ≠ c.name ∧ ¬ Text.Dotted c.name g.name

/-- A field whose name starts with its nested path is laid out where its name says. -/
theorem Field.segments_eq_split {f : Field} (h : ∀ path ∈ f.nestedPath, Text.Dotted path f.name) :
    f.segments = Text.split '.' f.name := by
  unfold segments
  cases hpath : f.nestedPath with
  | none => rfl
  | some path =>
    obtain ⟨rest, hname⟩ := h path hpath
    have hrelative : Field.relativeName path f.name = rest := by
      simp [relativeName, hname, List.append_assoc]
    rw [hname] at hrelative ⊢
    simp only [hrelative, Text.split_dotted]

/-! ## What is at the path of a name -/

theorem getLast?_filter_eq {α : Type} {as : List α} {q : α → Bool} {a : α} (ha : a ∈ as)
    (hq : q a = true) (honly : ∀ b ∈ as, q b = true → b = a) : (as.filter q).getLast? = some a := by
  have hmem : a ∈ as.filter q := List.mem_filter.2 ⟨ha, hq⟩
  rw [List.getLast?_eq_some_getLast (List.ne_nil_of_mem hmem)]
  obtain ⟨hb, hqb⟩ := List.mem_filter.1 (List.getLast_mem (List.ne_nil_of_mem hmem))
  exact congrArg some (honly _ hb hqb)

namespace Declarations

/-- Of cross-fields with distinct names each is the last one of its name. -/
theorem lastComposite_eq {d : Declarations} (hdistinct : (d.composites.map Composite.name).Nodup)
    {c : Composite} (hc : c ∈ d.composites) : d.lastComposite [c.name] = some c := by
  refine getLast?_filter_eq hc (by simp) fun b hb hq => ?_
  have hname : c.name = b.name := by simpa using hq
  exact List.inj_on_of_nodup_map hdistinct hb hc hname.symm

section
variable {d : Declarations} (h : d.Separate)
include h

/-- Of the fields only a value itself is laid out at its path or below it. -/
theorem Separate.eq_of_below {f g : Field} (hf : f ∈ assemble d.fields)
    (hvalue : f.type.isContainer = false) (hg : g ∈ assemble d.fields)
    (hbelow : Text.split '.' f.name <+: g.segments) : g = f := by
  rw [Field.segments_eq_split (h.nested g hg)] at hbelow
  rcases Text.split_start hbelow with hname | hdotted
  · exact List.inj_on_of_nodup_map (names_assemble d.fields).2 hg hf hname
  · exact absurd hdotted (h.values f hf hvalue g hg)

/-- No field is laid out at the name of a cross-field or below it. -/
theorem Separate.not_below {c : Composite} (hc : c ∈ d.composites) {g : Field}
    (hg : g ∈ assemble d.fields) : ¬ Text.split '.' c.name <+: g.segments := by
  intro hbelow
  rw [Field.segments_eq_split (h.nested g hg)] at hbelow
  rcases Text.split_start hbelow with hname | hdotted
  · exact (h.crossFields c hc g hg).1 hname
  · exact (h.crossFields c hc g hg).2 hdotted

/-- Something is at the path of every field. -/
theorem Separate.has_field {f : Field} (hf : f ∈ assemble d.fields) :
    ∃ n, d.mapping.Has (Text.split '.' f.name) n := by
  rw [← Field.segments_eq_split (h.nested f hf)]
  exact exists_has.2 (Or.inl ⟨f.segments_ne_nil, f, hf, List.prefix_refl _⟩)

/-- The property of a value is at the path of its name. -/
theorem Separate.at?_value {f : Field} (hf : f ∈ assemble d.fields)
    (hvalue : f.type.isContainer = false) :
    Tree.at? (Text.split '.' f.name) d.mapping = some (d.node f) := by
  have hsegments := Field.segments_eq_split (h.nested f hf)
  obtain ⟨n, hn⟩ := h.has_field hf
  have hleaf : n.isContainer = false := by
    by_contra hcontainer
    obtain ⟨g, hg, hbelow, hreason⟩ := (isContainer_of_has hn).1 (by simpa using hcontainer)
    obtain rfl := h.eq_of_below hf hvalue hg hbelow
    rcases hreason with hne | htype
    · exact hne hsegments.symm
    · rw [hvalue] at htype
      cases htype
  have hlast : lastField (assemble d.fields) (Text.split '.' f.name) = some f := by
    refine getLast?_filter_eq hf (by simp [hsegments]) fun g hg hq => ?_
    refine h.eq_of_below hf hvalue hg ?_
    exact of_decide_eq_true hq ▸ List.prefix_rfl
  have hvalue := value_of_has hn hleaf
  rw [hlast, Option.map_some, Option.some_or] at hvalue
  rw [d.tidy_mapping.has_iff.1 hn, hvalue]

/-- The property of a cross-field is at its name. -/
theorem Separate.at?_composite {c : Composite} (hc : c ∈ d.composites) :
    Tree.at? (Text.split '.' c.name) d.mapping = some (.leaf (.analyzed c.analyzers)) := by
  have hsplit := Text.split_of_notMem (h.dotless c hc)
  obtain ⟨n, hn⟩ := exists_has.2 (Or.inr ⟨c, hc, hsplit⟩)
  have hleaf : n.isContainer = false := by
    by_contra hcontainer
    obtain ⟨g, hg, hbelow, -⟩ := (isContainer_of_has hn).1 (by simpa using hcontainer)
    exact h.not_below hc hg hbelow
  have hfield : lastField (assemble d.fields) (Text.split '.' c.name) = none := by
    refine List.getLast?_eq_none_iff.2 (List.filter_eq_nil_iff.2 fun g hg hq => ?_)
    refine h.not_below hc hg ?_
    exact of_decide_eq_true hq ▸ List.prefix_rfl
  have hlast : d.lastComposite (Text.split '.' c.name) = some c :=
    hsplit ▸ lastComposite_eq h.distinct hc
  have hvalue := value_of_has hn hleaf
  rw [hfield, hlast, Option.map_none, Option.none_or, Option.map_some] at hvalue
  rw [d.tidy_mapping.has_iff.1 hn, hvalue]

/-- A container is at the path of its name. -/
theorem Separate.at?_container {f : Field} (hf : f ∈ assemble d.fields)
    (hcontainer : f.type.isContainer = true) :
    ∃ n, Tree.at? (Text.split '.' f.name) d.mapping = some n ∧ n.isContainer = true := by
  obtain ⟨n, hn⟩ := h.has_field hf
  refine ⟨n, d.tidy_mapping.has_iff.1 hn, (isContainer_of_has hn).2 ⟨f, hf, ?_, Or.inr hcontainer⟩⟩
  exact Field.segments_eq_split (h.nested f hf) ▸ List.prefix_rfl

end

/-- Nested documents are at every nested path. -/
theorem at?_nestedPath {d : Declarations} {f : Field} (hf : f ∈ assemble d.fields) {path : String}
    (hpath : f.nestedPath = some path) :
    ∃ n, Tree.at? (Text.split '.' path) d.mapping = some n ∧ n.property.type = .nested := by
  have hsplit : f.nestedPath.map (Text.split '.') = some (Text.split '.' path) := by rw [hpath]; rfl
  have hproper := f.nested_proper hsplit
  obtain ⟨n, hn⟩ := exists_has.2 (Or.inl ⟨hproper.1, f, hf, hproper.2.1⟩)
  exact ⟨n, d.tidy_mapping.has_iff.1 hn, (nested_of_has hn).2 ⟨f, hf, Or.inl hsplit⟩⟩

end Declarations

end Merchandising

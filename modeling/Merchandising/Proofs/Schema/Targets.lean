/-
  What fields are copied to.

  * `Tree.Receives` is a cross-field that is in its place: a text at the root of the mapping that is
    analyzed as the cross-field is, and not copied to itself;
  * `Declarations.StandsIn` is a field that may be laid out in the place of a cross-field;
  * `receives_iff`: a cross-field is in its place iff nothing else is laid out there or below it;
  * `copies_received`: so that is in its place under that condition, and only then.
-/
import Merchandising.Proofs.Schema.Provided

namespace Merchandising

/-- A cross-field is in its place. -/
def Tree.Receives (t : Tree) (c : Composite) : Prop :=
  ∃ n, t.Has [c.name] n ∧ n.IsAnalyzed c.analyzers ∧ c.name ∉ n.property.copyTo

/-- What is copied after some demands in a row was copied before, or one of them is copied. -/
theorem Property.mem_copyTo_settle {o : Option Property} {qs : List Property} {r : Property}
    {name : String} (hr : r ∈ settle o qs) (hname : name ∈ r.copyTo) :
    (∃ q ∈ o, name ∈ q.copyTo) ∨ ∃ q ∈ qs, name ∈ q.copyTo := by
  induction qs using List.reverseRecOn generalizing r with
  | nil => exact Or.inl ⟨r, hr, hname⟩
  | append_singleton qs q ih =>
    rw [settle_concat] at hr
    obtain rfl := Option.mem_some_iff.1 hr
    have hover : name ∈ q.copyTo ∨ ∃ r ∈ settle o qs, name ∈ r.copyTo := by
      cases hsettle : settle o qs with
      | none =>
        rw [hsettle] at hname
        exact Or.inl hname
      | some r =>
        rw [hsettle] at hname
        unfold Property.over at hname
        dsimp only at hname
        split_ifs at hname
        · exact Or.inl hname
        · exact Or.inr ⟨r, rfl, hname⟩
        · exact Or.inr ⟨r, rfl, hname⟩
    rcases hover with hq | ⟨r, hr, hname⟩
    · exact Or.inr ⟨q, by simp, hq⟩
    · rcases ih hr hname with hstart | ⟨q', hq', hname⟩
      · exact Or.inl hstart
      · exact Or.inr ⟨q', by simp [hq'], hname⟩

/-- A field at the root has no nested path, and is laid out under its name. -/
theorem Field.name_of_segments {f : Field} {k : String} (h : f.segments = [k]) : f.name = k := by
  unfold segments at h
  cases hpath : f.nestedPath with
  | none =>
    rw [hpath] at h
    exact Text.eq_of_split h
  | some path =>
    rw [hpath] at h
    have hlength := congrArg List.length h
    have houter := List.length_pos_iff.2 (Text.split_ne_nil '.' path)
    have hinner := List.length_pos_iff.2 (Text.split_ne_nil '.' (relativeName path f.name))
    rw [List.length_append, List.length_singleton] at hlength
    omega

namespace Declarations

variable (d : Declarations)

/-- A field is laid out in the place of a cross-field, and does for it: it is a text that is analyzed
    as the cross-field is, and not copied to it. -/
def StandsIn (f : Field) (c : Composite) : Prop :=
  f.segments = [c.name] ∧ (d.node f).IsAnalyzed c.analyzers ∧ c.name ∉ d.copyTo f

variable {d}

/-- Whatever is copied is copied to a cross-field. -/
theorem composite_of_copied {p : List String} {n : Node} (hn : d.mapping.Has p n) {name : String}
    (hname : name ∈ n.property.copyTo) : ∃ c ∈ d.composites, c.name = name := by
  rcases Property.mem_copyTo_settle (property_of_has hn) hname with ⟨q, hq, hname⟩ | ⟨q, hq, hname⟩
  · -- the cross-fields themselves are not copied
    obtain ⟨c, -, rfl⟩ := Option.map_eq_some_iff.1 hq
    cases hname
  · obtain ⟨f, -, hfq⟩ := List.mem_filterMap.1 hq
    rw [demand_eq] at hfq
    by_cases hp : p = f.segments
    · rw [if_pos hp] at hfq
      obtain rfl := Option.some.inj hfq
      exact ((d.mem_copyTo f).1 hname).1
    · rw [if_neg hp] at hfq
      split at hfq
      · obtain rfl := Option.some.inj hfq
        cases hname
      · cases hfq

/-- Of the fields at most one is laid out at a name of the root. -/
theorem lastField_root {f : Field} (hf : f ∈ assemble d.fields) {k : String}
    (hk : f.segments = [k]) : lastField (assemble d.fields) [k] = some f := by
  refine getLast?_filter_eq hf (by simp [hk]) fun g hg hq => ?_
  have hname : g.name = f.name := by
    rw [Field.name_of_segments hk, Field.name_of_segments (of_decide_eq_true hq).symm]
  exact List.inj_on_of_nodup_map (names_assemble d.fields).2 hg hf hname

/-- A cross-field is in its place iff every field that is laid out there or below it does for it. -/
theorem receives_iff (hdistinct : (d.composites.map Composite.name).Nodup) {c : Composite}
    (hc : c ∈ d.composites) : d.mapping.Receives c ↔
      ∀ f ∈ assemble d.fields, [c.name] <+: f.segments → d.StandsIn f c := by
  constructor
  · rintro ⟨n, hn, hanalyzed, hcopy⟩ f hf hbelow
    have hvalue : n.isContainer = false := by
      rw [Node.isContainer, hanalyzed.type]
      rfl
    have hsegments : f.segments = [c.name] := by
      by_contra hne
      have hcontainer := (isContainer_of_has hn).2 ⟨f, hf, hbelow, Or.inl (Ne.symm hne)⟩
      rw [hvalue] at hcontainer
      cases hcontainer
    have hnode := value_of_has hn hvalue
    rw [lastField_root hf hsegments, Option.map_some, Option.some_or] at hnode
    obtain rfl := Option.some.inj hnode
    exact ⟨hsegments, hanalyzed, hcopy⟩
  · intro h
    obtain ⟨n, hn⟩ := exists_has.2 (Or.inr ⟨c, hc, rfl⟩)
    have hvalue : n.isContainer = false := by
      by_contra hcontainer
      obtain ⟨f, hf, hbelow, hreason⟩ := (isContainer_of_has hn).1 (by simpa using hcontainer)
      obtain ⟨hsegments, hanalyzed, -⟩ := h f hf hbelow
      rcases hreason with hne | htype
      · exact hne hsegments.symm
      · have htext : f.type = .text := (Property.type_ofField f _).symm.trans hanalyzed.type
        rw [htext] at htype
        cases htype
    have hnode := value_of_has hn hvalue
    refine ⟨n, hn, ?_⟩
    cases hfield : lastField (assemble d.fields) [c.name] with
    | some f =>
      rw [hfield, Option.map_some, Option.some_or] at hnode
      obtain rfl := Option.some.inj hnode
      obtain ⟨hf, hq⟩ := List.mem_filter.1 (List.mem_of_getLast? hfield)
      exact (h f hf (of_decide_eq_true hq ▸ List.prefix_rfl)).2
    | none =>
      rw [hfield, Option.map_none, Option.none_or, lastComposite_eq hdistinct hc, Option.map_some]
        at hnode
      obtain rfl := Option.some.inj hnode
      exact ⟨⟨rfl, rfl, rfl⟩, List.not_mem_nil⟩

/-- **What is copied is copied to a cross-field in its place**, iff every field that is laid out there
    or below it does for the cross-field. -/
theorem copies_received (d : Declarations) (s : Schema) (hs : d.compile = .ok s)
    (hdistinct : (d.composites.map Composite.name).Nodup) :
    ∀ p n, s.mapping.Has p n → ∀ name ∈ n.property.copyTo, ∃ c ∈ d.composites, c.name = name ∧
      (s.mapping.Receives c ↔ ∀ f ∈ s.fields, [name] <+: f.segments → d.StandsIn f c) := by
  obtain rfl := d.compile_eq_ok hs
  intro p n hn name hname
  obtain ⟨c, hc, rfl⟩ := composite_of_copied hn hname
  exact ⟨c, hc, rfl, receives_iff hdistinct hc⟩

/-- The name of a product is copied to the cross-field for searching, beside which there is a field
    whose name starts in the same way. -/
theorem copies_received_name :
    let d : Declarations := ⟨Composite.standard, "sku", [.plain "sku" .keyword,
      (Field.plain "name" .text).withWeight 2.0, .plain "searches.count" .integer]⟩
    ∃ s n, d.compile = .ok s ∧ s.mapping.Has ["name"] n ∧ "search" ∈ n.property.copyTo ∧
      ∃ c ∈ d.composites, c.name = "search" ∧ s.mapping.Receives c := by
  intro d
  have hname : d.schema.mapping.Has ["name"] (d.node ((Field.plain "name" .text).withWeight 2.0)) :=
    d.tidy_mapping.has_iff.2 rfl
  obtain ⟨c, hc, hsearch, hreceives⟩ :=
    copies_received d d.schema rfl (by decide) ["name"] _ hname "search" (by decide)
  refine ⟨d.schema, _, rfl, hname, by decide, c, hc, hsearch, hreceives.2 fun f hf hbelow => ?_⟩
  have hapart : ∀ g ∈ assemble d.fields, ¬ ["search"] <+: g.segments := by decide
  exact absurd hbelow (hapart f hf)

/-- **A field takes the place of a cross-field that others are copied to**: the cross-field for
    searching is lost to a field of its name. -/
theorem copied_field_replaced :
    let d : Declarations := ⟨Composite.standard, "sku", [.plain "sku" .keyword,
      (Field.plain "name" .text).withWeight 1.0, .plain "search" .keyword]⟩
    (∀ c ∈ d.composites, '.' ∉ c.name.toList ∧ c.analyzers ≠ []) ∧
      (d.composites.map Composite.name).Nodup ∧
      ∃ s n, d.compile = .ok s ∧ s.mapping.Has ["name"] n ∧ "search" ∈ n.property.copyTo ∧
        ∀ c ∈ d.composites, c.name = "search" → ¬ s.mapping.Receives c := by
  intro d
  have hname : d.mapping.Has ["name"] (d.node ((Field.plain "name" .text).withWeight 1.0)) :=
    d.tidy_mapping.has_iff.2 rfl
  refine ⟨by decide, by decide, d.schema, _, rfl, hname, by decide, fun c hc hsearch hreceives => ?_⟩
  have hfield : Field.plain "search" .keyword ∈ assemble d.fields :=
    mem_assemble.2 rfl
  obtain ⟨-, hanalyzed, -⟩ := (receives_iff (by decide) hc).1 hreceives _ hfield
    (by rw [hsearch]; decide)
  cases hanalyzed.type

end Declarations

end Merchandising

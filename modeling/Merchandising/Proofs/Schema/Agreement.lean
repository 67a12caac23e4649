/-
  Queries ask for properties that the mapping provides.

  * `Fragment.LooksAt` and `Fragment.Enters` are the properties that a condition looks at and the
    nested documents that it looks into, and `Fragment.IsWithin` those that it is about as a whole;
  * `Schema.Agrees` is a schema whose mapping provides, for every value, what the field is asked
    for, and every property that searches and conditions come to;
  * `Declarations.compile_agrees`: so does every schema with separate names.
-/
import Merchandising.Proofs.Schema.Weighted
import Merchandising.Rule.Translator

namespace Merchandising

/-! ## What queries ask for -/

/-- The mapping provides the analyzer `a` as the property `p`. -/
def Schema.Offers (s : Schema) (a : Analyzer) (p : String) : Prop :=
  ∃ name n, Tree.at? (Text.split '.' name) s.mapping = some n ∧ n.Provides name a p

/-- A condition looks at a property, for its values as they are or for words in them. -/
inductive Fragment.LooksAt : Fragment → Bool → String → Prop where
  | term {name : Option String} {p : String} {value : Scalar} :
    LooksAt (.mk name (.term p value)) false p
  | terms {name : Option String} {p : String} {values : List Scalar} :
    LooksAt (.mk name (.terms p values)) false p
  | range {name : Option String} {p : String} {bounds : Bounds} :
    LooksAt (.mk name (.range p bounds)) false p
  | words {name : Option String} {p text : String} {fuzziness minimum : Option String} :
    LooksAt (.mk name (.words p text fuzziness minimum)) true p
  | nested {name : Option String} {path p : String} {words : Bool} {q : Fragment}
    (h : LooksAt q words p) : LooksAt (.mk name (.nested path q)) words p
  | not {name : Option String} {p : String} {words : Bool} {q : Fragment}
    (h : LooksAt q words p) : LooksAt (.mk name (.not q)) words p

/-- A condition looks into the documents nested under a path. -/
inductive Fragment.Enters : Fragment → String → Prop where
  | here {name : Option String} {path : String} {q : Fragment} :
    Enters (.mk name (.nested path q)) path
  | nested {name : Option String} {path inner : String} {q : Fragment} (h : Enters q inner) :
    Enters (.mk name (.nested path q)) inner
  | not {name : Option String} {path : String} {q : Fragment} (h : Enters q path) :
    Enters (.mk name (.not q)) path

/-- A condition as a whole is about the documents nested under a path, or is the negation of such a
    one. -/
inductive Fragment.IsWithin : Fragment → String → Prop where
  | nested {name : Option String} {path : String} {q : Fragment} :
    IsWithin (.mk name (.nested path q)) path
  | not {name : Option String} {path : String} {q : Fragment} (h : IsWithin q path) :
    IsWithin (.mk name (.not q)) path

/-- Documents are nested under the path. -/
def Schema.Nests (s : Schema) (path : String) : Prop :=
  ∃ n, Tree.at? (Text.split '.' path) s.mapping = some n ∧ n.property.type = .nested

/-- The mapping provides all weighted properties, with the analyzer that is asked for if one is. -/
def Schema.OffersAll (s : Schema) (r : WeightRequest) (w : Weights) : Prop :=
  ∀ e ∈ w.entries,
    ∃ a, s.Offers a e.1 ∧ ∀ name, r.analyzer = some name → Analyzer.ofName name = .ok a

/-- The mapping of a schema provides what its fields are asked for, and all that searches and
    conditions on fields ask for; conditions on fields in nested documents are about these. -/
structure Schema.Agrees (s : Schema) : Prop where
  provided : ∀ f ∈ s.fields, f.type.isContainer = false →
    ∃ n, Tree.at? (Text.split '.' f.name) s.mapping = some n ∧
      ∀ a p, f.property? a = some p ↔ n.Provides f.name a p
  nested : ∀ f ∈ s.fields, ∀ path ∈ f.nestedPath, s.Nests path
  weighted : ∀ r w, s.weights r = .ok w → s.OffersAll r w
  tested : ∀ (t : Translator) c f q, t.schema = some s → s.field? c.code = some f →
    t.standard c = .ok q →
      (∀ words p, q.LooksAt words p → s.Offers (if words then f.analyzer else .untouched) p) ∧
        (∀ path, q.Enters path → s.Nests path) ∧ ∀ path ∈ f.nestedPath, q.IsWithin path

section
variable {d : Declarations} (h : d.Separate)
include h

theorem Declarations.Separate.offers_field {f : Field} (hf : f ∈ assemble d.fields) {a : Analyzer}
    {p : String} (hp : f.property? a = some p) : d.schema.Offers a p := by
  cases hcontainer : f.type.isContainer with
  | false => exact ⟨f.name, _, h.at?_value hf hcontainer, (d.provides_node f a p).1 hp⟩
  | true =>
    obtain ⟨n, hn, hn'⟩ := h.at?_container hf hcontainer
    refine ⟨f.name, n, hn, Or.inl ?_⟩
    have hnotext : ∀ {type : FieldType}, type.isContainer = true → type ≠ .text := by
      intro type
      cases type <;> decide
    have htext : f.isText = false := beq_eq_false_iff_ne.2 (hnotext hcontainer)
    rw [Node.IsMain, if_neg (hnotext hn')]
    exact (Field.property?_of_value htext).1 hp

theorem Declarations.Separate.offers_composite {c : Composite} (hc : c ∈ d.composites)
    {a : Analyzer} {p : String} (hp : c.property? a = some p) : d.schema.Offers a p := by
  have hanalyzed : (Node.leaf (.analyzed c.analyzers)).IsAnalyzed c.analyzers := ⟨rfl, rfl, rfl⟩
  exact ⟨c.name, _, h.at?_composite hc, hanalyzed.provides hp⟩

/-- What is weighted is a property of a field or of the cross-field. -/
theorem Declarations.Separate.offers_weights {r : WeightRequest} {w : Weights}
    (hw : d.schema.weights r = .ok w) : d.schema.OffersAll r w := by
  rintro ⟨p, x⟩ he
  cases Schema.weights_eq_iff.1 hw with
  | @weights wanted default _ hwanted hdefault hweighs =>
    have hname : ∀ (other : Analyzer) name, r.analyzer = some name →
        Analyzer.ofName name = .ok (wanted.getD other) := by
      intro other name hname
      obtain ⟨a, rfl, rfl⟩ := Option.map_eq_some_iff.1 (hwanted.symm.trans hname)
      exact Analyzer.ofName_name a
    cases (hweighs p x).1 ((Keyed.mem_iff_lookup w.sorted).1 he) with
    | field hf => exact ⟨_, h.offers_field hf.mem hf.1.2, hname _⟩
    | default hp =>
      subst hp
      cases hdefault with
      | some _ hc hp => exact ⟨_, h.offers_composite (List.mem_of_find?_eq_some hc) hp, hname _⟩

end

/-! ## Conditions -/

namespace Fragment

theorem looksAt_negateIf {q : Fragment} {negated words : Bool} {p : String} :
    (q.negateIf negated).LooksAt words p ↔ q.LooksAt words p := by
  cases negated with
  | false => rfl
  | true =>
    constructor
    · rintro (_ | _ | _ | _ | _ | h)
      exact h
    · exact .not

theorem enters_negateIf {q : Fragment} {negated : Bool} {path : String} :
    (q.negateIf negated).Enters path ↔ q.Enters path := by
  cases negated with
  | false => rfl
  | true =>
    constructor
    · rintro (_ | _ | h)
      exact h
    · exact .not

theorem isWithin_negateIf {q : Fragment} {negated : Bool} {path : String} (h : q.IsWithin path) :
    (q.negateIf negated).IsWithin path := by
  cases negated with
  | false => exact h
  | true => exact .not h

theorem looksAt_within {path : Option String} {q : Fragment} {words : Bool} {p : String} :
    (Translator.within path q).LooksAt words p ↔ q.LooksAt words p := by
  cases path with
  | none => rfl
  | some path =>
    constructor
    · rintro (_ | _ | _ | _ | h | _)
      exact h
    · exact .nested

theorem enters_within {path : Option String} {q : Fragment} {inner : String}
    (h : (Translator.within path q).Enters inner) : path = some inner ∨ q.Enters inner := by
  cases path with
  | none => exact Or.inr h
  | some path =>
    rcases h with _ | h | _
    · exact Or.inl rfl
    · exact Or.inr h

end Fragment

/-- A condition looks at one property, and into no nested documents. -/
def Fragment.Asks (q : Fragment) (words : Bool) (p : String) : Prop :=
  (∀ w p', q.LooksAt w p' → w = words ∧ p' = p) ∧ ∀ path, ¬ q.Enters path

namespace Translator

theorem asks_oneOf (field : String) (values : List Scalar) :
    (oneOf field values).Asks false field := by
  unfold oneOf
  split
  · exact ⟨fun _ _ h => by cases h; exact ⟨rfl, rfl⟩, fun _ h => nomatch h⟩
  · exact ⟨fun _ _ h => by cases h; exact ⟨rfl, rfl⟩, fun _ h => nomatch h⟩

theorem asks_rangeOf {c : Condition} {field : String} {q : Fragment}
    (hq : rangeOf c field = .ok q) : q.Asks false field := by
  unfold rangeOf at hq
  split at hq
  · cases hq
  · split at hq
    · cases hq
    · obtain rfl := Except.ok.inj hq
      exact ⟨fun _ _ h => by cases h; exact ⟨rfl, rfl⟩, fun _ h => nomatch h⟩

theorem asks_words (field text : String) : (Fragment.words field text none).Asks true field :=
  ⟨fun _ _ h => by cases h; exact ⟨rfl, rfl⟩, fun _ h => nomatch h⟩

/-- A condition on a field looks for words in a text, or at the values as they are. -/
theorem asks_plainCondition {t : Translator} {c : Condition} {f : Field} {q : Fragment}
    (hf : t.field? c.code = some f) (hq : t.plainCondition c = .ok q) :
    (f.isText = true ∧ q.Asks true c.code) ∨ q.Asks false f.filterProperty := by
  have hproperty : t.property c.code = f.filterProperty := by rw [property, hf]
  have htext : t.isText c.code = f.isText := by rw [isText, hf]; rfl
  unfold plainCondition at hq
  rw [hproperty, htext] at hq
  split at hq
  · split at hq
    · rename_i htext
      obtain rfl := Except.ok.inj hq
      exact Or.inl ⟨htext, asks_words _ _⟩
    · obtain rfl := Except.ok.inj hq
      exact Or.inr (asks_oneOf _ _)
  · obtain rfl := Except.ok.inj hq
    exact Or.inr (asks_oneOf _ _)
  · obtain rfl := Except.ok.inj hq
    exact Or.inr (asks_oneOf _ _)
  · exact Or.inr (asks_rangeOf hq)

end Translator

theorem Declarations.Separate.offers_standard {d : Declarations} (h : d.Separate)
    {t : Translator} {c : Condition} {f : Field}
    {q : Fragment} (ht : t.schema = some d.schema) (hf : d.schema.field? c.code = some f)
    (hq : t.standard c = .ok q) :
    (∀ words p, q.LooksAt words p →
        d.schema.Offers (if words then f.analyzer else .untouched) p) ∧
      (∀ path, q.Enters path → d.schema.Nests path) ∧ ∀ path ∈ f.nestedPath, q.IsWithin path := by
  have hfield : t.field? c.code = some f := by rw [Translator.field?, ht]; exact hf
  have ⟨hmem, hname⟩ := (Schema.field?_eq_some d.indexed_schema).1 hf
  unfold Translator.standard at hq
  obtain ⟨plain, hplain, hq⟩ := Failure.bind_eq_ok.1 hq
  obtain rfl := Failure.pure_eq_ok.1 hq
  simp only [Fragment.looksAt_negateIf, Fragment.enters_negateIf, Fragment.looksAt_within, hfield,
    Option.bind_some]
  have hnests : (∀ path, ¬ plain.Enters path) →
      ∀ path, (Translator.within f.nestedPath plain).Enters path → d.schema.Nests path := by
    intro henters path hpath
    exact Declarations.at?_nestedPath hmem
      ((Fragment.enters_within hpath).resolve_right (henters path))
  have hwithin : ∀ path ∈ f.nestedPath,
      ((Translator.within f.nestedPath plain).negateIf c.op.isNegated).IsWithin path := by
    intro path hpath
    rw [Option.mem_def.1 hpath]
    exact Fragment.isWithin_negateIf .nested
  rcases Translator.asks_plainCondition hfield hplain with
    ⟨htext, hlooks, henters⟩ | ⟨hlooks, henters⟩
  · refine ⟨fun words p hp => ?_, hnests henters, hwithin⟩
    obtain ⟨rfl, rfl⟩ := hlooks words p hp
    exact h.offers_field hmem (hname ▸ f.property?_analyzer htext)
  · refine ⟨fun words p hp => ?_, hnests henters, hwithin⟩
    obtain ⟨rfl, rfl⟩ := hlooks words p hp
    exact h.offers_field hmem f.property?_untouched

/-- The queries of a schema with separate names ask for properties of its mapping. -/
theorem Declarations.compile_agrees (d : Declarations) (s : Schema) (hs : d.compile = .ok s)
    (h : d.Separate) : s.Agrees := by
  obtain rfl := d.compile_eq_ok hs
  constructor
  · intro f hf hvalue
    exact ⟨_, h.at?_value hf hvalue, d.provides_node f⟩
  · intro f hf path hpath
    exact at?_nestedPath hf hpath
  · intro r w hw
    exact h.offers_weights hw
  · intro t c f q ht hf hq
    exact h.offers_standard ht hf hq

/-- A searchable text, a number, and a price in the nested documents of offers. -/
theorem Declarations.compile_agrees_offers :
    let d : Declarations := ⟨Composite.standard, "sku", [.plain "sku" .keyword,
      (Field.plain "name" .text).withWeight 2.0, .plain "stock.count" .integer,
      .plain "offers" .nested,
      { Field.plain "offers.price" .double with nestedPath := some "offers" }]⟩
    ∃ s, d.compile = .ok s ∧ s.Agrees := by
  intro d
  have hseparate : d.Separate := ⟨by decide, by decide, by decide, by decide, by decide⟩
  exact ⟨_, rfl, compile_agrees d _ rfl hseparate⟩

end Merchandising

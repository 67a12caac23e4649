/-
  What the property of a value is.

  * `Node.Shows` is a property with nothing inside it, of which all is said: its type, the analyzer of
    its own, the analyzers of the further properties of its values, and what they are copied to;
  * `Field.IndexesAlso` are the further analyzers of a text, and `Declarations.Copies` what a field is
    copied to; so `Node.ShowsField` is the property that a field asks for, by what is declared of it;
  * `shows_node`, `Composite.shows_leaf`: fields and cross-fields are laid out with such properties.
-/
import Mathlib.Data.List.Induction
import Merchandising.Proofs.Schema.Place
import Merchandising.Schema.Basic

namespace Merchandising

/-- A property has nothing inside it; `main` is its own analyzer, each of `others` analyzes a further
    property under its name, and the values are copied to `copies`. -/
structure Node.Shows (n : Node) (type : FieldType) (main : Option Analyzer)
    (others : Analyzer → Prop) (copies : String → Prop) : Prop where
  leaf : n.children = []
  ofType : n.property.type = type
  analyzed : n.property.analyzer = main
  subs : ∀ {k s}, (k, s) ∈ n.property.subs ↔
    ∃ a, others a ∧ k = a.name ∧ s = if a = .untouched then ⟨.keyword, none⟩ else ⟨.text, some a⟩
  sorted : Keyed.Sorted n.property.subs
  copied : ∀ {name}, name ∈ n.property.copyTo ↔ copies name
  inOrder : n.property.copyTo.Sublist ["search", "spelling"]

/-- How a text is analyzed besides its own way: it is always left as it is as well, and further ways
    depend on what it is used for. -/
inductive Field.IndexesAlso (f : Field) : Analyzer → Prop where
  | untouched : IndexesAlso f .untouched
  | whitespace (h : f.searchable = true) : IndexesAlso f .whitespace
  | shingle (h : f.spellcheck = true) : IndexesAlso f .shingle
  | sortable (h : f.sortable = true) : IndexesAlso f .sortable

/-- A field is copied to the cross-field of a name: what is searched to the one for that, and what is
    used to check spelling to the one for that, if there are such cross-fields. -/
def Declarations.Copies (d : Declarations) (f : Field) (name : String) : Prop :=
  (∃ c ∈ d.composites, c.name = name) ∧
    (name = "search" ∧ f.searchable = true ∨ name = "spelling" ∧ f.spellcheck = true)

/-- A property shows a field of the declarations. -/
def Node.ShowsField (n : Node) (d : Declarations) (f : Field) : Prop :=
  n.Shows f.type (if f.type = .text then some f.analyzer else none)
    (fun a => f.type = .text ∧ f.IndexesAlso a ∧ a ≠ f.analyzer) (d.Copies f)

/-- A property shows a cross-field, whose first analyzer is its own one; it is copied nowhere. -/
def Node.ShowsComposite (n : Node) (c : Composite) : Prop :=
  n.Shows .text c.analyzers.head? (· ∈ c.analyzers.tail) fun _ => False

/-! ## Further properties -/

theorem Analyzer.name_injective : Function.Injective Analyzer.name := by
  intro a b
  cases a <;> cases b <;> decide

namespace Property

theorem sorted_subs (analyzers : List Analyzer) : Keyed.Sorted (analyzed analyzers).subs := by
  simp only [analyzed]
  induction analyzers.tail using List.reverseRecOn with
  | nil => exact List.Pairwise.nil
  | append_singleton as a ih =>
    rw [List.foldl_append, List.foldl_cons, List.foldl_nil]
    exact Keyed.sorted_put _ _ ih

/-- There is a further property for each analyzer behind the first one, under its name. -/
theorem mem_subs {analyzers : List Analyzer} {k : String} {s : SubProperty} :
    (k, s) ∈ (analyzed analyzers).subs ↔ ∃ a ∈ analyzers.tail, k = a.name ∧ s = sub a := by
  rw [Keyed.mem_iff_lookup (sorted_subs analyzers)]
  simp only [analyzed]
  induction analyzers.tail using List.reverseRecOn with
  | nil => simp
  | append_singleton as a ih =>
    rw [List.foldl_append, List.foldl_cons, List.foldl_nil, Keyed.lookup_put]
    by_cases hk : k = a.name
    · -- an earlier property under this name was the same one
      rw [if_pos hk, Option.some.injEq, eq_comm]
      constructor
      · rintro rfl
        exact ⟨a, List.mem_concat_self, hk, rfl⟩
      · rintro ⟨b, -, hb, rfl⟩
        rw [Analyzer.name_injective (hk.symm.trans hb)]
    · rw [if_neg hk, ih]
      simp [or_and_right, exists_or, hk]

theorem type_ofField (f : Field) (copyTo : List String) : (ofField f copyTo).type = f.type := by
  unfold ofField
  split
  · rename_i htext
    simpa [analyzed, Field.isText] using (eq_of_beq htext).symm
  · rfl

end Property

/-! ## Fields and cross-fields -/

namespace Field

theorem mem_extraAnalyzers {f : Field} {a : Analyzer} :
    a ∈ f.extraAnalyzers ↔ f.IndexesAlso a := by
  constructor
  · intro h
    simp only [extraAnalyzers, List.mem_cons, List.mem_append, List.mem_ite_nil_right,
      List.not_mem_nil, or_false] at h
    rcases h with rfl | (⟨h, rfl⟩ | ⟨h, rfl⟩) | ⟨h, rfl⟩
    · exact .untouched
    · exact .whitespace h
    · exact .shingle h
    · exact .sortable h
  · rintro (_ | h | h | h)
    · exact List.mem_cons_self
    · simp [extraAnalyzers, h]
    · simp [extraAnalyzers, h]
    · simp [extraAnalyzers, h]

theorem mem_tail_analyzers {f : Field} {a : Analyzer} :
    a ∈ f.analyzers.tail ↔ f.type = .text ∧ f.IndexesAlso a ∧ a ≠ f.analyzer := by
  unfold analyzers
  by_cases htext : f.type = .text
  · have hisText : f.isText = true := beq_iff_eq.2 htext
    rw [if_pos hisText, List.tail_cons, List.mem_filter, decide_eq_true_eq, mem_extraAnalyzers,
      and_iff_right htext]
  · have hnotText : ¬ f.isText = true := fun h => htext (eq_of_beq h)
    rw [if_neg hnotText]
    exact iff_of_false List.not_mem_nil fun h => htext h.1

end Field

namespace Declarations

variable (d : Declarations) (f : Field)

theorem mem_copyTo {name : String} : name ∈ d.copyTo f ↔ d.Copies f name := by
  have hpart : ∀ (b : Bool) (s : String),
      name ∈ (if b && d.hasComposite s then [s] else []) ↔
        (∃ c ∈ d.composites, c.name = name) ∧ (name = s ∧ b = true) := by
    intro b s
    have hcomposite : d.hasComposite s = true ↔ ∃ c ∈ d.composites, c.name = s := by
      simp [hasComposite]
    rw [List.mem_ite_nil_right, List.mem_singleton, Bool.and_eq_true, hcomposite]
    constructor
    · rintro ⟨⟨hb, hc⟩, rfl⟩
      exact ⟨hc, rfl, hb⟩
    · rintro ⟨hc, rfl, hb⟩
      exact ⟨⟨hb, hc⟩, rfl⟩
  rw [copyTo, List.mem_append, hpart, hpart, ← and_or_left]
  rfl

theorem copyTo_sublist : (d.copyTo f).Sublist ["search", "spelling"] := by
  have hpart : ∀ (p : Prop) [Decidable p] (s : String), (if p then [s] else []).Sublist [s] := by
    intro p _ s
    split
    · exact List.Sublist.refl _
    · exact List.nil_sublist _
  exact (hpart _ _).append (hpart _ _)

/-- A field is laid out with a property that shows it. -/
theorem shows_node : (d.node f).ShowsField d f where
  leaf := rfl
  ofType := Property.type_ofField f _
  analyzed := by
    show (Property.ofField f (d.copyTo f)).analyzer = _
    by_cases htext : f.type = .text
    · simp [Property.ofField, Property.analyzed, Field.isText, Field.analyzers, htext]
    · simp [Property.ofField, Property.ofType, Field.isText, htext]
  subs := by
    intro k s
    have hsubs : (k, s) ∈ (d.node f).property.subs ↔
        ∃ a ∈ f.analyzers.tail, k = a.name ∧ s = Property.sub a := by
      show (k, s) ∈ (Property.ofField f (d.copyTo f)).subs ↔ _
      unfold Property.ofField
      split
      · exact Property.mem_subs
      · rename_i htext
        simp [Property.ofType, Field.analyzers, htext]
    simp only [hsubs, Field.mem_tail_analyzers]
    rfl
  sorted := by
    show Keyed.Sorted (Property.ofField f (d.copyTo f)).subs
    unfold Property.ofField
    split
    · exact Property.sorted_subs _
    · exact List.Pairwise.nil
  copied := d.mem_copyTo f
  inOrder := d.copyTo_sublist f

end Declarations

/-- A cross-field is laid out with a property that shows it. -/
theorem Composite.shows_leaf (c : Composite) :
    (Node.leaf (.analyzed c.analyzers)).ShowsComposite c where
  leaf := rfl
  ofType := rfl
  analyzed := rfl
  subs := Property.mem_subs
  sorted := Property.sorted_subs _
  copied := List.mem_nil_iff _
  inOrder := List.nil_sublist _

end Merchandising

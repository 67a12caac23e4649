/-
  A negated operator negates what the positive one says.

  * `Operator.Opposite` are the pairs of an operator and the one that negates it;
  * `Failure.SameKind` are failures of one kind on one attribute;
  * `Opposes` is a result that negates another one: it fails as that one does, or succeeds with the
    negation;
  * each policy opposes its results (`opposes_standard` and its siblings), though it negates by a way
    of its own;
  * `negated_exactly`: so does every attribute.
-/
import Merchandising.Rule.Translator

namespace Merchandising

/-- An operator, and the operator that negates it. -/
inductive Operator.Opposite : Operator → Operator → Prop where
  | equal : Opposite .equal .notEqual
  | contains : Opposite .contains .notContains
  | oneOf : Opposite .oneOf .notOneOf

/-- Failures of one kind on one attribute; the operators that are unsupported may differ. -/
inductive Failure.SameKind : Failure → Failure → Prop where
  | refl (e : Failure) : SameKind e e
  | unsupported (code op op' : String) :
    SameKind (.unsupportedOperator code op) (.unsupportedOperator code op')

namespace Translator

/-- A result that negates another one. -/
def Opposes (pos neg : Except Failure Fragment) : Prop :=
  match pos with
  | .ok f => neg = .ok f.negate
  | .error e => ∃ e', neg = .error e' ∧ e.SameKind e'

section
variable {pos neg : Operator} (h : pos.Opposite neg) (code : String) (o : Operand)
include h

/-- What is found in one way for both is opposed if it is negated as the operators say. -/
theorem opposes_bind (x : Except Failure Fragment) (g : Fragment → Fragment) :
    Opposes (x >>= fun f => pure ((g f).negateIf pos.isNegated))
      (x >>= fun f => pure ((g f).negateIf neg.isNegated)) := by
  cases x with
  | error e => exact ⟨e, rfl, .refl e⟩
  | ok f => cases h <;> rfl

omit h in
theorem opposes_unsupported :
    Opposes (.error (unsupported ⟨code, pos, o⟩)) (.error (unsupported ⟨code, neg, o⟩)) :=
  ⟨_, rfl, .unsupported code pos.symbol neg.symbol⟩

/-- An operator asks for values iff its opposite does. -/
theorem asksForValues_opposite : asksForValues neg = asksForValues pos := by
  cases h <;> rfl

theorem opposes_standard (t : Translator) :
    Opposes (t.standard ⟨code, pos, o⟩) (t.standard ⟨code, neg, o⟩) := by
  have hplain : t.plainCondition ⟨code, neg, o⟩ = t.plainCondition ⟨code, pos, o⟩ := by
    cases h <;> rfl
  rw [standard, standard, hplain]
  exact opposes_bind h _ _

theorem opposes_boolean (field : String) :
    Opposes (boolean ⟨code, pos, o⟩ field) (boolean ⟨code, neg, o⟩ field) := by
  rw [boolean, boolean, asksForValues_opposite h]
  split
  · exact opposes_bind h (.ok (.term field (.bool o.isTruthy))) id
  · exact opposes_unsupported code o

theorem opposes_categorical (field : String) :
    Opposes (categorical ⟨code, pos, o⟩ field) (categorical ⟨code, neg, o⟩ field) := by
  rw [categorical, categorical, asksForValues_opposite h]
  split
  · exact opposes_bind h (.ok (oneOf field (o.values true))) id
  · exact opposes_unsupported code o

/-- The condition inside the nested document of a group is not negated itself. -/
theorem groupTarget_opposite (field : String) (isBoolean : Bool) :
    groupTarget ⟨code, neg, o⟩ field isBoolean = groupTarget ⟨code, pos, o⟩ field isBoolean ∨
      groupTarget ⟨code, pos, o⟩ field isBoolean = .error (unsupported ⟨code, pos, o⟩) ∧
      groupTarget ⟨code, neg, o⟩ field isBoolean = .error (unsupported ⟨code, neg, o⟩) := by
  cases h with
  | equal => exact Or.inl rfl
  | contains => exact Or.inr ⟨rfl, rfl⟩
  | oneOf => exact Or.inl rfl

theorem opposes_perGroup (ctx : Context) (path scopeField field : String) (isBoolean : Bool) :
    Opposes (perGroup ⟨code, pos, o⟩ ctx path scopeField field isBoolean)
      (perGroup ⟨code, neg, o⟩ ctx path scopeField field isBoolean) := by
  rcases groupTarget_opposite h code o field isBoolean with htarget | ⟨hpos, hneg⟩
  · rw [perGroup, perGroup, htarget]
    exact opposes_bind h _ _
  · rw [perGroup, perGroup, hpos, hneg]
    exact opposes_unsupported code o

/-- Dates have bounds for an operator and its opposite only if these compare for equality, and then
    the same ones. -/
theorem dateBounds?_opposite (ref next : Day) :
    pos = .equal ∧ dateBounds? neg ref next = dateBounds? pos ref next ∨
      dateBounds? pos ref next = none ∧ dateBounds? neg ref next = none := by
  cases h with
  | equal => exact Or.inl ⟨rfl, rfl⟩
  | contains => exact Or.inr ⟨rfl, rfl⟩
  | oneOf => exact Or.inr ⟨rfl, rfl⟩

/-- Dates test for one operator instead of the mark of negation, which is as good: the others are
    not supported. -/
theorem opposes_relativeDate (t : Translator) (field : String) :
    Opposes (t.relativeDate ⟨code, pos, o⟩ field) (t.relativeDate ⟨code, neg, o⟩ field) := by
  unfold relativeDate
  cases o.single?.bind Scalar.int64? with
  | none => exact ⟨_, rfl, .refl _⟩
  | some days =>
    dsimp only
    cases referenceDays? t.today days.toInt with
    | none => exact ⟨_, rfl, .refl _⟩
    | some days =>
      obtain ⟨ref, next⟩ := days
      dsimp only
      rcases dateBounds?_opposite h ref next with ⟨rfl, hbounds⟩ | ⟨hpos, hneg⟩
      · cases h
        rfl
      · rw [hpos, hneg]
        exact opposes_unsupported code o

theorem opposes_search (t : Translator) :
    Opposes (t.search ⟨code, pos, o⟩) (t.search ⟨code, neg, o⟩) :=
  opposes_bind h (t.builder o.plain (t.spelling o.plain)) id

/-- The condition of an attribute with one operator is opposed with the other one. -/
theorem opposes_condition (t : Translator) (ctx : Context) :
    Opposes (t.condition ctx ⟨code, pos, o⟩) (t.condition ctx ⟨code, neg, o⟩) := by
  unfold condition
  dsimp only
  cases t.registry.get? code with
  | none => exact opposes_standard h code o t
  | some policy =>
    cases policy with
    | boolean field => exact opposes_boolean h code o field
    | terms field => exact opposes_categorical h code o field
    | perGroup path scopeField field isBoolean =>
      exact opposes_perGroup h code o ctx path scopeField field isBoolean
    | date field => exact opposes_relativeDate h code o t field
    | fulltext => exact opposes_search h code o t

end

/-- **A negated operator is exactly the negation of the positive one.**  It is translated iff that one
    is, and then to the negation of the whole of it, without a label; where both fail, their
    failures are of one kind. -/
theorem negated_exactly (t : Translator) (ctx : Context) (code : String) (o : Operand)
    {pos neg : Operator} (h : pos.Opposite neg) :
    (∀ g, t.condition ctx ⟨code, neg, o⟩ = .ok g ↔
      ∃ f, t.condition ctx ⟨code, pos, o⟩ = .ok f ∧ g = .mk none (.not f)) ∧
    (∀ e e', t.condition ctx ⟨code, pos, o⟩ = .error e →
      t.condition ctx ⟨code, neg, o⟩ = .error e' → e.SameKind e') := by
  have hopposes := opposes_condition h code o t ctx
  cases hpos : t.condition ctx ⟨code, pos, o⟩ with
  | ok f =>
    rw [hpos] at hopposes
    have hneg : t.condition ctx ⟨code, neg, o⟩ = .ok f.negate := hopposes
    rw [hneg]
    refine ⟨fun g => ⟨?_, ?_⟩, ?_⟩
    · rintro ⟨⟩
      exact ⟨f, rfl, rfl⟩
    · rintro ⟨f', ⟨⟩, rfl⟩
      rfl
    · rintro e e' ⟨⟩
  | error e =>
    rw [hpos] at hopposes
    obtain ⟨e₁, hneg, hkind⟩ := hopposes
    rw [hneg]
    refine ⟨fun g => ⟨?_, ?_⟩, ?_⟩
    · rintro ⟨⟩
    · rintro ⟨f, ⟨⟩, -⟩
    · rintro e₂ e₃ ⟨⟩ ⟨⟩
      exact hkind

/-- The price of a group of customers: the documents of which none is for the group and at that
    price. -/
theorem negated_exactly_price :
    let t : Translator := ⟨.standard, none, none, fun _ => .exact, 0⟩
    let price (op : Operator) : Condition := ⟨"price.final_price", op, .single (.int 50)⟩
    ∃ inner, t.condition ⟨1, 2⟩ (price .equal) = .ok (.nested "price" inner) ∧
      t.condition ⟨1, 2⟩ (price .notEqual) = .ok (.mk none (.not (.nested "price" inner))) := by
  intro t price
  exact ⟨_, rfl, ((negated_exactly t ⟨1, 2⟩ "price.final_price" (.single (.int 50)) .equal).1 _).2
    ⟨_, rfl, rfl⟩⟩

end Translator

end Merchandising

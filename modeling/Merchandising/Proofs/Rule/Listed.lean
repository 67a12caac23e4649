/-
  To be one of some values is to equal one of them.

  * `Policy.testsValues` are the policies of attributes with values, `Policy.testsTruth` those that
    take the operand as a truth value;
  * `ReadsLists` is a reading of documents that takes a test for several values as one for some of
    them, and a nested condition as one on some document inside;
  * `Translator.tested` are the values that the field of an attribute is tested for;
    `mem_tested_list`: for a list, what it is tested for with each of its values;
  * `condition_values`: such a condition is translated to one test of this field, inside what
    `LooksFor` a document;
  * `oneOf_iff_some_equal`: being one of some values is equalling one of them, and the values may be
    listed in one text, but for attributes that test for a truth value.
-/
import Merchandising.Proofs.Rule.Meaning
import Merchandising.Proofs.Rule.Negation
import Merchandising.Proofs.Text.Listing

namespace Merchandising

/-- The attributes that are tested for values: neither dates nor full text. -/
def Policy.testsValues : Policy → Bool
  | boolean _ | terms _ | perGroup .. => true
  | date _ | fulltext => false

/-- The attributes that are tested for the truth value of the operand. -/
def Policy.testsTruth : Policy → Bool
  | boolean _ => true
  | perGroup _ _ _ isBoolean => isBoolean
  | terms _ | date _ | fulltext => false

/-- A value that may stand in a list that is written as a text. -/
def Scalar.Listable : Scalar → Prop
  | .text s => Text.Name s
  | .bool _ | .int _ | .float _ => True

/-- A reading of documents that takes a test for several values as one for some of them, and a
    nested condition as one on some document that is inside under the path. -/
structure ReadsLists {Doc : Type} (I : Interpretation Doc) (inside : String → Doc → Doc → Prop) :
    Prop where
  terms : ∀ field vs d, I (.terms field vs) d = true ↔ ∃ v ∈ vs, I (.term field v) d = true
  nested : ∀ path f d, I (.nested path f) d = true ↔ ∃ e, inside path d e ∧ f.holds I e = true

namespace Translator

/-! ## What a field is tested for -/

section
variable (t : Translator) (code : String)

/-- Whether an attribute is tested for the truth value of the operand. -/
def testsTruth : Bool := (t.registry.get? code).any Policy.testsTruth

/-- The values that the field of an attribute is tested for, by an operator that splits texts or one
    that does not. -/
def tested (split : Bool) (o : Operand) : List Scalar :=
  if t.testsTruth code then [.bool o.isTruthy] else o.values split

end

theorem values_single {v : Scalar} (hv : v.Listable) (split : Bool) :
    (Operand.single v).values split = [v] := by
  cases v with
  | text s =>
    have hs : Operand.splitText s = [s] := Operand.splitText_name hv
    cases split <;> simp [Operand.values, hs]
  | bool | int | float => rfl

section
variable {t : Translator} {code : String}

/-- A field is tested with a list for what it is tested for with each of its values.  A list that
    does not have exactly one value is false as a truth value, so that none of its values may be
    true if that is tested for. -/
theorem mem_tested_list {vs : List Scalar} (hvs : ∀ v ∈ vs, v.Listable)
    (htruth : t.testsTruth code = true →
      vs.length = 1 ∨ vs ≠ [] ∧ ∀ v ∈ vs, v.isTruthy = false) (split : Bool) (w : Scalar) :
    w ∈ t.tested code true (.list vs) ↔ ∃ v ∈ vs, w ∈ t.tested code split (.single v) := by
  cases ht : t.testsTruth code with
  | false =>
    simp only [tested, ht, Bool.false_eq_true, if_false]
    constructor
    · intro hw
      exact ⟨w, hw, by rw [values_single (hvs w hw)]; exact List.mem_singleton_self w⟩
    · rintro ⟨v, hv, hw⟩
      rw [values_single (hvs v hv), List.mem_singleton] at hw
      rw [hw]
      exact hv
  | true =>
    simp only [tested, ht, if_true, List.mem_singleton]
    rcases htruth ht with hone | ⟨hne, hfalse⟩
    · obtain ⟨v, rfl⟩ := List.length_eq_one_iff.1 hone
      simp [Operand.isTruthy, Operand.single?]
    · have hlist : (Operand.list vs).isTruthy = false := by
        match vs, hfalse with
        | [], _ => rfl
        | [v], hfalse => exact hfalse v (List.mem_singleton_self v)
        | _ :: _ :: _, _ => rfl
      obtain ⟨v₀, hv₀⟩ := List.exists_mem_of_ne_nil vs hne
      rw [hlist]
      constructor
      · rintro rfl
        exact ⟨v₀, hv₀, congrArg Scalar.bool (hfalse v₀ hv₀).symm⟩
      · rintro ⟨v, hv, rfl⟩
        exact congrArg Scalar.bool (hfalse v hv)

/-- A field is tested with a text for what it is tested for with the list of the names in it.  As a
    truth value a text with commas is true, and the list only if it has one name that is true. -/
theorem tested_listing {names : List String} {s : String} (h : Text.Listing names s)
    (htruth : t.testsTruth code = true →
      ',' ∉ s.toList ∨ ∃ name, names = [name] ∧ (Scalar.text name).isTruthy = true) :
    t.tested code true (.single (.text s)) = t.tested code true (.list (names.map .text)) := by
  cases ht : t.testsTruth code with
  | false =>
    simp only [tested, ht, Bool.false_eq_true, if_false, Operand.values, if_true]
    rw [Operand.splitText_listing h]
  | true =>
    simp only [tested, ht, if_true]
    by_cases hcomma : ',' ∈ s.toList
    · obtain ⟨name, rfl, hname⟩ := (htruth ht).resolve_left fun hs => hs hcomma
      have hs : (Operand.single (.text s)).isTruthy = true := Scalar.isTruthy_of_comma hcomma
      have hlist : (Operand.list ([name].map .text)).isTruthy = true := hname
      rw [hs, hlist]
    · rw [Operand.isTruthy_listing h hcomma]

end

/-! ## Where it is tested -/

/-- What is put around a fragment looks for a document that the fragment holds of. -/
def LooksFor (wrap : Fragment → Fragment) : Prop :=
  ∀ ⦃Doc : Type⦄ ⦃I : Interpretation Doc⦄ ⦃inside : String → Doc → Doc → Prop⦄,
    ReadsLists I inside → ∃ seen : Doc → Doc → Prop,
      ∀ f d, (wrap f).holds I d = true ↔ ∃ e, seen d e ∧ f.holds I e = true

theorem looksFor_id : LooksFor id :=
  fun _ _ _ _ => ⟨Eq, fun _ _ => by simp⟩

theorem looksFor_nested (path : String) : LooksFor (Fragment.nested path) :=
  fun _ _ inside hI => ⟨inside path, hI.nested path⟩

theorem looksFor_within (path : Option String) : LooksFor (within path) := by
  cases path with
  | none => exact looksFor_id
  | some path => exact looksFor_nested path

/-- The document of a customer group, among those nested under a path. -/
theorem looksFor_scoped (path : String) (scope : Fragment) :
    LooksFor fun f => .nested path (.all [scope, f]) := by
  intro Doc I inside hI
  refine ⟨fun d e => inside path d e ∧ scope.holds I e = true, fun f d => ?_⟩
  have hall (e : Doc) : (Fragment.all [scope, f]).holds I e = true ↔
      scope.holds I e = true ∧ f.holds I e = true := by
    simp [Fragment.holds_all]
  refine (hI.nested path _ d).trans (exists_congr fun e => ?_)
  rw [hall, and_assoc]

theorem holds_oneOf {Doc : Type} {I : Interpretation Doc} {inside : String → Doc → Doc → Prop}
    (hI : ReadsLists I inside) (field : String) (vs : List Scalar) (d : Doc) :
    (oneOf field vs).holds I d = true ↔ ∃ v ∈ vs, I (.term field v) d = true := by
  match vs with
  | [] => exact hI.terms field [] d
  | [v] =>
    simp only [List.mem_singleton, exists_eq_left]
    rfl
  | v :: v' :: vs => exact hI.terms field (v :: v' :: vs) d

section
variable {t : Translator} {code : String}

/-- To be one of some values, and to equal one, is to have what is tested for in one field, which is
    looked for in one way. -/
theorem condition_values (hvalues : ∀ policy ∈ t.registry.get? code, policy.testsValues = true)
    (ctx : Context) :
    ∃ wrap field split, LooksFor wrap ∧
      (∀ o, t.condition ctx ⟨code, .oneOf, o⟩ =
        .ok (wrap (oneOf field (t.tested code true o)))) ∧
      (∀ o, t.condition ctx ⟨code, .equal, o⟩ =
        .ok (wrap (oneOf field (t.tested code split o)))) := by
  unfold tested testsTruth condition
  dsimp only
  cases hpolicy : t.registry.get? code with
  | none =>
    exact ⟨_, t.property code, false, looksFor_within ((t.field? code).bind Field.nestedPath),
      fun o => rfl, fun o => rfl⟩
  | some policy =>
    have hvalues := hvalues policy hpolicy
    cases policy with
    | boolean field => exact ⟨id, field, true, looksFor_id, fun o => rfl, fun o => rfl⟩
    | terms field => exact ⟨id, field, true, looksFor_id, fun o => rfl, fun o => rfl⟩
    | perGroup path scopeField field isBoolean =>
      have hwrap := looksFor_scoped path (.term scopeField (.ofWord32 ctx.group))
      cases isBoolean with
      | true => exact ⟨_, field, true, hwrap, fun o => rfl, fun o => rfl⟩
      | false => exact ⟨_, field, true, hwrap, fun o => rfl, fun o => rfl⟩
    | date | fulltext => cases hvalues

end

/-- **To be one of some values is to equal one of them.**  An attribute that is tested for values is
    translated with any list, and with the negated operator to the negation of that.  It matches the
    documents that it matches with one of the values alone.  A text that lists the values, with
    commas between them, is as good as the list.

    An attribute that is tested for a truth value takes the whole operand as one, whatever the
    operator: a list is false then unless it has exactly one value, and a text is not split, so that
    it may be tested for what none of the values is. -/
theorem oneOf_iff_some_equal (t : Translator) (ctx : Context) (code : String)
    (hvalues : ∀ policy ∈ t.registry.get? code, policy.testsValues = true)
    (vs : List Scalar) (hvs : ∀ v ∈ vs, v.Listable) :
    ∃ f, t.condition ctx ⟨code, .oneOf, .list vs⟩ = .ok f ∧
      t.condition ctx ⟨code, .notOneOf, .list vs⟩ = .ok f.negate ∧
      (∀ v ∈ vs, ∃ g, t.condition ctx ⟨code, .equal, .single v⟩ = .ok g) ∧
      (∀ {Doc : Type} (I : Interpretation Doc) (inside : String → Doc → Doc → Prop),
        ReadsLists I inside → ∀ d,
          f.negate.holds I d = !f.holds I d ∧
          ((t.testsTruth code = true → vs.length = 1 ∨ vs ≠ [] ∧ ∀ v ∈ vs, v.isTruthy = false) →
            (f.holds I d = true ↔
              ∃ v ∈ vs, t.leafHolds ctx I d ⟨code, .equal, .single v⟩ = true))) ∧
      (∀ names s, Text.Listing names s → vs = names.map .text →
        (t.testsTruth code = true →
          ',' ∉ s.toList ∨ ∃ name, names = [name] ∧ (Scalar.text name).isTruthy = true) →
        t.condition ctx ⟨code, .oneOf, .single (.text s)⟩ = .ok f ∧
          t.condition ctx ⟨code, .notOneOf, .single (.text s)⟩ = .ok f.negate) ∧
      (t.testsTruth code = true → ∀ o, t.condition ctx ⟨code, .oneOf, o⟩ =
        t.condition ctx ⟨code, .equal, .single (.bool o.isTruthy)⟩) := by
  obtain ⟨wrap, field, split, hwrap, honeOf, hequal⟩ := condition_values hvalues ctx
  -- the negated operator is not translated by `condition_values`, but opposes the positive one
  have hnotOneOf (o : Operand) : t.condition ctx ⟨code, .notOneOf, o⟩ =
      .ok (wrap (oneOf field (t.tested code true o))).negate := by
    have hopposes := opposes_condition Operator.Opposite.oneOf code o t ctx
    rw [honeOf] at hopposes
    exact hopposes
  refine ⟨_, honeOf _, hnotOneOf _, fun v _ => ⟨_, hequal _⟩, ?_, ?_, ?_⟩
  · intro Doc I inside hI d
    refine ⟨Fragment.holds_negate I d _, fun htruth => ?_⟩
    obtain ⟨seen, hseen⟩ := hwrap hI
    have hleaf (v : Scalar) : t.leafHolds ctx I d ⟨code, .equal, .single v⟩ = true ↔
        ∃ e, seen d e ∧ ∃ w ∈ t.tested code split (.single v), I (.term field w) e = true := by
      simp only [leafHolds, hequal, hseen, holds_oneOf hI]
    simp only [hleaf, hseen, holds_oneOf hI, mem_tested_list hvs htruth split]
    -- a document with some value, or some value with a document
    constructor
    · rintro ⟨e, he, w, ⟨v, hv, hw⟩, hterm⟩
      exact ⟨v, hv, e, he, w, hw, hterm⟩
    · rintro ⟨v, hv, e, he, w, hw, hterm⟩
      exact ⟨e, he, w, ⟨v, hv, hw⟩, hterm⟩
  · rintro names s hlisting rfl htruth
    rw [honeOf, hnotOneOf, tested_listing hlisting htruth]
    exact ⟨rfl, rfl⟩
  · intro ht o
    have htested : t.tested code true o = t.tested code split (.single (.bool o.isTruthy)) := by
      simp only [tested, ht, if_true]
      rfl
    rw [honeOf, hequal, htested]

/-- Documents with fields, and others nested under `price`. -/
structure Priced where
  fields : List (String × Scalar)
  prices : List (List (String × Scalar))

/-- A reading of fields. -/
def readsPrice : Interpretation (List (String × Scalar)) := fun q d =>
  match q with
  | .term field v => d.any fun p => p.1 == field && p.2 == v
  | .terms field vs => vs.any fun v => d.any fun p => p.1 == field && p.2 == v
  | _ => false

/-- A reading of fields, and of nested conditions on the documents under `price`. -/
def readsPrices : Interpretation Priced := fun q d =>
  match q with
  | .nested path f => path == "price" && d.prices.any (f.holds readsPrice)
  | q => readsPrice q d.fields

theorem readsLists_readsPrices :
    ReadsLists readsPrices fun path d e => path = "price" ∧ ∃ p ∈ d.prices, e = ⟨p, []⟩ := by
  constructor
  · intro field vs d
    exact List.any_eq_true
  · intro path f d
    have hprice (p : List (String × Scalar)) :
        f.holds readsPrices ⟨p, []⟩ = f.holds readsPrice p := by
      refine Fragment.holds_congr (fun q => ?_) f
      cases q with
      | nested path' inner => exact Bool.and_false _
      | _ => rfl
    constructor
    · intro h
      obtain ⟨hpath, hprices⟩ := Bool.and_eq_true_iff.1 h
      obtain ⟨p, hp, hf⟩ := List.any_eq_true.1 hprices
      exact ⟨⟨p, []⟩, ⟨beq_iff_eq.1 hpath, p, hp, rfl⟩, (hprice p).trans hf⟩
    · rintro ⟨e, ⟨rfl, p, hp, rfl⟩, hf⟩
      exact Bool.and_eq_true_iff.2 ⟨rfl, List.any_eq_true.2 ⟨p, hp, (hprice p).symm.trans hf⟩⟩

/-- The tier of a group of customers, as a list and as a text that lists the same: a golden price is
    for this group in one document, and for another one, besides a bronze one, in the other. -/
theorem oneOf_iff_some_equal_tier :
    let tiers : Registry := .register .empty "tier" (.perGroup "price" "group" "price.tier" false)
    let t : Translator := ⟨tiers, none, none, fun _ => .exact, 0⟩
    let price (group : Int64) (tier : String) : List (String × Scalar) :=
      [("group", .int group), ("price.tier", .text tier)]
    ∃ f, t.condition ⟨1, 2⟩ ⟨"tier", .oneOf, .list [.text "gold", .text "silver"]⟩ = .ok f ∧
      t.condition ⟨1, 2⟩ ⟨"tier", .oneOf, .single (.text " gold ,, silver")⟩ = .ok f ∧
      f.holds readsPrices ⟨[], [price 3 "bronze", price 2 "gold"]⟩ = true ∧
      f.holds readsPrices ⟨[], [price 3 "gold", price 2 "bronze"]⟩ = false := by
  intro tiers t price
  have hgold : Text.Name "gold" := ⟨by decide, by decide, by decide⟩
  have hsilver : Text.Name "silver" := ⟨by decide, by decide, by decide⟩
  have hvalues : ∀ policy ∈ t.registry.get? "tier", policy.testsValues = true := by
    rintro _ ⟨⟩
    rfl
  have hvs : ∀ v ∈ [Scalar.text "gold", .text "silver"], v.Listable :=
    List.forall_mem_cons.2 ⟨hgold, List.forall_mem_singleton.2 hsilver⟩
  obtain ⟨f, hlist, -, -, hholds, htext, -⟩ := oneOf_iff_some_equal t ⟨1, 2⟩ "tier" hvalues _ hvs
  have hplain : t.testsTruth "tier" = false := rfl
  have hlisting : Text.Listing ["gold", "silver"] " gold ,, silver" := by
    have hblank : Text.Blank " " := by
      intro c hc
      obtain rfl := List.mem_singleton.1 hc
      decide
    have hnone : Text.Blank "" := fun c hc => by cases hc
    exact .comma (.comma (.name hblank hgold hblank) (.blank hnone)) (.name hblank hsilver hnone)
  have hiff (d : Priced) : f.holds readsPrices d = true ↔
      ∃ v ∈ [Scalar.text "gold", .text "silver"],
        t.leafHolds ⟨1, 2⟩ readsPrices d ⟨"tier", .equal, .single v⟩ = true := by
    refine (hholds _ _ readsLists_readsPrices d).2 fun h => ?_
    rw [hplain] at h
    cases h
  refine ⟨f, hlist, ?_, ?_, ?_⟩
  · refine (htext _ _ hlisting rfl fun h => ?_).1
    rw [hplain] at h
    cases h
  · exact (hiff _).2 ⟨.text "gold", List.mem_cons_self, rfl⟩
  · have hnone : ∀ v ∈ [Scalar.text "gold", .text "silver"], ¬ t.leafHolds ⟨1, 2⟩ readsPrices
        ⟨[], [price 3 "gold", price 2 "bronze"]⟩ ⟨"tier", .equal, .single v⟩ = true :=
      List.forall_mem_cons.2 ⟨by decide, List.forall_mem_singleton.2 (by decide)⟩
    rw [Bool.eq_false_iff, Ne, hiff]
    rintro ⟨v, hv, hmatch⟩
    exact hnone v hv hmatch

/-- What is in stock is saleable, and so equals both values of a list; it is not one of them. -/
theorem oneOf_truth_values :
    let t : Translator := ⟨.standard, none, none, fun _ => .exact, 0⟩
    let vs : List Scalar := [.bool true, .bool true]
    let inStock : Priced := ⟨[("stock.is_in_stock", .bool true)], []⟩
    t.condition ⟨1, 2⟩ ⟨"is_saleable", .oneOf, .list vs⟩ =
        .ok (.term "stock.is_in_stock" (.bool false)) ∧
      ¬ (t.leafHolds ⟨1, 2⟩ readsPrices inStock ⟨"is_saleable", .oneOf, .list vs⟩ = true ↔
        ∃ v ∈ vs,
          t.leafHolds ⟨1, 2⟩ readsPrices inStock ⟨"is_saleable", .equal, .single v⟩ = true) := by
  intro t vs inStock
  refine ⟨rfl, fun hiff => ?_⟩
  have hmatch := hiff.2 ⟨.bool true, List.mem_cons_self, rfl⟩
  cases hmatch

end Translator

end Merchandising

/-
  What a rule says of documents, and that its query says the same.

  * `Rule.conditions` are the conditions of a rule at any depth, from left to right;
  * `Rule.isTrue` is the truth of a rule, given which of its conditions are true: a rule without
    a condition is left out of the rule around it;
  * `FirstFailure` is the failure of the first condition that is not translated;
  * `rule_meaning`: a rule is translated unless one of its conditions is not, to nothing if it has
    no condition, and otherwise to a fragment that matches the documents that it is true of.
-/
import Merchandising.Proofs.Query.Matching
import Merchandising.Rule.Translator

namespace Merchandising

/-! ## The truth of a rule -/

mutual

/-- The conditions of a rule, from left to right. -/
def Rule.conditions : Rule → List Condition
  | .mk _ _ children => RuleNode.conditions children

/-- The conditions of the children of a rule, from left to right. -/
def RuleNode.conditions : List RuleNode → List Condition
  | [] => []
  | .leaf c :: r => c :: RuleNode.conditions r
  | .tree child :: r => child.conditions ++ RuleNode.conditions r

end

/-- All or any of some truth values are as expected: all are true, or some is; or none is, or not
    all are. -/
def Aggregator.verdict : Aggregator → Bool → List Bool → Bool
  | .all, true, bs => bs.all id
  | .any, true, bs => bs.any id
  | .all, false, bs => !bs.any id
  | .any, false, bs => !bs.all id

section
variable (leaf : Condition → Bool)

mutual

/-- The truth of a rule. -/
def Rule.isTrue : Rule → Bool
  | .mk a expected children => a.verdict expected (RuleNode.truths children)

/-- The truth of those children of a rule that have a condition. -/
def RuleNode.truths : List RuleNode → List Bool
  | [] => []
  | .leaf c :: r => leaf c :: RuleNode.truths r
  | .tree child :: r =>
    if child.conditions.isEmpty then RuleNode.truths r else child.isTrue :: RuleNode.truths r

end

end

/-! ## Translating a rule -/

namespace Translator

open Failure (bind_eq_ok bind_eq_error exists_ok_iff)

variable (t : Translator) (ctx : Context)

/-- The failure of the first condition that is not translated. -/
def FirstFailure (cs : List Condition) (e : Failure) : Prop :=
  ∃ before c after, cs = before ++ c :: after ∧
    (∀ b ∈ before, ∃ f, t.condition ctx b = .ok f) ∧ t.condition ctx c = .error e

/-- Whether a condition is translated to a fragment that matches a document. -/
def leafHolds {Doc : Type} (I : Interpretation Doc) (d : Doc) (c : Condition) : Bool :=
  match t.condition ctx c with
  | .ok f => f.holds I d
  | .error _ => false

variable {t ctx}

theorem not_firstFailure_nil (e : Failure) : ¬ t.FirstFailure ctx [] e := by
  rintro ⟨before, c, after, h, -⟩
  simp at h

theorem firstFailure_cons {c : Condition} {cs : List Condition} {e : Failure} :
    t.FirstFailure ctx (c :: cs) e ↔ t.condition ctx c = .error e ∨
      (∃ f, t.condition ctx c = .ok f) ∧ t.FirstFailure ctx cs e := by
  constructor
  · rintro ⟨before, c', after, h, hb, he⟩
    cases before with
    | nil =>
      obtain ⟨rfl, rfl⟩ := List.cons.inj h
      exact Or.inl he
    | cons b bs =>
      obtain ⟨rfl, rfl⟩ := List.cons.inj h
      exact Or.inr ⟨hb c (by simp), bs, c', after, rfl, fun b h => hb b (by simp [h]), he⟩
  · rintro (he | ⟨hc, before, c', after, rfl, hb, he⟩)
    · exact ⟨[], c, cs, rfl, by simp, he⟩
    · refine ⟨c :: before, c', after, rfl, fun b h => ?_, he⟩
      rcases List.mem_cons.1 h with rfl | h
      · exact hc
      · exact hb b h

/-- All conditions are translated, or one of them is the first that is not. -/
theorem forall_ok_iff {cs : List Condition} :
    (∀ c ∈ cs, ∃ f, t.condition ctx c = .ok f) ↔ ∀ e, ¬ t.FirstFailure ctx cs e := by
  induction cs with
  | nil => simp [not_firstFailure_nil]
  | cons c cs ih =>
    rw [List.forall_mem_cons, ih]
    simp only [firstFailure_cons]
    cases hc : t.condition ctx c <;> simp

theorem firstFailure_append {cs cs' : List Condition} {e : Failure} :
    t.FirstFailure ctx (cs ++ cs') e ↔ t.FirstFailure ctx cs e ∨
      (∀ e', ¬ t.FirstFailure ctx cs e') ∧ t.FirstFailure ctx cs' e := by
  induction cs with
  | nil => simp [not_firstFailure_nil]
  | cons c cs ih =>
    rw [List.cons_append]
    simp only [firstFailure_cons, ih]
    cases hc : t.condition ctx c <;> simp

mutual

/-- A rule is not translated because of its first condition that is not. -/
theorem rule_eq_error : ∀ (r : Rule) (e : Failure),
    t.rule ctx r = .error e ↔ t.FirstFailure ctx r.conditions e
  | .mk a expected children, e => by
    rw [rule, bind_eq_error, clauses_eq_error children e, Rule.conditions]
    simp [pure, Except.pure]

/-- The same for the children of a rule. -/
theorem clauses_eq_error : ∀ (cs : List RuleNode) (e : Failure),
    t.clauses ctx cs = .error e ↔ t.FirstFailure ctx (RuleNode.conditions cs) e
  | [], e => by simpa [clauses, RuleNode.conditions] using not_firstFailure_nil e
  | .leaf c :: r, e => by
    rw [clauses, RuleNode.conditions, firstFailure_cons, ← clauses_eq_error r e]
    simp [bind_eq_error, pure, Except.pure]
  | .tree child :: r, e => by
    have hok : (∃ f, t.rule ctx child = .ok f) ↔ ∀ e', ¬ t.FirstFailure ctx child.conditions e' := by
      simp only [exists_ok_iff, ne_eq, rule_eq_error child]
    rw [clauses, RuleNode.conditions, firstFailure_append, ← clauses_eq_error r e, ← hok,
      ← rule_eq_error child e]
    simp [bind_eq_error, pure, Except.pure]

end

/-! ## The truth of a translated rule -/

/-- The clauses of a rule combine to nothing only if there are none. -/
theorem combine_nil (a : Aggregator) (expected : Bool) : combine a expected [] = none := by
  cases a <;> cases expected <;> rfl

/-- The clauses of a rule combine to a fragment that matches as their verdict says.  A clause that
    is a composition itself is not taken apart. -/
theorem holds_combine {Doc : Type} (I : Interpretation Doc) (d : Doc) (a : Aggregator)
    (expected : Bool) {fs : List Fragment} (hfs : fs ≠ []) :
    ∃ f, combine a expected fs = some f ∧
      f.holds I d = a.verdict expected (fs.map (Fragment.holds I d)) := by
  have hall : (fs.map (Fragment.holds I d)).all id = fs.all (Fragment.holds I d) := by
    rw [List.all_map]
    rfl
  have hany : (fs.map (Fragment.holds I d)).any id = fs.any (Fragment.holds I d) := by
    rw [List.any_map]
    rfl
  match a, expected with
  | .all, true =>
    rw [Aggregator.verdict, hall]
    exact Fragment.holds_allOf? I d hfs
  | .any, true =>
    rw [Aggregator.verdict, hany]
    exact Fragment.holds_anyOf? I d hfs
  | .any, false =>
    obtain ⟨f, hf, hh⟩ := Fragment.holds_allOf? I d hfs
    refine ⟨f.negate, by simp [combine, hf], ?_⟩
    rw [Fragment.holds_negate, hh, Aggregator.verdict, hall]
  | .all, false =>
    rw [Aggregator.verdict, hany]
    match fs, hfs with
    | [f], _ => exact ⟨f.negate, rfl, by simp [Fragment.holds_negate]⟩
    | f :: g :: r, _ => exact ⟨_, rfl, Fragment.holds_noneOf I d _⟩

mutual

/-- A rule that is translated has a fragment iff it has a condition, and the fragment matches the
    documents that the rule is true of. -/
theorem rule_eq_ok : ∀ (r : Rule) (o : Option Fragment), t.rule ctx r = .ok o →
    (o = none ↔ r.conditions = []) ∧ ∀ f, o = some f → ∀ {Doc : Type} (I : Interpretation Doc)
      (d : Doc), f.holds I d = r.isTrue (t.leafHolds ctx I d)
  | .mk a expected children, o, h => by
    rw [rule, bind_eq_ok] at h
    obtain ⟨fs, hfs, h⟩ := h
    obtain ⟨hnil, hmap⟩ := clauses_eq_ok children fs hfs
    obtain rfl : combine a expected fs = o := Except.ok.inj h
    rw [Rule.conditions, ← hnil]
    by_cases hne : fs = []
    · subst hne
      simp [combine_nil]
    · refine ⟨?_, fun f hf Doc I d => ?_⟩
      · obtain ⟨f, hf, -⟩ := holds_combine (fun _ (_ : Unit) => true) () a expected hne
        simp [hf, hne]
      · obtain ⟨f', hf', hh⟩ := holds_combine I d a expected hne
        obtain rfl : f' = f := Option.some.inj (hf'.symm.trans hf)
        rw [hh, hmap, Rule.isTrue]

/-- The clauses of the children of a rule: none iff there is no condition, and they match as their
    children are true. -/
theorem clauses_eq_ok : ∀ (cs : List RuleNode) (fs : List Fragment), t.clauses ctx cs = .ok fs →
    (fs = [] ↔ RuleNode.conditions cs = []) ∧ ∀ {Doc : Type} (I : Interpretation Doc) (d : Doc),
      fs.map (Fragment.holds I d) = RuleNode.truths (t.leafHolds ctx I d) cs
  | [], fs, h => by
    obtain rfl : [] = fs := Except.ok.inj h
    simp [RuleNode.conditions, RuleNode.truths]
  | .leaf c :: r, fs, h => by
    rw [clauses, bind_eq_ok] at h
    obtain ⟨f, hf, h⟩ := h
    obtain ⟨gs, hgs, h⟩ := bind_eq_ok.1 h
    obtain rfl : f :: gs = fs := Except.ok.inj h
    refine ⟨by simp [RuleNode.conditions], fun I d => ?_⟩
    have hc : t.leafHolds ctx I d c = f.holds I d := by rw [leafHolds, hf]
    rw [List.map_cons, (clauses_eq_ok r gs hgs).2 I d, RuleNode.truths, hc]
  | .tree child :: r, fs, h => by
    rw [clauses, bind_eq_ok] at h
    obtain ⟨o, ho, h⟩ := h
    obtain ⟨gs, hgs, h⟩ := bind_eq_ok.1 h
    obtain rfl : o.toList ++ gs = fs := Except.ok.inj h
    obtain ⟨hnil, htrue⟩ := rule_eq_ok child o ho
    obtain ⟨hnil', hmap⟩ := clauses_eq_ok r gs hgs
    refine ⟨by rw [RuleNode.conditions, List.append_eq_nil_iff, List.append_eq_nil_iff, ← hnil,
      hnil', Option.toList_eq_nil_iff], fun I d => ?_⟩
    rw [RuleNode.truths, List.map_append, hmap]
    cases o with
    | none => simp [hnil.1 rfl]
    | some f =>
      have hne : child.conditions ≠ [] := fun hc => by simpa using hnil.2 hc
      simp [hne, htrue f rfl]

end

/-- **Translating a rule preserves its meaning.**  It fails as the first condition that is not
    translated, makes nothing of a rule without a condition, and otherwise a fragment that matches
    exactly the documents that the rule is true of. -/
theorem rule_meaning (t : Translator) (ctx : Context) (r : Rule) :
    (∀ e, t.rule ctx r = .error e ↔ t.FirstFailure ctx r.conditions e) ∧
    (t.rule ctx r = .ok none ↔ (∀ e, ¬ t.FirstFailure ctx r.conditions e) ∧ r.conditions = []) ∧
    ((∀ e, ¬ t.FirstFailure ctx r.conditions e) → r.conditions ≠ [] →
      ∃ f, t.rule ctx r = .ok (some f) ∧ ∀ {Doc : Type} (I : Interpretation Doc) (d : Doc),
        f.holds I d = r.isTrue (t.leafHolds ctx I d)) := by
  have hok : (∃ o, t.rule ctx r = .ok o) ↔ ∀ e, ¬ t.FirstFailure ctx r.conditions e := by
    simp only [exists_ok_iff, ne_eq, rule_eq_error r]
  refine ⟨rule_eq_error r, ⟨fun h => ⟨hok.1 ⟨_, h⟩, (rule_eq_ok r _ h).1.1 rfl⟩, ?_⟩, fun hf hc => ?_⟩
  · rintro ⟨hf, hc⟩
    obtain ⟨o, ho⟩ := hok.2 hf
    rw [ho, (rule_eq_ok r o ho).1.2 hc]
  · obtain ⟨o, ho⟩ := hok.2 hf
    obtain ⟨hnil, htrue⟩ := rule_eq_ok r o ho
    cases o with
    | none => exact absurd (hnil.1 rfl) hc
    | some f => exact ⟨f, ho, htrue f rfl⟩

/-- Not all of: a rule without conditions, which is left out; red; and neither large nor new. -/
theorem rule_meaning_nested :
    let t : Translator := ⟨.empty, none, none, fun _ => .exact, 0⟩
    let red : Condition := ⟨"color", .equal, .single (.text "red")⟩
    let large : Condition := ⟨"size", .atLeast, .single (.int 40)⟩
    let new : Condition := ⟨"is_new", .equal, .single (.bool true)⟩
    let r : Rule := .mk .any false
      [.tree (.mk .all false []), .leaf red, .tree (.mk .all false [.leaf large, .leaf new])]
    ∃ f, t.rule ⟨1, 0⟩ r = .ok (some f) ∧ ∀ {Doc : Type} (I : Interpretation Doc) (d : Doc),
      f.holds I d = r.isTrue (t.leafHolds ⟨1, 0⟩ I d) := by
  intro t red large new r
  refine (rule_meaning t ⟨1, 0⟩ r).2.2 (forall_ok_iff.1 fun c hc => ?_) (List.cons_ne_nil _ _)
  have hc : c = red ∨ c = large ∨ c = new := by
    simpa [r, Rule.conditions, RuleNode.conditions] using hc
  rcases hc with rfl | rfl | rfl <;> exact ⟨_, rfl⟩

end Translator

end Merchandising

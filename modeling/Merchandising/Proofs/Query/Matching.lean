/-
  Which documents a query matches.

  Compositions and negations are read as such, and every other kind of condition by an arbitrary
  `Interpretation`, which also reads what stands inside a nested or scored condition.  Labels are
  ignored.

  * `Fragment.holds` is the reading of a fragment on a document;
  * `holds_all`, `holds_any`, `holds_noneOf`, `holds_negate` and `holds_named` read the builders;
  * `holds_allOf?` and `holds_anyOf?` read the builders that leave a single clause as it is;
  * `holds_congr`: documents of which the same is read are matched by the same fragments.
-/
import Merchandising.Query.Fragment

namespace Merchandising

/-- What conditions that are no compositions say of documents. -/
abbrev Interpretation (Doc : Type) := Query → Doc → Bool

section
variable {Doc : Type} (I : Interpretation Doc) (d : Doc)

mutual

/-- Whether a fragment matches a document. -/
def Fragment.holds : Fragment → Bool
  | .mk _ query => query.holds

/-- Whether a condition matches a document: of a composition all of `must`, none of `mustNot`, and
    at least `minimum` of `should`. -/
def Query.holds : Query → Bool
  | .bool must should mustNot minimum =>
    countHolding must == must.length && countHolding mustNot == 0 &&
      decide ((minimum.getD 0).toNat ≤ countHolding should)
  | .not inner => !inner.holds
  | q => I q d

/-- How many of some fragments match a document. -/
def countHolding : List Fragment → Nat
  | [] => 0
  | f :: fs => (if f.holds then 1 else 0) + countHolding fs

end

theorem countHolding_eq (fs : List Fragment) :
    countHolding I d fs = fs.countP (Fragment.holds I d) := by
  induction fs with
  | nil => rfl
  | cons f fs ih => rw [countHolding, List.countP_cons, ih, Nat.add_comm]

/-- A composition, with the usual readings of its lists. -/
theorem Query.holds_bool (must should mustNot : List Fragment) (minimum : Option UInt32) :
    (Query.bool must should mustNot minimum).holds I d =
      (must.all (Fragment.holds I d) && !mustNot.any (Fragment.holds I d) &&
        decide ((minimum.getD 0).toNat ≤ should.countP (Fragment.holds I d))) := by
  have hm : (must.countP (Fragment.holds I d) == must.length) = must.all (Fragment.holds I d) := by
    rw [Bool.eq_iff_iff]
    simp [List.countP_eq_length]
  have hn : (mustNot.countP (Fragment.holds I d) == 0) = !mustNot.any (Fragment.holds I d) := by
    rw [Bool.eq_iff_iff]
    simp [List.countP_eq_zero]
  simp only [Query.holds, countHolding_eq, hm, hn]

/-- A label has no influence. -/
theorem Fragment.holds_named (f : Fragment) (name : String) :
    (f.named name).holds I d = f.holds I d := by
  cases f
  rfl

theorem Fragment.holds_negate (f : Fragment) : f.negate.holds I d = !f.holds I d := by
  simp only [negate, unnamed, holds, Query.holds]

theorem Fragment.holds_all (fs : List Fragment) :
    (Fragment.all fs).holds I d = fs.all (holds I d) := by
  simp [all, unnamed, holds, Query.holds_bool]

theorem Fragment.holds_any (fs : List Fragment) :
    (Fragment.any fs).holds I d = fs.any (holds I d) := by
  rw [Bool.eq_iff_iff]
  simp [any, unnamed, holds, Query.holds_bool, Nat.succ_le_iff]

theorem Fragment.holds_noneOf (fs : List Fragment) :
    (Fragment.noneOf fs).holds I d = !fs.any (holds I d) := by
  simp [noneOf, unnamed, holds, Query.holds_bool]

/-- A single clause needs no composition if the composition reads it as it is. -/
theorem Fragment.holds_compose? (compose : List Fragment → Fragment) (read : List Bool → Bool)
    (hc : ∀ fs, (compose fs).holds I d = read (fs.map (holds I d))) (h1 : ∀ b, read [b] = b)
    {fs : List Fragment} (hfs : fs ≠ []) :
    ∃ f, compose? compose fs = some f ∧ f.holds I d = read (fs.map (holds I d)) := by
  match fs, hfs with
  | [f], _ => exact ⟨f, rfl, (h1 _).symm⟩
  | f :: g :: r, _ => exact ⟨_, rfl, hc _⟩

theorem Fragment.holds_allOf? {fs : List Fragment} (hfs : fs ≠ []) :
    ∃ f, allOf? fs = some f ∧ f.holds I d = fs.all (holds I d) := by
  obtain ⟨f, hf, hh⟩ := holds_compose? I d all (fun bs => bs.all id)
    (fun gs => by rw [holds_all, List.all_map]; rfl) (fun b => by simp) hfs
  exact ⟨f, hf, by rw [hh, List.all_map]; rfl⟩

theorem Fragment.holds_anyOf? {fs : List Fragment} (hfs : fs ≠ []) :
    ∃ f, anyOf? fs = some f ∧ f.holds I d = fs.any (holds I d) := by
  obtain ⟨f, hf, hh⟩ := holds_compose? I d any (fun bs => bs.any id)
    (fun gs => by rw [holds_any, List.any_map]; rfl) (fun b => by simp) hfs
  exact ⟨f, hf, by rw [hh, List.any_map]; rfl⟩

end

section
variable {Doc Doc' : Type} {I : Interpretation Doc} {I' : Interpretation Doc'} {d : Doc} {d' : Doc'}

mutual

/-- Documents of which the same is read are matched by the same fragments. -/
theorem Fragment.holds_congr (h : ∀ q, I q d = I' q d') :
    ∀ f : Fragment, f.holds I d = f.holds I' d'
  | .mk _ query => Query.holds_congr h query

theorem Query.holds_congr (h : ∀ q, I q d = I' q d') : ∀ q : Query, q.holds I d = q.holds I' d'
  | .bool must should mustNot _ => by
    simp only [Query.holds, countHolding_congr h must, countHolding_congr h should,
      countHolding_congr h mustNot]
  | .not inner => by simp only [Query.holds, Fragment.holds_congr h inner]
  | .term .. | .terms .. | .range .. | .nested .. | .present .. | .absent .. | .words ..
  | .weighted .. | .scored .. | .similar .. | .startsWith .. | .pattern .. => h _

theorem countHolding_congr (h : ∀ q, I q d = I' q d') :
    ∀ fs : List Fragment, countHolding I d fs = countHolding I' d' fs
  | [] => rfl
  | f :: fs => by simp only [countHolding, Fragment.holds_congr h f, countHolding_congr h fs]

end

end

end Merchandising

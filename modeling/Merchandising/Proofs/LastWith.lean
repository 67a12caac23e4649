/-
  The last element of a list that satisfies a condition.

  * `lastWith_concat`: one more element is the last one if it satisfies the condition, and changes
    nothing otherwise;
  * `exists_lastWith`: there is one as soon as some element satisfies the condition;
  * `lastWith_iff_of_unique`: if no other one does, it is that element.
-/
import Mathlib.Data.List.Induction

namespace Merchandising

variable {α : Type}

/-- The last element that satisfies `P` is `a`. -/
def LastWith (P : α → Prop) (as : List α) (a : α) : Prop :=
  P a ∧ ∃ later, a :: later <:+ as ∧ ∀ b ∈ later, ¬ P b

variable {P : α → Prop} {as : List α} {a b : α}

theorem LastWith.mem (h : LastWith P as a) : a ∈ as := by
  obtain ⟨-, later, hsuffix, -⟩ := h
  exact hsuffix.subset List.mem_cons_self

theorem not_lastWith_nil : ¬ LastWith P [] a := fun h => nomatch h.mem

theorem lastWith_concat : LastWith P (as ++ [b]) a ↔ P b ∧ a = b ∨ ¬ P b ∧ LastWith P as a := by
  constructor
  · rintro ⟨ha, later, hsuffix, hlater⟩
    obtain hnil | ⟨t, ht, hrest⟩ := List.suffix_concat_iff.1 hsuffix
    · nomatch hnil
    · rcases List.cons_eq_append_iff.1 ht with ⟨-, hlast⟩ | ⟨before, rfl, rfl⟩
      · obtain rfl := (List.cons.inj hlast).1
        exact Or.inl ⟨ha, rfl⟩
      · refine Or.inr ⟨hlater b ?_, ha, before, hrest, fun c hc => hlater c ?_⟩
        · exact List.mem_append_right _ (List.mem_singleton_self b)
        · exact List.mem_append_left _ hc
  · rintro (⟨hb, rfl⟩ | ⟨hb, ha, later, hsuffix, hlater⟩)
    · exact ⟨hb, [], List.suffix_append as [a], fun c hc => nomatch hc⟩
    · refine ⟨ha, later ++ [b], ?_, fun c hc => ?_⟩
      · exact List.suffix_concat_iff.2 (Or.inr ⟨a :: later, rfl, hsuffix⟩)
      · rcases List.mem_append.1 hc with hc | hc
        · exact hlater c hc
        · exact List.mem_singleton.1 hc ▸ hb

theorem exists_lastWith (ha : a ∈ as) (h : P a) : ∃ b, LastWith P as b := by
  induction as using List.reverseRecOn with
  | nil => nomatch ha
  | append_singleton as c ih =>
    by_cases hc : P c
    · exact ⟨c, lastWith_concat.2 (Or.inl ⟨hc, rfl⟩)⟩
    · have hne : a ≠ c := fun hac => hc (hac ▸ h)
      obtain ⟨b, hb⟩ := ih (by simpa [hne] using ha)
      exact ⟨b, lastWith_concat.2 (Or.inr ⟨hc, hb⟩)⟩

theorem lastWith_iff_of_unique (h : ∀ b ∈ as, ∀ c ∈ as, P b → P c → b = c) :
    LastWith P as a ↔ a ∈ as ∧ P a := by
  constructor
  · exact fun ha => ⟨ha.mem, ha.1⟩
  · rintro ⟨ha, hP⟩
    obtain ⟨b, hb⟩ := exists_lastWith ha hP
    exact h b hb.mem a ha hb.1 hP ▸ hb

end Merchandising

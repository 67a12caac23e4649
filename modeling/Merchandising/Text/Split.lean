/-
  Splitting a text at a separator.

  `splitChars sep cs` are the pieces between the occurrences of `sep`: one more than there are
  separators, each without a separator (`notMem_splitChars`), and putting the separators back
  gives the text (`intercalate_splitChars`).
-/

namespace Merchandising.Text

/-- The pieces of a list of characters between the occurrences of `sep`. -/
def splitChars (sep : Char) : List Char → List (List Char)
  | [] => [[]]
  | c :: r =>
    if c = sep then [] :: splitChars sep r
    else match splitChars sep r with
      | [] => [[c]]
      | piece :: pieces => (c :: piece) :: pieces

/-- The pieces of a text between the occurrences of `sep`. -/
def split (sep : Char) (s : String) : List String :=
  (splitChars sep s.toList).map String.ofList

theorem splitChars_ne_nil (sep : Char) (cs : List Char) : splitChars sep cs ≠ [] := by
  cases cs with
  | nil => simp [splitChars]
  | cons c r =>
    unfold splitChars
    split
    · simp
    · split <;> simp

/-- No piece holds a separator. -/
theorem notMem_splitChars (sep : Char) (cs : List Char) :
    ∀ piece ∈ splitChars sep cs, sep ∉ piece := by
  induction cs with
  | nil => simp [splitChars]
  | cons c r ih =>
    unfold splitChars
    split
    · simpa using ih
    · rename_i hc
      split
      · simpa using Ne.symm hc
      · rename_i piece pieces hs
        rw [hs] at ih
        intro p hp
        rcases List.mem_cons.1 hp with rfl | hp
        · have := ih piece (by simp)
          simp only [List.mem_cons, not_or]
          exact ⟨Ne.symm hc, this⟩
        · exact ih p (by simp [hp])

/-- Putting the separators back gives the text. -/
theorem intercalate_splitChars (sep : Char) (cs : List Char) :
    [sep].intercalate (splitChars sep cs) = cs := by
  induction cs with
  | nil => rfl
  | cons c r ih =>
    unfold splitChars
    split
    · rename_i hc
      obtain ⟨piece, pieces, hs⟩ := List.exists_cons_of_ne_nil (splitChars_ne_nil sep r)
      rw [hs] at ih ⊢
      simp [← ih, hc]
    · split
      · rename_i hs
        exact absurd hs (splitChars_ne_nil sep r)
      · rename_i piece pieces hs
        rw [hs] at ih
        cases pieces <;> simp_all

end Merchandising.Text

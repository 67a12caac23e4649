/-
  Names with points, and their segments.

  * `Text.Dotted` is a name that starts with another one and a point;
  * `split_dotted`: it has the segments of the other one and those of the rest;
  * `split_start`: a name that has the segments of another one in front is that one, or starts with
    it and a point.
-/
import Merchandising.Text.Split

namespace Merchandising.Text

/-- A name starts with another one and a point. -/
def Dotted (start name : String) : Prop := ∃ rest, name = start ++ "." ++ rest

theorem dotted_iff {start name : String} :
    Dotted start name ↔ (start.toList ++ ['.']).isPrefixOf name.toList = true := by
  rw [List.isPrefixOf_iff_prefix]
  constructor
  · rintro ⟨rest, rfl⟩
    simp
  · rintro ⟨rest, h⟩
    exact ⟨String.ofList rest, String.toList_injective (by simpa using h.symm)⟩

instance (start name : String) : Decidable (Dotted start name) :=
  decidable_of_iff _ dotted_iff.symm

theorem split_ne_nil (sep : Char) (s : String) : split sep s ≠ [] := by
  simpa [split] using splitChars_ne_nil sep s.toList

/-- No segment holds the separator. -/
theorem notMem_split {sep : Char} {s piece : String} (h : piece ∈ split sep s) :
    sep ∉ piece.toList := by
  obtain ⟨cs, hcs, rfl⟩ := List.mem_map.1 h
  simpa using notMem_splitChars sep s.toList cs hcs

theorem dropLast_split (sep : Char) (s : String) :
    (split sep s).dropLast ++ [(split sep s).getLastD ""] = split sep s := by
  rw [List.getLastD_eq_getLast?, List.getLast?_eq_some_getLast (split_ne_nil sep s)]
  exact List.dropLast_concat_getLast _

/-- A text without the separator has one segment. -/
theorem splitChars_of_notMem {sep : Char} {cs : List Char} (h : sep ∉ cs) :
    splitChars sep cs = [cs] := by
  induction cs with
  | nil => rfl
  | cons c cs ih =>
    rw [List.mem_cons, not_or] at h
    rw [splitChars, if_neg (Ne.symm h.1), ih h.2]

theorem split_of_notMem {sep : Char} {s : String} (h : sep ∉ s.toList) : split sep s = [s] := by
  rw [split, splitChars_of_notMem h]
  simp

/-- A text with one segment is that segment. -/
theorem eq_of_split {sep : Char} {s piece : String} (h : split sep s = [piece]) : s = piece := by
  obtain ⟨cs, hcs, rfl⟩ := List.map_eq_singleton_iff.1 h
  have hjoined := intercalate_splitChars sep s.toList
  rw [hcs] at hjoined
  exact String.toList_inj.1 (by simpa using hjoined.symm)

theorem splitChars_cons_self (sep : Char) (cs : List Char) :
    splitChars sep (sep :: cs) = [] :: splitChars sep cs := by
  rw [splitChars, if_pos rfl]

/-- Another character goes to the first segment of what follows. -/
theorem splitChars_cons_of_ne {sep c : Char} (hc : c ≠ sep) (cs : List Char) :
    ∃ piece pieces, splitChars sep cs = piece :: pieces ∧
      splitChars sep (c :: cs) = (c :: piece) :: pieces := by
  obtain ⟨piece, pieces, hs⟩ := List.exists_cons_of_ne_nil (splitChars_ne_nil sep cs)
  refine ⟨piece, pieces, hs, ?_⟩
  rw [splitChars, if_neg hc, hs]

theorem splitChars_append (sep : Char) (cs ds : List Char) :
    splitChars sep (cs ++ sep :: ds) = splitChars sep cs ++ splitChars sep ds := by
  induction cs with
  | nil => exact splitChars_cons_self sep ds
  | cons c cs ih =>
    by_cases hc : c = sep
    · subst hc
      rw [List.cons_append, splitChars_cons_self, splitChars_cons_self, ih]
      rfl
    · obtain ⟨piece, pieces, hs, hcons⟩ := splitChars_cons_of_ne hc cs
      rw [hs] at ih
      rw [List.cons_append, hcons, splitChars, if_neg hc, ih]
      rfl

theorem split_dotted (start rest : String) :
    split '.' (start ++ "." ++ rest) = split '.' start ++ split '.' rest := by
  have hchars : (start ++ "." ++ rest).toList = start.toList ++ '.' :: rest.toList := by simp
  rw [split, hchars, splitChars_append, List.map_append]
  rfl

/-- The segments of a text tell whether it starts with another one. -/
theorem splitChars_start {sep : Char} {cs ds : List Char}
    (h : splitChars sep cs <+: splitChars sep ds) : ds = cs ∨ ∃ rest, ds = cs ++ sep :: rest := by
  induction cs generalizing ds with
  | nil =>
    cases ds with
    | nil => exact Or.inl rfl
    | cons d ds =>
      by_cases hd : d = sep
      · exact Or.inr ⟨ds, by rw [hd]; rfl⟩
      · obtain ⟨piece, pieces, -, hcons⟩ := splitChars_cons_of_ne hd ds
        rw [hcons, splitChars, List.cons_prefix_cons] at h
        cases h.1
  | cons c cs ih =>
    cases ds with
    | nil =>
      by_cases hc : c = sep
      · subst hc
        rw [splitChars_cons_self, splitChars, List.cons_prefix_cons] at h
        exact absurd (List.prefix_nil.1 h.2) (splitChars_ne_nil c cs)
      · obtain ⟨piece, pieces, -, hcons⟩ := splitChars_cons_of_ne hc cs
        rw [hcons, splitChars, List.cons_prefix_cons] at h
        cases h.1
    | cons d ds =>
      have hrest : d = c ∧ splitChars sep cs <+: splitChars sep ds := by
        by_cases hc : c = sep <;> by_cases hd : d = sep
        · subst hc hd
          rw [splitChars_cons_self, splitChars_cons_self, List.cons_prefix_cons] at h
          exact ⟨rfl, h.2⟩
        · obtain ⟨piece, pieces, -, hcons⟩ := splitChars_cons_of_ne hd ds
          rw [hc, splitChars_cons_self, hcons, List.cons_prefix_cons] at h
          cases h.1
        · obtain ⟨piece, pieces, -, hcons⟩ := splitChars_cons_of_ne hc cs
          rw [hd, splitChars_cons_self, hcons, List.cons_prefix_cons] at h
          cases h.1
        · obtain ⟨piece, pieces, hs, hcons⟩ := splitChars_cons_of_ne hc cs
          obtain ⟨piece', pieces', hs', hcons'⟩ := splitChars_cons_of_ne hd ds
          rw [hcons, hcons', List.cons_prefix_cons, List.cons.injEq] at h
          rw [hs, hs', List.cons_prefix_cons]
          exact ⟨h.1.1.symm, h.1.2, h.2⟩
      obtain ⟨rfl, hrest⟩ := hrest
      rcases ih hrest with rfl | ⟨rest, rfl⟩
      · exact Or.inl rfl
      · exact Or.inr ⟨rest, rfl⟩

theorem split_start {start name : String} (h : split '.' start <+: split '.' name) :
    name = start ∨ Dotted start name := by
  have hinj : Function.Injective String.ofList := fun _ _ h => String.ofList_inj.1 h
  rw [split, split, List.prefix_map_iff_of_injective hinj] at h
  rcases splitChars_start h with h | ⟨rest, h⟩
  · exact Or.inl (String.toList_inj.1 h)
  · exact Or.inr ⟨String.ofList rest, String.toList_inj.1 (by simp [h])⟩

end Merchandising.Text

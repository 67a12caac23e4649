/-
  Names that are listed in one text.

  * `Blank` are texts of blanks, `Name` are texts that may stand in a list: they have neither commas
    nor blanks at their ends, and are not empty;
  * `Listing names s` is the grammar of lists: the text `s` lists `names` with commas between them,
    with blanks around them, and with parts without a name;
  * `splitText_listing`: such a text is split into the names that it lists;
  * `isTruthy_listing` and `isTruthy_of_comma`: as a truth value, a text without commas is what its
    names are as a list, and one with commas is true.
-/
import Mathlib.Data.List.TakeWhile
import Merchandising.Proofs.Text.Dotted
import Merchandising.Rule.Operand

namespace Merchandising

namespace Text

/-! ## Blanks at the ends -/

/-- A text of blanks. -/
def Blank (s : String) : Prop := ∀ c ∈ s.toList, isBlank c = true

theorem dropWhile_blank_append {bs : List Char} (hbs : ∀ c ∈ bs, isBlank c = true)
    (cs : List Char) : (bs ++ cs).dropWhile isBlank = cs.dropWhile isBlank :=
  List.dropWhile_append_of_pos hbs

theorem trimEnd_append_blank {bs : List Char} (hbs : ∀ c ∈ bs, isBlank c = true) (cs : List Char) :
    trimEnd (cs ++ bs) = trimEnd cs := by
  have hreverse : ∀ c ∈ bs.reverse, isBlank c = true := fun c hc => hbs c (List.mem_reverse.1 hc)
  rw [trimEnd, List.reverse_append, dropWhile_blank_append hreverse, trimEnd]

/-- Blanks around a text are dropped. -/
theorem trimChars_around {bs bs' : List Char} (hbs : ∀ c ∈ bs, isBlank c = true)
    (hbs' : ∀ c ∈ bs', isBlank c = true) (cs : List Char) :
    trimChars (bs ++ (cs ++ bs')) = trimChars cs := by
  rw [trimChars, dropWhile_blank_append hbs, List.dropWhile_append, trimChars]
  split
  · -- the text is blank itself
    rename_i hcs
    rw [List.isEmpty_iff.1 hcs, List.dropWhile_eq_nil_iff.2 hbs']
  · exact trimEnd_append_blank hbs' _

theorem trim_around {b b' : String} (hb : Blank b) (hb' : Blank b') (s : String) :
    trim (b ++ s ++ b') = trim s := by
  rw [trim, trim, String.toList_append, String.toList_append, List.append_assoc,
    trimChars_around hb hb']

theorem trimChars_blank {s : String} (hs : Blank s) : trimChars s.toList = [] := by
  rw [trimChars, List.dropWhile_eq_nil_iff.2 hs]
  rfl

theorem trim_blank {s : String} (hs : Blank s) : trim s = "" := by
  rw [trim, trimChars_blank hs]

/-- What is no blank is not dropped. -/
theorem mem_trimChars {c : Char} (hc : isBlank c = false) {cs : List Char} (h : c ∈ cs) :
    c ∈ trimChars cs := by
  have hdrop {ds : List Char} (hds : c ∈ ds) : c ∈ ds.dropWhile isBlank := by
    rw [← List.takeWhile_append_dropWhile (p := isBlank) (l := ds), List.mem_append] at hds
    rcases hds with hds | hds
    · rw [List.mem_takeWhile_imp hds] at hc
      cases hc
    · exact hds
  exact List.mem_reverse.2 (hdrop (List.mem_reverse.2 (hdrop h)))

/-! ## The grammar of lists -/

/-- A text that may stand in a list. -/
structure Name (s : String) : Prop where
  trimmed : trim s = s
  nonempty : s ≠ ""
  noComma : ',' ∉ s.toList

/-- A text lists names. -/
inductive Listing : List String → String → Prop where
  /-- A part without a name. -/
  | blank {s} (hs : Blank s) : Listing [] s
  | name {b s b'} (hb : Blank b) (hs : Name s) (hb' : Blank b') : Listing [s] (b ++ s ++ b')
  | comma {names names' s s'} (h : Listing names s) (h' : Listing names' s') :
    Listing (names ++ names') (s ++ "," ++ s')

theorem isBlank_comma : isBlank ',' = false := by decide

theorem Blank.noComma {s : String} (hs : Blank s) : ',' ∉ s.toList := by
  intro h
  have hcomma := hs _ h
  rw [isBlank_comma] at hcomma
  cases hcomma

theorem split_comma (s s' : String) : split ',' (s ++ "," ++ s') = split ',' s ++ split ',' s' := by
  have hchars : (s ++ "," ++ s').toList = s.toList ++ ',' :: s'.toList := by simp
  rw [split, hchars, splitChars_append, List.map_append]
  rfl

end Text

open Text

/-- A text without commas is one part. -/
theorem Operand.splitText_of_noComma {s : String} (hs : ',' ∉ s.toList) :
    splitText s = if trim s = "" then [] else [trim s] := by
  rw [splitText, split_of_notMem hs]
  by_cases h : trim s = "" <;> simp [h]

/-- A name is split into itself. -/
theorem Operand.splitText_name {s : String} (hs : Name s) : splitText s = [s] := by
  rw [splitText_of_noComma hs.noComma, hs.trimmed, if_neg hs.nonempty]

/-- A text is split into the names that it lists. -/
theorem Operand.splitText_listing {names : List String} {s : String} (h : Listing names s) :
    splitText s = names := by
  induction h with
  | blank hs => rw [splitText_of_noComma hs.noComma, trim_blank hs, if_pos rfl]
  | @name b s b' hb hs hb' =>
    have hnoComma : ',' ∉ (b ++ s ++ b').toList := by
      simp only [String.toList_append, List.mem_append, not_or]
      exact ⟨⟨hb.noComma, hs.noComma⟩, hb'.noComma⟩
    rw [splitText_of_noComma hnoComma, trim_around hb hb', hs.trimmed, if_neg hs.nonempty]
  | comma _ _ ih ih' =>
    rw [splitText] at ih ih' ⊢
    rw [split_comma, List.map_append, List.filter_append, ih, ih']

/-! ## Truth values -/

/-- The truth value of a text does not depend on blanks around it. -/
theorem Scalar.isTruthy_text_congr {s s' : String} (h : trimChars s.toList = trimChars s'.toList) :
    (text s).isTruthy = (text s').isTruthy := by
  simp only [isTruthy, h]

/-- A text without commas is as true as the list of what it lists. -/
theorem Operand.isTruthy_listing {names : List String} {s : String} (h : Listing names s)
    (hs : ',' ∉ s.toList) :
    (single (.text s)).isTruthy = (list (names.map .text)).isTruthy := by
  cases h with
  | blank hblank =>
    show (Scalar.text s).isTruthy = false
    simp only [Scalar.isTruthy, trimChars_blank hblank]
    rfl
  | name hb hname hb' =>
    refine Scalar.isTruthy_text_congr ?_
    rw [String.toList_append, String.toList_append, List.append_assoc, trimChars_around hb hb']
  | comma _ _ => simp at hs

/-- A text with commas is true. -/
theorem Scalar.isTruthy_of_comma {s : String} (hs : ',' ∈ s.toList) : (text s).isTruthy = true := by
  have hmem : ',' ∈ trimChars s.toList := mem_trimChars isBlank_comma hs
  have hempty : trimChars s.toList ≠ [] := List.ne_nil_of_mem hmem
  have hzero : trimChars s.toList ≠ ['0'] := by
    intro h
    rw [h] at hmem
    cases List.mem_singleton.1 hmem
  have hfalse : (trimChars s.toList).map Char.toLower ≠ ['f', 'a', 'l', 's', 'e'] := by
    intro h
    have hlower := List.mem_map_of_mem (f := Char.toLower) hmem
    rw [h] at hlower
    revert hlower
    decide
  simp [isTruthy, hempty, hzero, hfalse]

end Merchandising

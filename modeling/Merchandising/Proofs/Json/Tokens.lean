/-
  The tokens of written texts.

  * `Stops` is a text that no token before it runs into;
  * `lex?_cons` and `lex?_append_gaps` take one token, or gaps, off a text;
  * `spanQuoted?_writeText`: a quoted text is a token with the text as its value;
  * `number_token`: a number that reads back on its own is one token in front of any rest;
  * `readsBack_int`: whole numbers that fit 64 bits, signed or unsigned, read back.
-/
import Merchandising.Json.Literal
import Merchandising.Json.Writer

namespace Merchandising.Json

/-- No token before this text runs into it. -/
def Stops (rest : List Char) : Prop :=
  ∀ c ∈ rest.head?, c = ',' ∨ c = ']' ∨ c = '}'

/-- A value is read back from its text. -/
def ReadsBack (j : Json) : Prop :=
  parse? (print j) = some j

/-! ## The lexer -/

theorem lexWithin_mono {n m : Nat} {cs : List Char} {ts : List Token}
    (h : lexWithin n cs = some ts) (hnm : n ≤ m) : lexWithin m cs = some ts := by
  induction n generalizing m cs ts with
  | zero =>
    cases cs with
    | nil => cases m <;> exact h
    | cons c r => simp [lexWithin] at h
  | succ n ih =>
    cases cs with
    | nil => cases m <;> simpa [lexWithin] using h
    | cons c r =>
      obtain ⟨m, rfl⟩ : ∃ k, m = k + 1 := ⟨m - 1, by omega⟩
      rw [lexWithin] at h ⊢
      split at h
      · rename_i hg
        rw [if_pos hg]
        exact ih h (by omega)
      · rename_i hg
        rw [if_neg hg]
        obtain ⟨⟨t, rest⟩, ht, h⟩ := Option.bind_eq_some_iff.1 h
        obtain ⟨ts', hts, h⟩ := Option.bind_eq_some_iff.1 h
        simp only [ht, ih hts (by omega : n ≤ m), Option.bind_eq_bind, Option.bind_some]
        exact h

/-- One token off a text. -/
theorem lex?_cons {c : Char} {w rest : List Char} {t : Token} {ts : List Token}
    (hc : isGap c = false) (ht : spanToken? (c :: (w ++ rest)) = some (t, rest))
    (hts : lex? rest = some ts) : lex? (c :: (w ++ rest)) = some (t :: ts) := by
  have hts : lexWithin (w ++ rest).length rest = some ts := lexWithin_mono hts (by simp)
  rw [lex?, List.length_cons, lexWithin, hc, if_neg Bool.false_ne_true, ht]
  simp only [Option.bind_eq_bind, Option.bind_some, hts]
  rfl

/-- What has no token is made of gaps, and does not count in front of another text. -/
theorem lexWithin_gaps {n m : Nat} {gaps rest : List Char} {ts : List Token}
    (hg : lexWithin n gaps = some []) (hr : lexWithin m rest = some ts) :
    lexWithin (n + m) (gaps ++ rest) = some ts := by
  induction n generalizing gaps with
  | zero =>
    cases gaps with
    | nil => simpa using hr
    | cons c r => simp [lexWithin] at hg
  | succ n ih =>
    cases gaps with
    | nil => exact lexWithin_mono hr (by omega)
    | cons c r =>
      rw [lexWithin] at hg
      split at hg
      · rename_i hc
        have h := ih hg
        rw [show n + 1 + m = (n + m) + 1 by omega, List.cons_append, lexWithin, if_pos hc]
        exact h
      · obtain ⟨⟨t, rest⟩, ht, h⟩ := Option.bind_eq_some_iff.1 hg
        obtain ⟨ts', hts, h⟩ := Option.bind_eq_some_iff.1 h
        simp at h

/-! ## Numbers -/

theorem digit?_stop {c : Char} (hc : c = ',' ∨ c = ']' ∨ c = '}') : Text.digit? c = none := by
  rcases hc with rfl | rfl | rfl <;> rfl

theorem spanDigits_stops {rest : List Char} (hr : Stops rest) : spanDigits rest = ([], rest) := by
  cases rest with
  | nil => rfl
  | cons c r => simp [spanDigits, digit?_stop (hr c rfl)]

theorem spanDigits_append {rest : List Char} (hr : Stops rest) {cs w : List Char} {ds : List Nat}
    (h : spanDigits cs = (ds, w)) : spanDigits (cs ++ rest) = (ds, w ++ rest) := by
  induction cs generalizing ds w with
  | nil =>
    obtain ⟨rfl, rfl⟩ := Prod.mk.inj h
    exact spanDigits_stops hr
  | cons c r ih =>
    rw [List.cons_append, spanDigits]
    rw [spanDigits] at h
    cases hd : Text.digit? c with
    | none =>
      rw [hd] at h
      obtain ⟨rfl, rfl⟩ := Prod.mk.inj h
      rfl
    | some d =>
      rw [hd] at h
      obtain ⟨rfl, rfl⟩ := Prod.mk.inj h
      simp only [ih rfl]

theorem spanFraction?_append {rest : List Char} (hr : Stops rest) {cs w : List Char}
    {ds : List Nat} (h : spanFraction? cs = some (ds, w)) :
    spanFraction? (cs ++ rest) = some (ds, w ++ rest) := by
  unfold spanFraction? at h
  split at h
  · rename_i r
    rw [List.cons_append, spanFraction?]
    split at h
    · simp at h
    · rename_i hne
      have hspan : spanDigits r = (ds, w) := Option.some.inj h
      rw [spanDigits_append hr hspan]
      cases ds with
      | nil => exact absurd hspan (hne w)
      | cons d ds => rfl
  · rename_i hne
    obtain ⟨rfl, rfl⟩ := Prod.mk.inj (Option.some.inj h)
    unfold spanFraction?
    split
    · rename_i r heq
      cases cs with
      | nil =>
        obtain rfl : rest = '.' :: r := heq
        simpa using hr '.' rfl
      | cons c cs =>
        obtain ⟨rfl, rfl⟩ := List.cons.inj heq
        exact absurd rfl (hne cs)
    · rfl

theorem spanExponentDigits?_append {rest : List Char} (hr : Stops rest) {sign : Int}
    {cs w : List Char} {e : Option Int} (h : spanExponentDigits? sign cs = some (e, w)) :
    spanExponentDigits? sign (cs ++ rest) = some (e, w ++ rest) := by
  unfold spanExponentDigits? at h ⊢
  cases hspan : spanDigits cs with
  | mk ds w' =>
    rw [spanDigits_append hr hspan]
    rw [hspan] at h
    cases ds with
    | nil => simp at h
    | cons d ds =>
      obtain ⟨rfl, rfl⟩ := Prod.mk.inj (Option.some.inj h)
      rfl

theorem spanExponent?_append {rest : List Char} (hr : Stops rest) {cs w : List Char}
    {e : Option Int} (h : spanExponent? cs = some (e, w)) :
    spanExponent? (cs ++ rest) = some (e, w ++ rest) := by
  cases cs with
  | nil =>
    obtain ⟨rfl, rfl⟩ := Prod.mk.inj (Option.some.inj h)
    cases rest with
    | nil => rfl
    | cons c r => rcases hr c rfl with rfl | rfl | rfl <;> rfl
  | cons c r =>
    rw [List.cons_append]
    unfold spanExponent? at h ⊢
    simp only at h ⊢
    split at h
    · rename_i he
      rw [if_pos he]
      split at h
      · exact spanExponentDigits?_append hr h
      · exact spanExponentDigits?_append hr h
      · rename_i hplus hminus
        cases r with
        | nil => simp [spanExponentDigits?, spanDigits] at h
        | cons x r =>
          rw [List.cons_append]
          split
          · rename_i heq
            obtain ⟨rfl, -⟩ := List.cons.inj heq
            exact absurd rfl (hplus r)
          · rename_i heq
            obtain ⟨rfl, -⟩ := List.cons.inj heq
            exact absurd rfl (hminus r)
          · exact spanExponentDigits?_append hr h
    · rename_i he
      obtain ⟨rfl, rfl⟩ := Prod.mk.inj (Option.some.inj h)
      rw [if_neg he]
      rfl

theorem spanWhole?_append {rest : List Char} (hr : Stops rest) {cs w : List Char}
    {ds : List Nat} (h : spanWhole? cs = some (ds, w)) :
    spanWhole? (cs ++ rest) = some (ds, w ++ rest) := by
  unfold spanWhole? at h
  split at h
  · obtain ⟨rfl, rfl⟩ := Prod.mk.inj (Option.some.inj h)
    rfl
  · rename_i hzero
    split at h
    · simp at h
    · rename_i hne
      have hspan : spanDigits cs = (ds, w) := Option.some.inj h
      cases cs with
      | nil => exact absurd rfl (hne [])
      | cons c r =>
        unfold spanWhole?
        split
        · rename_i heq
          obtain ⟨rfl, -⟩ := List.cons.inj heq
          exact absurd rfl (hzero r)
        · rw [spanDigits_append hr hspan]
          cases ds with
          | nil => exact absurd hspan (hne w)
          | cons d ds => rfl

theorem spanNumeral?_append {rest : List Char} (hr : Stops rest) {negative : Bool}
    {cs w : List Char} {n : Numeral} (h : spanNumeral? negative cs = some (n, w)) :
    spanNumeral? negative (cs ++ rest) = some (n, w ++ rest) := by
  obtain ⟨⟨whole, w₁⟩, h₁, h⟩ := Option.bind_eq_some_iff.1 h
  obtain ⟨⟨fraction, w₂⟩, h₂, h⟩ := Option.bind_eq_some_iff.1 h
  obtain ⟨⟨exponent, w₃⟩, h₃, h⟩ := Option.bind_eq_some_iff.1 h
  obtain ⟨rfl, rfl⟩ := Prod.mk.inj (Option.some.inj h)
  simp only [spanNumeral?, spanWhole?_append hr h₁, spanFraction?_append hr h₂,
    spanExponent?_append hr h₃, Option.bind_eq_bind, Option.bind_some]
  rfl

theorem spanToken?_digit {c : Char} {d : Nat} (hd : Text.digit? c = some d) (cs : List Char) :
    spanToken? (c :: cs) =
      (spanNumeral? false (c :: cs)).map fun (n, rest) => (.number n, rest) := by
  have hc : ∀ x, Text.digit? x = none → x ≠ c := by
    rintro x hx rfl
    simp [hd] at hx
  unfold spanToken?
  split
  case h_12 => rfl
  all_goals
    rename_i heq
    exact absurd (List.cons.inj heq).1.symm (hc _ rfl)

/-- A character that a number starts with. -/
def StartsNumber (c : Char) : Prop := c = '-' ∨ ∃ d, Text.digit? c = some d

theorem StartsNumber.not_gap {c : Char} (hc : StartsNumber c) : isGap c = false := by
  rcases hc with rfl | ⟨d, hd⟩
  · rfl
  · rw [Bool.eq_false_iff]
    intro hg
    simp only [isGap, Bool.or_eq_true, beq_iff_eq] at hg
    rcases hg with ((rfl | rfl) | rfl) | rfl <;> simp [Text.digit?] at hd

/-- A number in front of a text that it does not run into. -/
theorem spanToken?_append {rest : List Char} (hr : Stops rest) {c : Char} (hc : StartsNumber c)
    {cs w : List Char} {t : Token} (h : spanToken? (c :: cs) = some (t, w)) :
    (∃ n, t = .number n) ∧ spanToken? (c :: cs ++ rest) = some (t, w ++ rest) := by
  have hnumber : ∀ {negative cs}, (spanNumeral? negative cs).map
      (fun (n, rest) => (Token.number n, rest)) = some (t, w) →
      (∃ n, t = .number n) ∧ (spanNumeral? negative (cs ++ rest)).map
        (fun (n, rest) => (Token.number n, rest)) = some (t, w ++ rest) := by
    intro negative cs h
    obtain ⟨⟨n, w'⟩, hn, h⟩ := Option.map_eq_some_iff.1 h
    obtain ⟨rfl, rfl⟩ := Prod.mk.inj h
    exact ⟨⟨n, rfl⟩, by rw [spanNumeral?_append hr hn]; rfl⟩
  rcases hc with rfl | ⟨d, hd⟩
  · exact hnumber h
  · rw [spanToken?_digit hd] at h
    rw [List.cons_append, spanToken?_digit hd, ← List.cons_append]
    exact hnumber h

/-- **A number that reads back on its own is one token in front of any text that it does not run
    into.** -/
theorem number_token {w : List Char} {c : Char} (hc : StartsNumber c) {l : Literal}
    (h : literal? (c :: w) = some l) :
    ∃ n, l = .number n ∧ ∀ {rest ts}, Stops rest → lex? rest = some ts →
      lex? (c :: w ++ rest) = some (.number n :: ts) := by
  obtain ⟨ts, hts, h⟩ := Option.bind_eq_some_iff.1 h
  obtain ⟨b, hb, h⟩ := Option.bind_eq_some_iff.1 h
  rw [lex?, List.length_cons, lexWithin, if_neg (by simp [hc.not_gap])] at hts
  obtain ⟨⟨t, gaps⟩, ht, hts⟩ := Option.bind_eq_some_iff.1 hts
  obtain ⟨ts', hgaps, hts⟩ := Option.bind_eq_some_iff.1 hts
  obtain rfl : t :: ts' = ts := Option.some.inj hts
  obtain ⟨⟨n, rfl⟩, -⟩ := spanToken?_append (by simp [Stops] : Stops []) hc ht
  have hstep : Builder.start.step (.number n) = some ⟨[], .done (.number n)⟩ := rfl
  rw [List.foldlM_cons, hstep] at hb
  cases ts' with
  | cons t' ts' => simp [Builder.step] at hb
  | nil =>
    obtain rfl : (⟨[], .done (.number n)⟩ : Builder) = b := Option.some.inj hb
    obtain rfl : Literal.number n = l := Option.some.inj h
    refine ⟨n, rfl, fun {rest ts} hr hts => ?_⟩
    have hlex := lexWithin_gaps hgaps hts
    rw [lex?, List.cons_append, List.length_cons, List.length_append, lexWithin,
      if_neg (by simp [hc.not_gap]), ← List.cons_append, (spanToken?_append hr hc ht).2]
    simp only [Option.bind_eq_bind, Option.bind_some, hlex]
    rfl

/-! ## Whole numbers -/

theorem digit?_digitChar : ∀ d < 10, Text.digit? (Nat.digitChar d) = some d := by
  decide

theorem spanDigits_concat {cs : List Char} {ds : List Nat} (h : spanDigits cs = (ds, []))
    {c : Char} {d : Nat} (hd : Text.digit? c = some d) :
    spanDigits (cs ++ [c]) = (ds ++ [d], []) := by
  induction cs generalizing ds with
  | nil =>
    obtain rfl : [] = ds := (Prod.mk.inj h).1
    simp [spanDigits, hd]
  | cons x r ih =>
    rw [spanDigits] at h
    cases hx : Text.digit? x with
    | none => simp [hx] at h
    | some y =>
      simp only [hx, Prod.mk.injEq] at h
      obtain ⟨rfl, hw⟩ := h
      simp [spanDigits, hx, ih (Prod.ext rfl hw)]

/-- The digits of a number are read as digits that spell it; no zero stands in front. -/
theorem spanDigits_digits (n : Nat) :
    ∃ c r, Decimal.digits n = c :: r ∧ (c = '0' → n = 0) ∧
      ∃ ds, spanDigits (Decimal.digits n) = (ds, []) ∧ Text.ofDigits ds = n := by
  induction n using Nat.strongRecOn with
  | _ n ih =>
    by_cases hn : n < 10
    · have hds : Decimal.digits n = [n.digitChar] := Nat.toDigits_of_lt_base hn
      have hd := digit?_digitChar n hn
      refine ⟨n.digitChar, [], hds, fun h => ?_, [n], by simp [hds, spanDigits, hd], by simp [Text.ofDigits]⟩
      rw [h] at hd
      exact (Option.some.inj hd).symm
    · have hds : Decimal.digits n = Decimal.digits (n / 10) ++ [(n % 10).digitChar] :=
        Nat.toDigits_of_base_le (by omega) (by omega)
      obtain ⟨c, r, hcr, hc, ds, hspan, hn'⟩ := ih (n / 10) (by omega)
      refine ⟨c, r ++ [(n % 10).digitChar], by rw [hds, hcr]; rfl, fun h => ?_, ds ++ [n % 10], ?_, ?_⟩
      · have := hc h
        omega
      · rw [hds]
        exact spanDigits_concat hspan (digit?_digitChar _ (by omega))
      · rw [Text.ofDigits, List.foldl_append, ← Text.ofDigits, hn']
        simp only [List.foldl_cons, List.foldl_nil]
        omega

theorem spanNumeral?_digits (negative : Bool) (n : Nat) :
    ∃ ds, spanNumeral? negative (Decimal.digits n) = some (⟨negative, ds, [], none⟩, []) ∧
      Text.ofDigits ds = n := by
  obtain ⟨c, r, hcr, hc, ds, hspan, hn⟩ := spanDigits_digits n
  suffices hwhole : spanWhole? (Decimal.digits n) = some (ds, []) by
    exact ⟨ds, by simp [spanNumeral?, hwhole, spanFraction?, spanExponent?], hn⟩
  by_cases h0 : c = '0'
  · obtain rfl := hc h0
    obtain rfl : [0] = ds := (Prod.mk.inj hspan).1
    rfl
  · rw [hcr] at hspan ⊢
    unfold spanWhole?
    split
    · rename_i heq
      exact absurd (List.cons.inj heq).1 h0
    · rw [hspan]
      cases ds with
      | nil =>
        simp only [spanDigits] at hspan
        split at hspan <;> simp at hspan
      | cons d ds => rfl

theorem digits_head (n : Nat) :
    ∃ c r d, Decimal.digits n = c :: r ∧ Text.digit? c = some d := by
  obtain ⟨c, r, hcr, -, ds, hspan, -⟩ := spanDigits_digits n
  rw [hcr, spanDigits] at hspan
  cases hd : Text.digit? c with
  | none => simp [hd] at hspan
  | some d => exact ⟨c, r, d, hcr, hd⟩

/-- A number that is one token is the tree of that token. -/
theorem literal?_number {c : Char} {w : List Char} {n : Numeral} (hc : isGap c = false)
    (h : spanToken? (c :: w) = some (.number n, [])) : literal? (c :: w) = some (.number n) := by
  have hlex : lex? (c :: w) = some [.number n] := by
    have h := @lex?_cons c w [] (.number n) [] hc (by simpa using h) rfl
    simpa using h
  simp [literal?, hlex, Builder.start, Builder.step, Builder.openValue, Builder.accept,
    Builder.tree?]

/-- **Whole numbers that fit 64 bits, signed or unsigned, are read back.** -/
theorem readsBack_int {n : Int} (hlow : Int64.minValue.toInt ≤ n) (hhigh : n < UInt64.size) :
    ReadsBack (.int n) := by
  obtain ⟨c, r, d, hcr, hd⟩ := digits_head n.natAbs
  obtain ⟨ds, hspan, hds⟩ := spanNumeral?_digits (decide (n < 0)) n.natAbs
  obtain ⟨c', w, hw, hc', htoken⟩ : ∃ c' w, writeInt n = c' :: w ∧ StartsNumber c' ∧
      spanToken? (c' :: w) = some (.number ⟨decide (n < 0), ds, [], none⟩, []) := by
    unfold writeInt
    split
    · rename_i hn
      refine ⟨'-', _, rfl, Or.inl rfl, ?_⟩
      rw [decide_eq_true hn] at hspan
      rw [spanToken?, hspan, decide_eq_true hn]
      rfl
    · rename_i hn
      refine ⟨c, r, hcr, Or.inr ⟨d, hd⟩, ?_⟩
      rw [decide_eq_false hn, hcr] at hspan
      rw [spanToken?_digit hd, hspan, decide_eq_false hn]
      rfl
  have hparse : parse? (print (.int n)) = (literal? (c' :: w)).bind (·.value? maxDepth) := by
    simp [parse?, print, write, hw]
  rw [ReadsBack, hparse, literal?_number hc'.not_gap htoken, Option.bind_some, Literal.value?,
    Numeral.value?]
  simp only [Numeral.isWhole, List.isEmpty_nil, Option.isNone_none, Bool.and_self, Bool.true_and, hds]
  by_cases hn : n < 0
  · have hpos : 0 < n.natAbs := by omega
    have hvalue : -(n.natAbs : Int) = n := by omega
    simp only [hn, decide_true, Bool.not_true, Bool.false_and, hpos, hlow, Bool.and_self, hvalue,
      ↓reduceIte]
    rfl
  · have hrange : n.natAbs < UInt64.size := by omega
    have hvalue : (n.natAbs : Int) = n := by omega
    simp only [hn, decide_false, Bool.not_false, Bool.true_and, hrange, decide_true, hvalue,
      ↓reduceIte]

theorem startsNumber_writeInt (n : Int) : ∃ c w, writeInt n = c :: w ∧ StartsNumber c := by
  obtain ⟨c, r, d, hcr, hd⟩ := digits_head n.natAbs
  unfold writeInt
  split
  · exact ⟨'-', _, rfl, Or.inl rfl⟩
  · exact ⟨c, r, hcr, Or.inr ⟨d, hd⟩⟩

/-! ## Doubles -/

theorem startsNumber_decimal (layout : Decimal.Layout) (d : Decimal) :
    ∃ c w, d.text layout = c :: w ∧ StartsNumber c := by
  obtain ⟨c, r, x, hcr, hx⟩ := digits_head d.coefficient
  have hc : StartsNumber c := Or.inr ⟨x, hx⟩
  unfold Decimal.text
  split
  · unfold Decimal.positionalText
    simp only [hcr]
    split
    · exact ⟨c, _, rfl, hc⟩
    · split
      · rename_i hpoint
        obtain ⟨k, hk⟩ : ∃ k, (((c :: r).length : Int) + d.exponent).toNat = k + 1 :=
          ⟨_, (Nat.succ_pred_eq_of_pos (by omega)).symm⟩
        rw [hk]
        exact ⟨c, _, rfl, hc⟩
      · exact ⟨'0', _, rfl, Or.inr ⟨0, rfl⟩⟩
  · unfold Decimal.exponentText
    simp only [hcr]
    cases r with
    | nil => exact ⟨c, _, rfl, hc⟩
    | cons y r => exact ⟨c, _, rfl, hc⟩

/-- A finite double starts like a number. -/
theorem startsNumber_writeFloat {x : Float} (hx : x.isFinite = true) :
    ∃ c w, writeFloat x = c :: w ∧ StartsNumber c := by
  have hsigned : ∀ d, ∃ c w, (if Decimal.isNegative x then ['-'] else []) ++
      Decimal.text floatLayout d = c :: w ∧ StartsNumber c := by
    intro d
    split
    · exact ⟨'-', _, rfl, Or.inl rfl⟩
    · exact startsNumber_decimal floatLayout d
  rw [writeFloat, if_pos hx, Decimal.finiteText]
  cases Decimal.Binary.ofFloat? x with
  | none => exact hsigned _
  | some b => exact hsigned _

/-! ## Quoted texts -/

theorem hex4?_control : ∀ n < 32, hex4? '0' '0' (hexDigit (n / 16)) (hexDigit (n % 16)) = some n := by
  decide

theorem spanQuoted?_escape {x c : Char} (hx : escape? x = some c) (r : List Char) :
    spanQuoted? ('\\' :: x :: r) =
      (spanQuoted? r).map fun (ps, rest) => (.char c :: ps, rest) := by
  have hu : x ≠ 'u' := by
    rintro rfl
    simp [escape?] at hx
  rw [spanQuoted?, hx]
  · cases spanQuoted? r <;> rfl
  · rintro _ _ _ _ _ rfl
    exact absurd rfl hu

theorem spanQuoted?_plain {c : Char} (hquote : c ≠ '"') (hslash : c ≠ '\\')
    (hc : ¬ c.toNat < 0x20) (r : List Char) :
    spanQuoted? (c :: r) = (spanQuoted? r).map fun (ps, rest) => (.char c :: ps, rest) := by
  rw [spanQuoted?, if_neg hc]
  · cases spanQuoted? r <;> rfl
  · exact hquote
  · rintro _ _ _ _ _ rfl
    exact absurd rfl hslash
  · rintro _ _ rfl
    exact absurd rfl hslash

/-- A written character is one unit that stands for it. -/
theorem spanQuoted?_writeChar (c : Char) (r : List Char) :
    ∃ p, spanQuoted? (writeChar c ++ r) =
        (spanQuoted? r).map (fun (ps, rest) => (p :: ps, rest)) ∧
      ∀ ps, charsOfPieces? (p :: ps) = (charsOfPieces? ps).map (c :: ·) := by
  have hchar : ∀ ps, charsOfPieces? (.char c :: ps) = (charsOfPieces? ps).map (c :: ·) := by
    intro ps
    rw [charsOfPieces?]
  unfold writeChar
  split
  · exact ⟨.char c, spanQuoted?_escape (by subst c; rfl) r, hchar⟩
  split
  · exact ⟨.char c, spanQuoted?_escape (by subst c; rfl) r, hchar⟩
  split
  · exact ⟨.char c, spanQuoted?_escape (by subst c; rfl) r, hchar⟩
  split
  · exact ⟨.char c, spanQuoted?_escape (by subst c; rfl) r, hchar⟩
  split
  · exact ⟨.char c, spanQuoted?_escape (by subst c; rfl) r, hchar⟩
  split
  · exact ⟨.char c, spanQuoted?_escape (by subst c; rfl) r, hchar⟩
  split
  · exact ⟨.char c, spanQuoted?_escape (by subst c; rfl) r, hchar⟩
  split
  · rename_i hc
    refine ⟨.code c.toNat, ?_, fun ps => ?_⟩
    · simp only [List.cons_append, List.nil_append, spanQuoted?, hex4?_control _ hc]
      cases spanQuoted? r <;> rfl
    · rw [charsOfPieces?.eq_def]
      simp only
      rw [if_pos (Or.inl (by omega)), Char.ofNat_toNat]
  · rename_i hquote hslash _ _ _ _ _ hc
    exact ⟨.char c, spanQuoted?_plain hquote hslash hc r, hchar⟩

theorem spanQuoted?_chars (cs rest : List Char) :
    ∃ ps, spanQuoted? (cs.flatMap writeChar ++ '"' :: rest) = some (ps, rest) ∧
      charsOfPieces? ps = some cs := by
  induction cs with
  | nil => exact ⟨[], by simp [spanQuoted?], by simp [charsOfPieces?]⟩
  | cons c cs ih =>
    obtain ⟨ps, hps, hcs⟩ := ih
    obtain ⟨p, hp, hc⟩ := spanQuoted?_writeChar c (cs.flatMap writeChar ++ '"' :: rest)
    refine ⟨p :: ps, ?_, by rw [hc, hcs]; rfl⟩
    rw [List.flatMap_cons, List.append_assoc, hp, hps]
    rfl

/-- **A written text is one token that stands for it.** -/
theorem lex?_writeText (s : String) {rest : List Char} {ts : List Token}
    (hts : lex? rest = some ts) : lex? (writeText s ++ rest) = some (.quoted (some s) :: ts) := by
  obtain ⟨ps, hps, hcs⟩ := spanQuoted?_chars s.toList rest
  have htext : writeText s ++ rest = '"' :: ((s.toList.flatMap writeChar ++ ['"']) ++ rest) := by
    simp [writeText]
  have htoken : textOfPieces? ps = some s := by
    rw [textOfPieces?, hcs, Option.map_some, String.ofList_toList]
  rw [htext]
  refine lex?_cons rfl ?_ hts
  rw [spanToken?, List.append_assoc, List.cons_append, List.nil_append, hps, Option.map_some]
  simp only [htoken]

end Merchandising.Json

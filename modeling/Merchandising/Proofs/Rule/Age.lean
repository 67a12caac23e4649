/-
  Dates are compared by their age in days.

  * `midnight` and `dayOf` are when a day starts, and the day on which a moment falls, in seconds
    since the start of 1970-01-01; `Kept` are the days for which the calendar is kept;
  * `Bounds.admits` reads bounds as the midnights of the dates that they spell, `ReadsDates` is a
    reading of documents that takes ranges of a field so;
  * `Operator.Compares` is what an operator says of an age;
  * `dateBounds?_eq_some`: the bounds of an operator admit the days whose age it says that of, and
    `holds_dateRange`: so does the range with these bounds;
  * `ages_compared`: a condition fails if its operand is no number of days, or one that leads out of
    the calendar, then if its operator compares nothing, and otherwise compares ages.
-/
import Mathlib.Data.Rat.Floor
import Mathlib.Tactic.Linarith
import Merchandising.Proofs.Calendar
import Merchandising.Proofs.Query.Matching
import Merchandising.Rule.Translator

namespace Merchandising

/-! ## Moments and days -/

/-- When a day starts, in seconds since the start of 1970-01-01. -/
def midnight (d : Int) : ℚ := 86400 * d

/-- The day on which a moment falls. -/
def dayOf (moment : ℚ) : Int := ⌊moment / 86400⌋

theorem midnight_le_iff {d : Int} {moment : ℚ} : midnight d ≤ moment ↔ d ≤ dayOf moment := by
  rw [midnight, dayOf, Int.le_floor, le_div_iff₀ (by norm_num), mul_comm]

theorem lt_midnight_iff {d : Int} {moment : ℚ} : moment < midnight d ↔ dayOf moment < d := by
  rw [← not_le, midnight_le_iff, not_le]

/-- A moment falls on the day that has started and not ended. -/
theorem dayOf_eq_iff {d : Int} {moment : ℚ} :
    dayOf moment = d ↔ midnight d ≤ moment ∧ moment < midnight (d + 1) := by
  rw [midnight_le_iff, lt_midnight_iff]
  omega

/-- The calendar is kept for a day. -/
def Kept (d : Int) : Prop :=
  (⟨-262143, 1, 1⟩ : Date).number ≤ d ∧ d ≤ (⟨262142, 12, 31⟩ : Date).number

instance (d : Int) : Decidable (Kept d) := inferInstanceAs (Decidable (_ ∧ _))

theorem holds_iff_kept (d : Day) : Calendar.holds d = true ↔ Kept d := by
  have hfirst : Calendar.first = (⟨-262143, 1, 1⟩ : Date).number := by decide
  have hlast : Calendar.last = (⟨262142, 12, 31⟩ : Date).number := by decide
  rw [Calendar.holds, Bool.and_eq_true, decide_eq_true_eq, decide_eq_true_eq, hfirst, hlast, Kept]

/-! ## Bounds that are dates -/

/-- The midnight of the date that a value spells. -/
def Scalar.midnight? : Scalar → Option ℚ
  | .text s => (Date.ofText? s).map fun date => midnight date.number
  | _ => none

/-- A moment is within bounds that spell dates. -/
def Bounds.admits (b : Bounds) (moment : ℚ) : Bool :=
  (b.gt.all fun v => v.midnight?.any (· < moment)) &&
    (b.gte.all fun v => v.midnight?.any (· ≤ moment)) &&
    (b.lt.all fun v => v.midnight?.any (moment < ·)) &&
    (b.lte.all fun v => v.midnight?.any (moment ≤ ·))

/-- A reading of documents that takes ranges of a field as ranges of the moment that a document has
    there. -/
structure ReadsDates {Doc : Type} (I : Interpretation Doc) (field : String) (date : Doc → ℚ) :
    Prop where
  range : ∀ b d, I (.range field b) d = b.admits (date d)

/-- What an operator says of an age, compared with a number of days. -/
def Operator.Compares (op : Operator) (age days : Int) : Prop :=
  match op with
  | .equal => age = days
  | .notEqual => age ≠ days
  | .greater => days < age
  | .atLeast => days ≤ age
  | .less => age < days
  | .atMost => age ≤ days
  | .contains | .notContains | .oneOf | .notOneOf => False

/-- The number of days that an operand says. -/
def Operand.days? (o : Operand) : Option Int :=
  (o.single?.bind Scalar.int64?).map Int64.toInt

namespace Translator

/-- A day survives being written as a date. -/
theorem midnight?_dayValue (d : Day) : (dayValue d).midnight? = some (midnight d) := by
  rw [dayValue, Scalar.midnight?, Date.ofText?_text (Date.valid_ofDay d), Option.map_some,
    Date.number_ofDay]

/-- Bounds that are days admit the moments from the start of the one to the start of the other. -/
theorem admits_days (start stop : Option Int) (moment : ℚ) :
    { Bounds.none with gte := start.map dayValue, lt := stop.map dayValue }.admits moment = true ↔
      (∀ d ∈ start, d ≤ dayOf moment) ∧ ∀ d ∈ stop, dayOf moment < d := by
  have hstart : ((start.map dayValue).all fun v => v.midnight?.any (· ≤ moment)) = true ↔
      ∀ d ∈ start, d ≤ dayOf moment := by
    cases start <;> simp [midnight?_dayValue, midnight_le_iff]
  have hstop : ((stop.map dayValue).all fun v => v.midnight?.any (moment < ·)) = true ↔
      ∀ d ∈ stop, dayOf moment < d := by
    cases stop <;> simp [midnight?_dayValue, lt_midnight_iff]
  simp only [Bounds.admits, Bounds.none, Option.all_none, Bool.and_true, Bool.true_and,
    Bool.and_eq_true, hstart, hstop]

/-- Between the bounds of an operator are the days whose age the positive operator says so of. -/
theorem dateBounds?_eq_some {op : Operator} {today days : Int} {b : Bounds}
    (hb : dateBounds? op (today - days) (today - days + 1) = some b) :
    ∃ start stop : Option Int,
      b = { Bounds.none with gte := start.map dayValue, lt := stop.map dayValue } ∧
      ∀ D : Int, ((∀ d ∈ start, d ≤ D) ∧ ∀ d ∈ stop, D < d) ↔
        op.positive.Compares (today - D) days := by
  cases op with
  | equal | notEqual =>
    refine ⟨some (today - days), some (today - days + 1), (Option.some.inj hb).symm, fun D => ?_⟩
    simp only [Option.mem_some_iff, forall_eq', Operator.positive, Operator.Compares]
    omega
  | greater =>
    refine ⟨none, some (today - days), (Option.some.inj hb).symm, fun D => ?_⟩
    simp [Operator.positive, Operator.Compares]
    omega
  | atLeast =>
    refine ⟨none, some (today - days + 1), (Option.some.inj hb).symm, fun D => ?_⟩
    simp [Operator.positive, Operator.Compares]
    omega
  | less =>
    refine ⟨some (today - days + 1), none, (Option.some.inj hb).symm, fun D => ?_⟩
    simp [Operator.positive, Operator.Compares]
    omega
  | atMost =>
    refine ⟨some (today - days), none, (Option.some.inj hb).symm, fun D => ?_⟩
    simp [Operator.positive, Operator.Compares]
    omega
  | contains | notContains | oneOf | notOneOf => cases hb

/-- A range with these bounds, negated if the operator is `notEqual`, matches the documents whose
    age the operator says so of. -/
theorem holds_dateRange {Doc : Type} {I : Interpretation Doc} {field : String} {date : Doc → ℚ}
    (hI : ReadsDates I field date) {op : Operator} {today days : Int} {b : Bounds}
    (hb : dateBounds? op (today - days) (today - days + 1) = some b) (d : Doc) :
    ((Fragment.range field b).negateIf (op == .notEqual)).holds I d = true ↔
      op.Compares (today - dayOf (date d)) days := by
  have hrange : (Fragment.range field b).holds I d = true ↔
      op.positive.Compares (today - dayOf (date d)) days := by
    obtain ⟨start, stop, rfl, hdays⟩ := dateBounds?_eq_some hb
    rw [← hdays, ← admits_days, ← hI.range]
    rfl
  by_cases hop : op = .notEqual
  · subst hop
    show (Fragment.range field b).negate.holds I d = true ↔ _
    rw [Fragment.holds_negate, Bool.not_eq_true', ← Bool.not_eq_true, hrange]
    rfl
  · have hpositive : op.positive = op := by
      cases op with
      | notEqual => exact absurd rfl hop
      | notContains | notOneOf => cases hb
      | _ => rfl
    rw [beq_false_of_ne hop, ← hpositive, ← hrange]
    rfl

/-- The operators that have no bounds are those that compare nothing. -/
theorem dateBounds?_eq_none {op : Operator} {ref next : Day} : dateBounds? op ref next = none ↔
    op ∈ [Operator.contains, .notContains, .oneOf, .notOneOf] := by
  cases op <;> simp [dateBounds?]

section
variable {t : Translator} {code field : String} {op : Operator} {o : Operand}

/-- Without days for which the calendar is kept the operand is at fault, whatever the operator. -/
theorem relativeDate_invalid
    (h : ∀ n ∈ o.days?, ¬ (Kept (t.today - n) ∧ Kept (t.today - n + 1))) :
    ∃ fault, t.relativeDate ⟨code, op, o⟩ field = .error (.invalidOperand code fault) := by
  unfold relativeDate
  cases hview : o.single?.bind Scalar.int64? with
  | none => exact ⟨_, rfl⟩
  | some days =>
    have hnone : referenceDays? t.today days.toInt = none := by
      rw [referenceDays?, if_neg]
      rw [Bool.and_eq_true, holds_iff_kept, holds_iff_kept]
      exact h days.toInt (by rw [Operand.days?, hview]; rfl)
    simp only [hnone]
    exact ⟨_, rfl⟩

/-- With them it is the operator that decides. -/
theorem relativeDate_kept {n : Int} (hn : n ∈ o.days?)
    (hkept : Kept (t.today - n) ∧ Kept (t.today - n + 1)) :
    t.relativeDate ⟨code, op, o⟩ field =
      match dateBounds? op (t.today - n) (t.today - n + 1) with
      | none => .error (.unsupportedOperator code op.symbol)
      | some b => .ok ((Fragment.range field b).negateIf (op == .notEqual)) := by
  obtain ⟨days, hview, rfl⟩ := Option.map_eq_some_iff.1 hn
  have hsome : referenceDays? t.today days.toInt =
      some (t.today - days.toInt, t.today - days.toInt + 1) := by
    rw [referenceDays?, if_pos]
    rwa [Bool.and_eq_true, holds_iff_kept, holds_iff_kept]
  simp only [relativeDate, hview, hsome]
  rfl

/-- What is left: the operand is no number of days, or one of days that lead out of the calendar. -/
theorem not_exists_kept :
    (¬ ∃ n, o.days? = some n ∧ Kept (t.today - n) ∧ Kept (t.today - n + 1)) ↔
      o.days? = none ∨
        ∃ n, o.days? = some n ∧ (¬ Kept (t.today - n) ∨ ¬ Kept (t.today - n + 1)) := by
  cases o.days? with
  | none => simp
  | some n => simp only [reduceCtorEq, Option.some.injEq, exists_eq_left', false_or, not_and_or]

end

/-- **Dates are compared by their age in days.**  A condition on a field of dates fails because of
    its operand iff that is no number of days, or the calendar is not kept for the day so many days ago
    and the day after it; otherwise because of its operator iff that compares nothing; and otherwise
    it matches the documents whose date is as many days ago as the operator says. -/
theorem ages_compared (t : Translator) (ctx : Context) (code field : String)
    (hpolicy : t.registry.get? code = some (.date field)) (op : Operator) (o : Operand) :
    ((∃ fault, t.condition ctx ⟨code, op, o⟩ = .error (.invalidOperand code fault)) ↔
      o.days? = none ∨
        ∃ n, o.days? = some n ∧ (¬ Kept (t.today - n) ∨ ¬ Kept (t.today - n + 1))) ∧
    ((∃ symbol, t.condition ctx ⟨code, op, o⟩ = .error (.unsupportedOperator code symbol)) ↔
      (∃ n, o.days? = some n ∧ Kept (t.today - n) ∧ Kept (t.today - n + 1)) ∧
        op ∈ [Operator.contains, .notContains, .oneOf, .notOneOf]) ∧
    (∀ n, o.days? = some n → Kept (t.today - n) → Kept (t.today - n + 1) →
      op ∉ [Operator.contains, .notContains, .oneOf, .notOneOf] →
      ∃ f, t.condition ctx ⟨code, op, o⟩ = .ok f ∧
        ∀ {Doc : Type} (I : Interpretation Doc) (date : Doc → ℚ), ReadsDates I field date →
          ∀ d, f.holds I d = true ↔ op.Compares (t.today - dayOf (date d)) n) := by
  have hcondition : t.condition ctx ⟨code, op, o⟩ = t.relativeDate ⟨code, op, o⟩ field := by
    rw [condition, hpolicy]
  rw [hcondition, ← not_exists_kept]
  by_cases hdays : ∃ n, o.days? = some n ∧ Kept (t.today - n) ∧ Kept (t.today - n + 1)
  · obtain ⟨n, hn, hkept⟩ := hdays
    rw [relativeDate_kept hn hkept]
    cases hbounds : dateBounds? op (t.today - n) (t.today - n + 1) with
    | none =>
      have hop := dateBounds?_eq_none.1 hbounds
      refine ⟨iff_of_false ?_ ?_, iff_of_true ⟨_, rfl⟩ ⟨⟨n, hn, hkept⟩, hop⟩, ?_⟩
      · rintro ⟨fault, ⟨⟩⟩
      · exact not_not_intro ⟨n, hn, hkept⟩
      · intro n' _ _ _ hop'
        exact absurd hop hop'
    | some b =>
      have hop : op ∉ [Operator.contains, .notContains, .oneOf, .notOneOf] := by
        intro hop
        rw [dateBounds?_eq_none.2 hop] at hbounds
        cases hbounds
      refine ⟨iff_of_false ?_ ?_, iff_of_false ?_ fun h => hop h.2, ?_⟩
      · rintro ⟨fault, ⟨⟩⟩
      · exact not_not_intro ⟨n, hn, hkept⟩
      · rintro ⟨symbol, ⟨⟩⟩
      · intro n' hn' _ _ _
        obtain rfl := Option.some.inj (hn.symm.trans hn')
        exact ⟨_, rfl, fun I date hI d => holds_dateRange hI hbounds d⟩
  · have hfault : ∃ fault,
        t.relativeDate ⟨code, op, o⟩ field = .error (.invalidOperand code fault) :=
      relativeDate_invalid fun n hn hkept => hdays ⟨n, hn, hkept⟩
    obtain ⟨fault, hfault⟩ := hfault
    rw [hfault]
    refine ⟨iff_of_true ⟨_, rfl⟩ hdays, iff_of_false ?_ fun h => hdays h.1, ?_⟩
    · rintro ⟨symbol, ⟨⟩⟩
    · intro n hn hkept hkept' _
      exact absurd ⟨n, hn, hkept, hkept'⟩ hdays

/-- Documents that are moments, of which ranges of their date are read. -/
def readsMoments : Interpretation ℚ := fun q moment =>
  match q with
  | .range field b => field == "created_at" && b.admits moment
  | _ => false

/-- On the last day of the year 9999, what was created at most a day later: on the first day of the
    year 10000, whose date has a sign and five digits. -/
theorem ages_compared_year :
    let today := (⟨9999, 12, 31⟩ : Date).number
    let t : Translator := ⟨.standard, none, none, fun _ => .exact, today⟩
    ∃ f, t.condition ⟨1, 2⟩ ⟨"created_at", .equal, .single (.int (-1))⟩ = .ok f ∧
      f.holds readsMoments (midnight (today + 1) + 43200) = true ∧
      f.holds readsMoments (midnight (today + 2)) = false := by
  intro today t
  have hreads : ReadsDates readsMoments "created_at" id := ⟨fun b d => rfl⟩
  obtain ⟨-, -, h⟩ := ages_compared t ⟨1, 2⟩ "created_at" "created_at" rfl .equal
    (.single (.int (-1)))
  obtain ⟨f, hf, hholds⟩ := h (-1) rfl (by decide) (by decide) (by decide)
  have hday (d : Int) : dayOf (midnight d) = d := dayOf_eq_iff.2 ⟨le_refl _, by simp [midnight]⟩
  have hnoon : dayOf (midnight (today + 1) + 43200) = today + 1 := by
    refine dayOf_eq_iff.2 ⟨?_, ?_⟩
    · rw [midnight]
      norm_num
    · simp only [midnight]
      push_cast
      linarith
  refine ⟨f, hf, ?_, ?_⟩
  · rw [hholds readsMoments id hreads, id, hnoon]
    show today - (today + 1) = -1
    omega
  · rw [Bool.eq_false_iff, Ne, hholds readsMoments id hreads, id, hday]
    show today - (today + 2) ≠ -1
    omega

end Translator

end Merchandising

/-
  Written values are read back.

  * `numbers` are the numbers in a value, at any depth;
  * `toLiteral` is the tree of the text of a value;
  * `read_write` is the run of the machine over a written value, in front of any rest;
  * `literal?_print` and `parse?_print`: if every number reads back on its own, the text of a value
    is read as its tree, and as the value itself unless that nests too deep.
-/
import Merchandising.Proofs.Json.Tokens

namespace Merchandising.Json

mutual

/-- The numbers in a value. -/
def numbers : Json → List Json
  | .int n => [.int n]
  | .float x => [.float x]
  | .list items => listNumbers items
  | .record members => membersNumbers members
  | _ => []

/-- The numbers in the items of a list. -/
def listNumbers : List Json → List Json
  | [] => []
  | j :: r => numbers j ++ listNumbers r

/-- The numbers in the members of a record. -/
def membersNumbers : List (String × Json) → List Json
  | [] => []
  | (_, j) :: r => numbers j ++ membersNumbers r

end

mutual

/-- The tree of the text of a value. -/
def toLiteral : Json → Literal
  | .null => .null
  | .bool b => .bool b
  | .int n => (literal? (writeInt n)).getD .null
  | .float x => (literal? (writeFloat x)).getD .null
  | .text s => .quoted (some s)
  | .list items => .list (toLiterals items)
  | .record members => .record (toMembers members)

/-- The trees of the texts of some values. -/
def toLiterals : List Json → List Literal
  | [] => []
  | j :: r => toLiteral j :: toLiterals r

/-- The trees of the texts of some members. -/
def toMembers : List (String × Json) → List (Option String × Literal)
  | [] => []
  | (k, j) :: r => (some k, toLiteral j) :: toMembers r

end

/-! ## The machine on written texts -/

namespace Builder

/-- The state after the tokens of a text. -/
def read (b : Builder) (cs : List Char) : Option Builder :=
  (lex? cs).bind fun ts => ts.foldlM step b

theorem read_token {b b' b₂ : Builder} {cs rest : List Char} {t : Token}
    (hlex : ∀ {ts}, lex? rest = some ts → lex? cs = some (t :: ts)) (hstep : b.step t = some b')
    (h : b'.read rest = some b₂) : b.read cs = some b₂ := by
  obtain ⟨ts, hts, h⟩ := Option.bind_eq_some_iff.1 h
  rw [read, hlex hts, Option.bind_some, List.foldlM_cons, hstep]
  exact h

/-- The next token but the end of a list starts a value, with `stack` around it. -/
def Awaits (b : Builder) (stack : List Frame) : Prop :=
  ∀ t, t ≠ .closeList → b.step t = openValue stack t

theorem awaits_value (stack : List Frame) : Awaits ⟨stack, .value⟩ stack :=
  fun t _ => by cases t <;> rfl

theorem awaits_firstItem (items : List Literal) (stack : List Frame) :
    Awaits ⟨.list items :: stack, .firstItem⟩ (.list items :: stack) :=
  fun t ht => by cases t <;> first | rfl | exact absurd rfl ht

end Builder

theorem stops_writeItems (r : List Json) (rest : List Char) : Stops (writeItems r rest) := by
  cases r <;> simp [Stops, writeItems]

theorem stops_writeMembers (r : List (String × Json)) (rest : List Char) :
    Stops (writeMembers r rest) := by
  cases r <;> simp [Stops, writeMembers]

/-- A number that reads back is read as its tree in front of a rest. -/
theorem read_number {j : Json} {l : Literal} {c : Char} {w rest : List Char}
    (hstart : StartsNumber c) (hj : ReadsBack j) (hw : ∀ rest, write j rest = c :: w ++ rest)
    (hl : (literal? (c :: w)).getD .null = l) (hr : Stops rest) {b b₂ : Builder}
    {stack : List Frame} (hb : b.Awaits stack) (h : (Builder.accept l stack).read rest = some b₂) :
    b.read (write j rest) = some b₂ := by
  have hparse : parse? (print j) = (literal? (c :: w)).bind (·.value? maxDepth) := by
    simp [parse?, print, hw]
  obtain ⟨l', hl', -⟩ := Option.bind_eq_some_iff.1 (hparse.symm.trans hj)
  obtain rfl : l' = l := by simpa [hl'] using hl
  obtain ⟨n, rfl, hlex⟩ := number_token hstart hl'
  rw [hw]
  exact Builder.read_token (hlex hr) (hb _ (by simp)) h

theorem isFinite_of_readsBack {x : Float} (h : ReadsBack (.float x)) : x.isFinite = true := by
  rw [← Bool.not_eq_false]
  intro hx
  have hprint : print (.float x) = print .null := by simp [print, write, writeFloat, hx]
  rw [ReadsBack, hprint] at h
  have hnull : parse? (print .null) = some .null := rfl
  exact Json.noConfusion (Option.some.inj (h.symm.trans hnull))

mutual

/-- **The machine reads a written value as its tree.** -/
theorem read_write : ∀ (j : Json), (∀ n ∈ j.numbers, ReadsBack n) → ∀ {rest : List Char},
    Stops rest → ∀ {b b₂ : Builder} {stack : List Frame}, b.Awaits stack →
    (Builder.accept (toLiteral j) stack).read rest = some b₂ → b.read (write j rest) = some b₂
  | .null, _, rest, _, b, b₂, stack, hb, h =>
    Builder.read_token (fun hts => @lex?_cons 'n' ['u', 'l', 'l'] _ _ _ rfl rfl hts) (hb _ nofun) h
  | .bool true, _, rest, _, b, b₂, stack, hb, h =>
    Builder.read_token (fun hts => @lex?_cons 't' ['r', 'u', 'e'] _ _ _ rfl rfl hts) (hb _ nofun) h
  | .bool false, _, rest, _, b, b₂, stack, hb, h =>
    Builder.read_token (fun hts => @lex?_cons 'f' ['a', 'l', 's', 'e'] _ _ _ rfl rfl hts)
      (hb _ nofun) h
  | .int n, hn, rest, hr, b, b₂, stack, hb, h => by
    obtain ⟨c, w, hw, hc⟩ := startsNumber_writeInt n
    have hw' : ∀ rest, write (.int n) rest = c :: w ++ rest := fun rest => by rw [write, hw]
    exact read_number hc (hn _ (by simp [numbers])) hw' (by rw [toLiteral, hw]) hr hb h
  | .float x, hn, rest, hr, b, b₂, stack, hb, h => by
    have hx := hn (.float x) (by simp [numbers])
    obtain ⟨c, w, hw, hc⟩ := startsNumber_writeFloat (isFinite_of_readsBack hx)
    have hw' : ∀ rest, write (.float x) rest = c :: w ++ rest := fun rest => by rw [write, hw]
    exact read_number hc hx hw' (by rw [toLiteral, hw]) hr hb h
  | .text s, _, rest, _, b, b₂, stack, hb, h =>
    Builder.read_token (fun hts => lex?_writeText s hts) (hb _ nofun) h
  | .list [], _, rest, _, b, b₂, stack, hb, h => by
    refine Builder.read_token (fun hts => @lex?_cons '[' [] _ _ _ rfl rfl hts) (hb _ nofun) ?_
    exact Builder.read_token (fun hts => @lex?_cons ']' [] _ _ _ rfl rfl hts) rfl h
  | .list (j :: r), hn, rest, _, b, b₂, stack, hb, h => by
    have hj : ∀ n ∈ j.numbers, ReadsBack n := fun n hm => hn n (by simp [numbers, listNumbers, hm])
    refine Builder.read_token (fun hts => @lex?_cons '[' [] _ _ _ rfl rfl hts) (hb _ nofun) ?_
    refine read_write j hj (stops_writeItems r rest) (Builder.awaits_firstItem [] stack) ?_
    refine read_writeItems r (fun n hm => hn n (by simp [numbers, listNumbers, hm])) ?_
    exact h
  | .record [], _, rest, _, b, b₂, stack, hb, h => by
    refine Builder.read_token (fun hts => @lex?_cons '\x7b' [] _ _ _ rfl rfl hts) (hb _ nofun) ?_
    exact Builder.read_token (fun hts => @lex?_cons '\x7d' [] _ _ _ rfl rfl hts) rfl h
  | .record ((k, j) :: r), hn, rest, _, b, b₂, stack, hb, h => by
    have hj : ∀ n ∈ j.numbers, ReadsBack n :=
      fun n hm => hn n (by simp [numbers, membersNumbers, hm])
    refine Builder.read_token (fun hts => @lex?_cons '\x7b' [] _ _ _ rfl rfl hts) (hb _ nofun) ?_
    refine Builder.read_token (fun hts => lex?_writeText k hts) rfl ?_
    refine Builder.read_token (fun hts => @lex?_cons ':' [] _ _ _ rfl rfl hts) rfl ?_
    refine read_write j hj (stops_writeMembers r rest) (Builder.awaits_value _) ?_
    refine read_writeMembers r (fun n hm => hn n (by simp [numbers, membersNumbers, hm])) ?_
    exact h

/-- The same for the items of a list after the first ones. -/
theorem read_writeItems : ∀ (r : List Json), (∀ n ∈ listNumbers r, ReadsBack n) →
    ∀ {rest : List Char} {b₂ : Builder} {items : List Literal} {stack : List Frame},
    (Builder.accept (.list (items.reverse ++ toLiterals r)) stack).read rest = some b₂ →
    (⟨.list items :: stack, .separator⟩ : Builder).read (writeItems r rest) = some b₂
  | [], _, rest, b₂, items, stack, h =>
    Builder.read_token (fun hts => @lex?_cons ']' [] _ _ _ rfl rfl hts) rfl
      (by simpa [toLiterals] using h)
  | j :: r, hn, rest, b₂, items, stack, h => by
    have hj : ∀ n ∈ j.numbers, ReadsBack n := fun n hm => hn n (by simp [listNumbers, hm])
    refine Builder.read_token (fun hts => @lex?_cons ',' [] _ _ _ rfl rfl hts) rfl ?_
    refine read_write j hj (stops_writeItems r rest) (Builder.awaits_value _) ?_
    refine read_writeItems r (fun n hm => hn n (by simp [listNumbers, hm])) ?_
    simpa [toLiterals] using h

/-- The same for the members of a record after the first ones. -/
theorem read_writeMembers : ∀ (r : List (String × Json)), (∀ n ∈ membersNumbers r, ReadsBack n) →
    ∀ {rest : List Char} {b₂ : Builder} {members : List (Option String × Literal)}
      {stack : List Frame},
    (Builder.accept (.record (members.reverse ++ toMembers r)) stack).read rest = some b₂ →
    (⟨.record members none :: stack, .separator⟩ : Builder).read (writeMembers r rest) = some b₂
  | [], _, rest, b₂, members, stack, h =>
    Builder.read_token (fun hts => @lex?_cons '\x7d' [] _ _ _ rfl rfl hts) rfl
      (by simpa [toMembers] using h)
  | (k, j) :: r, hn, rest, b₂, members, stack, h => by
    have hj : ∀ n ∈ j.numbers, ReadsBack n := fun n hm => hn n (by simp [membersNumbers, hm])
    refine Builder.read_token (fun hts => @lex?_cons ',' [] _ _ _ rfl rfl hts) rfl ?_
    refine Builder.read_token (fun hts => lex?_writeText k hts) rfl ?_
    refine Builder.read_token (fun hts => @lex?_cons ':' [] _ _ _ rfl rfl hts) rfl ?_
    refine read_write j hj (stops_writeMembers r rest) (Builder.awaits_value _) ?_
    refine read_writeMembers r (fun n hm => hn n (by simp [membersNumbers, hm])) ?_
    simpa [toMembers] using h

end

/-- The text of a value is read as its tree. -/
theorem literal?_print {j : Json} (h : ∀ n ∈ j.numbers, ReadsBack n) :
    literal? (print j).toList = some j.toLiteral := by
  have hdone : (Builder.accept j.toLiteral []).read [] = some ⟨[], .done j.toLiteral⟩ := rfl
  have hread := read_write j h (by simp [Stops]) (Builder.awaits_value []) hdone
  obtain ⟨ts, hts, hb⟩ := Option.bind_eq_some_iff.1 hread
  have hts : lex? (print j).toList = some ts := by simpa [print] using hts
  have hb : ts.foldlM Builder.step Builder.start = some ⟨[], .done j.toLiteral⟩ := hb
  simp [literal?, hts, hb, Builder.tree?]

/-! ## The values of trees -/

/-- The tree of a number that reads back stands for it. -/
theorem value?_number {j : Json} {w : List Char} (hj : ReadsBack j)
    (hw : (print j).toList = w) (hc : ∃ c r, w = c :: r ∧ StartsNumber c) (depth : Nat) :
    ((literal? w).getD .null).value? depth = some j := by
  subst hw
  obtain ⟨l, hl, hj⟩ := Option.bind_eq_some_iff.1 hj
  obtain ⟨c, r, hcr, hc⟩ := hc
  obtain ⟨n, rfl, -⟩ := number_token hc (hcr ▸ hl)
  rw [hl, Option.getD_some, Literal.value?]
  rwa [Literal.value?] at hj

mutual

theorem value?_toLiteral : ∀ (j : Json), (∀ n ∈ j.numbers, ReadsBack n) → ∀ depth,
    j.toLiteral.value? depth = if j.depth ≤ depth then some j else none
  | .null, _, d => by simp [toLiteral, Literal.value?, depth]
  | .bool b, _, d => by simp [toLiteral, Literal.value?, depth]
  | .int n, hn, d => by
    have h := value?_number (hn (.int n) (by simp [numbers])) (by simp [print, write])
      (startsNumber_writeInt n) d
    simpa [toLiteral, depth] using h
  | .float x, hn, d => by
    have hx := hn (.float x) (by simp [numbers])
    have h := value?_number hx (by simp [print, write])
      (startsNumber_writeFloat (isFinite_of_readsBack hx)) d
    simpa [toLiteral, depth] using h
  | .text s, _, d => by simp [toLiteral, Literal.value?, depth]
  | .list items, hn, 0 => by simp [toLiteral, Literal.value?, depth]
  | .list items, hn, d + 1 => by
    rw [toLiteral, Literal.value?, values?_toLiterals items (by simpa [numbers] using hn), depth]
    by_cases h : listDepth items ≤ d <;> simp [h]
  | .record members, hn, 0 => by simp [toLiteral, Literal.value?, depth]
  | .record members, hn, d + 1 => by
    rw [toLiteral, Literal.value?, memberValues?_toMembers members (by simpa [numbers] using hn),
      depth]
    by_cases h : membersDepth members ≤ d <;> simp [h]

theorem values?_toLiterals : ∀ (r : List Json), (∀ n ∈ listNumbers r, ReadsBack n) → ∀ depth,
    Literal.values? depth (toLiterals r) = if listDepth r ≤ depth then some r else none
  | [], _, d => by simp [toLiterals, Literal.values?, listDepth]
  | j :: r, hn, d => by
    rw [toLiterals, Literal.values?, listDepth,
      value?_toLiteral j (fun n hm => hn n (by simp [listNumbers, hm])),
      values?_toLiterals r (fun n hm => hn n (by simp [listNumbers, hm]))]
    simp only [Nat.max_le]
    by_cases hj : j.depth ≤ d <;> by_cases hr : listDepth r ≤ d <;> simp [hj, hr]

theorem memberValues?_toMembers : ∀ (r : List (String × Json)),
    (∀ n ∈ membersNumbers r, ReadsBack n) → ∀ depth,
    Literal.memberValues? depth (toMembers r) = if membersDepth r ≤ depth then some r else none
  | [], _, d => by simp [toMembers, Literal.memberValues?, membersDepth]
  | (k, j) :: r, hn, d => by
    rw [toMembers, Literal.memberValues?, membersDepth,
      value?_toLiteral j (fun n hm => hn n (by simp [membersNumbers, hm])),
      memberValues?_toMembers r (fun n hm => hn n (by simp [membersNumbers, hm]))]
    simp only [Nat.max_le]
    by_cases hj : j.depth ≤ d <;> by_cases hr : membersDepth r ≤ d <;> simp [hj, hr]

end

end Merchandising.Json

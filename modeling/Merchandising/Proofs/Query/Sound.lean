/-
  What is read is written no deeper than it was, and with sound numbers.

  Texts may hold less than is written for them: a list of values in place of a record, null, fields
  that are left out.  They never hold something less deep.

  * `Each` says something of all numbers in a value;
  * `NoDeeper` and `Within` compare what is written with what was read, and with what stands around
    that; `Keeps` is a reader after which a writer makes nothing deeper, and nothing that would not
    be written as a number of the kind it is;
  * `ReadsField` is what a field of a value is read as; `of_field`, `of_fields₂` and the others take a
    value apart into such fields;
  * `AllWithin` collects the members of a record that is written;
  * `Scalar.keeps`, `Bounds.keeps` and the others: the readers of values, ranges and weights keep.
-/
import Merchandising.Proofs.Json.Finite
import Merchandising.Proofs.Query.RoundTrip

namespace Merchandising

namespace Json

variable {α : Type}

/-! ## Comparing values -/

/-- All numbers in a value satisfy `p`. -/
def Each (p : Json → Prop) (j : Json) : Prop := ∀ n ∈ j.numbers, p n

/-- A number is finite if it is a double. -/
def IsFinite : Json → Prop
  | .float x => x.isFinite = true
  | _ => True

theorem IsSound.isFinite {n : Json} (h : IsSound n) : IsFinite n := by
  cases n with
  | float x => exact h
  | _ => trivial

/-- A value nests no deeper than another one, and its numbers satisfy `p` if the doubles of that
    are finite. -/
def NoDeeper (p : Json → Prop) (a j : Json) : Prop := a.depth ≤ j.depth ∧ (j.Each IsFinite → a.Each p)

/-- A value nests less deep than another one, and its numbers satisfy `p` if the doubles of that
    are finite. -/
def Within (p : Json → Prop) (a j : Json) : Prop := a.depth < j.depth ∧ (j.Each IsFinite → a.Each p)

variable {p : Json → Prop}

theorem NoDeeper.within {a j k : Json} (h : NoDeeper p a j) (hk : Within IsFinite j k) :
    Within p a k :=
  ⟨Nat.lt_of_le_of_lt h.1 hk.1, fun hs => h.2 (hk.2 hs)⟩

theorem NoDeeper.trans {a j k : Json} (h : NoDeeper p a j) (hk : NoDeeper IsFinite j k) :
    NoDeeper p a k :=
  ⟨Nat.le_trans h.1 hk.1, fun hs => h.2 (hk.2 hs)⟩

theorem mem_listNumbers {n : Json} {items : List Json} :
    n ∈ listNumbers items ↔ ∃ j ∈ items, n ∈ j.numbers := by
  induction items with
  | nil => simp [listNumbers]
  | cons j r ih => simp [listNumbers, ih]

theorem mem_membersNumbers {n : Json} {members : List (String × Json)} :
    n ∈ membersNumbers members ↔ ∃ m ∈ members, n ∈ m.2.numbers := by
  induction members with
  | nil => simp [membersNumbers]
  | cons m r ih => simp [membersNumbers, ih]

theorem depth_list_le {items : List Json} {depth : Nat} (hd : 0 < depth)
    (h : ∀ a ∈ items, a.depth < depth) : (Json.list items).depth ≤ depth := by
  have hle : listDepth items < depth := by
    induction items with
    | nil => exact hd
    | cons a r ih =>
      rw [listDepth]
      exact Nat.max_lt.2 ⟨h a (by simp), ih fun x hx => h x (by simp [hx])⟩
  rw [Json.depth]
  exact hle

theorem depth_record_le {members : List (String × Json)} {depth : Nat} (hd : 0 < depth)
    (h : ∀ m ∈ members, m.2.depth < depth) : (Json.record members).depth ≤ depth := by
  have hle : membersDepth members < depth := by
    induction members with
    | nil => exact hd
    | cons m r ih =>
      rw [membersDepth]
      exact Nat.max_lt.2 ⟨h m (by simp), ih fun x hx => h x (by simp [hx])⟩
  rw [Json.depth]
  exact hle

theorem each_list {items : List Json} : (Json.list items).Each p ↔ ∀ a ∈ items, a.Each p := by
  simp only [Each, numbers, mem_listNumbers]
  exact ⟨fun h a ha n hn => h n ⟨a, ha, hn⟩, fun h n ⟨a, ha, hn⟩ => h a ha n hn⟩

theorem each_record {members : List (String × Json)} :
    (Json.record members).Each p ↔ ∀ m ∈ members, m.2.Each p := by
  simp only [Each, numbers, mem_membersNumbers]
  exact ⟨fun h m hm n hn => h n ⟨m, hm, hn⟩, fun h n ⟨m, hm, hn⟩ => h m hm n hn⟩

theorem within_list {j : Json} {items : List Json} (h : j ∈ items) :
    Within IsFinite j (.list items) :=
  ⟨depth_lt_list h, fun hs => each_list.1 hs j h⟩

theorem within_record {name : String} {j : Json} {members : List (String × Json)}
    (h : (name, j) ∈ members) : Within IsFinite j (.record members) :=
  ⟨depth_lt_record h, fun hs => each_record.1 hs (name, j) h⟩

theorem noDeeper_list {items : List Json} {j : Json} (hj : 0 < j.depth)
    (h : ∀ a ∈ items, Within p a j) : NoDeeper p (.list items) j :=
  ⟨depth_list_le hj fun a ha => (h a ha).1, fun hs => each_list.2 fun a ha => (h a ha).2 hs⟩

/-- The members of a record all stand within a value. -/
def AllWithin (p : Json → Prop) (members : List (String × Json)) (j : Json) : Prop :=
  ∀ m ∈ members, Within p m.2 j

theorem noDeeper_record {members : List (String × Json)} {j : Json} (hj : 0 < j.depth)
    (h : AllWithin p members j) : NoDeeper p (.record members) j :=
  ⟨depth_record_le hj fun m hm => (h m hm).1, fun hs => each_record.2 fun m hm => (h m hm).2 hs⟩

theorem AllWithin.nil {j : Json} : AllWithin p [] j := by
  simp [AllWithin]

theorem AllWithin.cons {name : String} {a j : Json} {members : List (String × Json)}
    (ha : Within p a j) (h : AllWithin p members j) : AllWithin p ((name, a) :: members) j :=
  List.forall_mem_cons.2 ⟨ha, h⟩

theorem AllWithin.append {members members' : List (String × Json)} {j : Json}
    (h : AllWithin p members j) (h' : AllWithin p members' j) : AllWithin p (members ++ members') j :=
  List.forall_mem_append.2 ⟨h, h'⟩

theorem within_text {j : Json} (hj : 0 < j.depth) (s : String) : Within p (.text s) j :=
  ⟨by simpa [depth] using hj, fun _ => by simp [Each, numbers]⟩

/-! ## Fields -/

theorem mem_of_member? {members : List (String × Json)} {name : String} {j : Json}
    (h : member? members name = some (some j)) : (name, j) ∈ members := by
  have hmem : ∀ m ∈ members.filter (fun m => decide (m.1 = name)), m ∈ members ∧ m.1 = name :=
    fun m hm => by simpa using hm
  rw [member?_eq] at h
  match hf : members.filter (fun m => decide (m.1 = name)) with
  | [] => simp [hf] at h
  | [m] =>
    obtain ⟨hm, hname⟩ := hmem m (by simp [hf])
    obtain rfl : m.2 = j := by simpa [hf] using h
    rwa [← hname]
  | m :: m' :: r => simp [hf, only] at h

theorem listSlots?_spec {slots : List Slot} {items : List Json} {vs : List (Option Json)}
    (h : listSlots? slots items = some vs) :
    vs.length = slots.length ∧ ∀ j, some j ∈ vs → j ∈ items := by
  induction slots generalizing items vs with
  | nil =>
    cases items with
    | nil =>
      obtain rfl : [] = vs := Option.some.inj h
      simp
    | cons a r => simp [listSlots?] at h
  | cons slot slots ih =>
    cases items with
    | nil =>
      rw [listSlots?] at h
      split at h
      · obtain ⟨vs, hvs, rfl⟩ := Option.map_eq_some_iff.1 h
        obtain ⟨hlength, hmem⟩ := ih hvs
        exact ⟨congrArg (· + 1) hlength, fun j hj => hmem j (by simpa using hj)⟩
      · simp at h
    | cons a r =>
      rw [listSlots?] at h
      obtain ⟨vs, hvs, rfl⟩ := Option.map_eq_some_iff.1 h
      obtain ⟨hlength, hmem⟩ := ih hvs
      refine ⟨congrArg (· + 1) hlength, fun j hj => ?_⟩
      rcases List.mem_cons.1 hj with hj | hj
      · obtain rfl := Option.some.inj hj
        simp
      · exact List.mem_cons_of_mem _ (hmem j hj)

theorem mapM_spec {β : Type} {read : β → Option α} {bs : List β} {as : List α}
    (h : bs.mapM read = some as) :
    as.length = bs.length ∧ ∀ a ∈ as, ∃ b ∈ bs, read b = some a := by
  induction bs generalizing as with
  | nil =>
    obtain rfl : [] = as := Option.some.inj h
    simp
  | cons b bs ih =>
    rw [List.mapM_cons] at h
    obtain ⟨a, ha, h⟩ := Option.bind_eq_some_iff.1 h
    obtain ⟨as', has', h⟩ := Option.bind_eq_some_iff.1 h
    obtain rfl : a :: as' = as := Option.some.inj h
    obtain ⟨hlength, hmem⟩ := ih has'
    refine ⟨congrArg (· + 1) hlength, fun x hx => ?_⟩
    rcases List.mem_cons.1 hx with rfl | hx
    · exact ⟨b, List.mem_cons_self, ha⟩
    · obtain ⟨b', hb', hread⟩ := hmem x hx
      exact ⟨b', List.mem_cons_of_mem _ hb', hread⟩

/-- What holds fields is a record or a list; every field has a value, which may be nothing, and what is
    a value stands within it. -/
theorem slots?_spec {slots : List Slot} {j : Json} {vs : List (Option Json)}
    (h : j.slots? slots = some vs) :
    0 < j.depth ∧ vs.length = slots.length ∧ ∀ v, some v ∈ vs → Within IsFinite v j := by
  cases j with
  | record members =>
    obtain ⟨hlength, hmem⟩ := mapM_spec h
    refine ⟨by simp [depth], hlength, fun v hv => ?_⟩
    obtain ⟨slot, -, hslot⟩ := hmem _ hv
    exact within_record (mem_of_member? hslot)
  | list items =>
    obtain ⟨hlength, hmem⟩ := listSlots?_spec h
    exact ⟨by simp [depth], hlength, fun v hv => within_list (hmem v hv)⟩
  | _ => simp [slots?] at h

/-- The value of a field, which stands within `j`, is read as `b`. -/
def ReadsField {β : Type} (read : Option Json → Option β) (j : Json) (b : β) : Prop :=
  ∃ v, (∀ x, v = some x → Within IsFinite x j) ∧ read v = some b

section
variable {β β₁ β₂ β₃ β₄ : Type} {j : Json} {a : α} {s₁ s₂ s₃ s₄ : Slot}
  {read : List (Option Json) → Option α} {read₁ : Option Json → Option β₁}
  {read₂ : Option Json → Option β₂} {read₃ : Option Json → Option β₃}
  {read₄ : Option Json → Option β₄}

theorem ReadsField.of_bind {field : Option Json → Option β} {next : β → Option α} {v : Option Json}
    (hv : ∀ x, v = some x → Within IsFinite x j) (h : (field v).bind next = some a) :
    ∃ b, ReadsField field j b ∧ next b = some a := by
  obtain ⟨b, hb, h⟩ := Option.bind_eq_some_iff.1 h
  exact ⟨b, ⟨v, hv, hb⟩, h⟩

theorem of_slots {slots : List Slot} (h : (j.slots? slots).bind read = some a) :
    ∃ vs, vs.length = slots.length ∧ 0 < j.depth ∧
      (∀ v ∈ vs, ∀ x, v = some x → Within IsFinite x j) ∧ read vs = some a := by
  obtain ⟨vs, hvs, h⟩ := Option.bind_eq_some_iff.1 h
  obtain ⟨hj, hlength, hwithin⟩ := slots?_spec hvs
  refine ⟨vs, hlength, hj, ?_, h⟩
  rintro _ hv x rfl
  exact hwithin x hv

/-- What is read from one field. -/
theorem of_field {make : β₁ → α} (h : (j.slots? [s₁]).bind read = some a)
    (hread : ∀ v₁, read [v₁] = (read₁ v₁).bind fun b₁ => some (make b₁)) :
    ∃ b₁, 0 < j.depth ∧ ReadsField read₁ j b₁ ∧ make b₁ = a := by
  obtain ⟨vs, hlength, hj, hin, h⟩ := of_slots h
  obtain ⟨v₁, rfl⟩ := List.length_eq_one_iff.1 hlength
  simp only [List.forall_mem_cons] at hin
  rw [hread] at h
  obtain ⟨b₁, h₁, h⟩ := ReadsField.of_bind hin.1 h
  exact ⟨b₁, hj, h₁, Option.some.inj h⟩

/-- What is read from two fields. -/
theorem of_fields₂ {make : β₁ → β₂ → α} (h : (j.slots? [s₁, s₂]).bind read = some a)
    (hread : ∀ v₁ v₂, read [v₁, v₂] = (read₁ v₁).bind fun b₁ => (read₂ v₂).bind fun b₂ =>
      some (make b₁ b₂)) :
    ∃ b₁ b₂, 0 < j.depth ∧ ReadsField read₁ j b₁ ∧ ReadsField read₂ j b₂ ∧ make b₁ b₂ = a := by
  obtain ⟨vs, hlength, hj, hin, h⟩ := of_slots h
  obtain ⟨v₁, v₂, rfl⟩ := List.length_eq_two.1 hlength
  simp only [List.forall_mem_cons] at hin
  rw [hread] at h
  obtain ⟨b₁, h₁, h⟩ := ReadsField.of_bind hin.1 h
  obtain ⟨b₂, h₂, h⟩ := ReadsField.of_bind hin.2.1 h
  exact ⟨b₁, b₂, hj, h₁, h₂, Option.some.inj h⟩

/-- What is read from three fields. -/
theorem of_fields₃ {make : β₁ → β₂ → β₃ → α} (h : (j.slots? [s₁, s₂, s₃]).bind read = some a)
    (hread : ∀ v₁ v₂ v₃, read [v₁, v₂, v₃] = (read₁ v₁).bind fun b₁ => (read₂ v₂).bind fun b₂ =>
      (read₃ v₃).bind fun b₃ => some (make b₁ b₂ b₃)) :
    ∃ b₁ b₂ b₃, 0 < j.depth ∧ ReadsField read₁ j b₁ ∧ ReadsField read₂ j b₂ ∧
      ReadsField read₃ j b₃ ∧ make b₁ b₂ b₃ = a := by
  obtain ⟨vs, hlength, hj, hin, h⟩ := of_slots h
  obtain ⟨v₁, v₂, v₃, rfl⟩ := List.length_eq_three.1 hlength
  simp only [List.forall_mem_cons] at hin
  rw [hread] at h
  obtain ⟨b₁, h₁, h⟩ := ReadsField.of_bind hin.1 h
  obtain ⟨b₂, h₂, h⟩ := ReadsField.of_bind hin.2.1 h
  obtain ⟨b₃, h₃, h⟩ := ReadsField.of_bind hin.2.2.1 h
  exact ⟨b₁, b₂, b₃, hj, h₁, h₂, h₃, Option.some.inj h⟩

/-- What is read from four fields. -/
theorem of_fields₄ {make : β₁ → β₂ → β₃ → β₄ → α}
    (h : (j.slots? [s₁, s₂, s₃, s₄]).bind read = some a)
    (hread : ∀ v₁ v₂ v₃ v₄, read [v₁, v₂, v₃, v₄] = (read₁ v₁).bind fun b₁ =>
      (read₂ v₂).bind fun b₂ => (read₃ v₃).bind fun b₃ => (read₄ v₄).bind fun b₄ =>
        some (make b₁ b₂ b₃ b₄)) :
    ∃ b₁ b₂ b₃ b₄, 0 < j.depth ∧ ReadsField read₁ j b₁ ∧ ReadsField read₂ j b₂ ∧
      ReadsField read₃ j b₃ ∧ ReadsField read₄ j b₄ ∧ make b₁ b₂ b₃ b₄ = a := by
  obtain ⟨vs, hlength, hj, hin, h⟩ := of_slots h
  match vs, hlength with
  | [v₁, v₂, v₃, v₄], _ =>
    simp only [List.forall_mem_cons] at hin
    rw [hread] at h
    obtain ⟨b₁, h₁, h⟩ := ReadsField.of_bind hin.1 h
    obtain ⟨b₂, h₂, h⟩ := ReadsField.of_bind hin.2.1 h
    obtain ⟨b₃, h₃, h⟩ := ReadsField.of_bind hin.2.2.1 h
    obtain ⟨b₄, h₄, h⟩ := ReadsField.of_bind hin.2.2.2.1 h
    exact ⟨b₁, b₂, b₃, b₄, hj, h₁, h₂, h₃, h₄, Option.some.inj h⟩

end

/-- What is left of a record without its tag is no deeper. -/
theorem noDeeper_tagged {place : Place} {key : String} {kinds : List (String × α)} {j fields : Json}
    {kind : α} (h : j.tagged? place key kinds = some (kind, fields)) :
    NoDeeper IsFinite fields j := by
  cases j with
  | record members =>
    obtain ⟨_, _, h⟩ := Option.bind_eq_some_iff.1 h
    obtain ⟨_, _, h⟩ := Option.bind_eq_some_iff.1 h
    obtain ⟨_, _, h⟩ := Option.bind_eq_some_iff.1 h
    obtain ⟨-, rfl⟩ := Prod.mk.inj (Option.some.inj h)
    exact noDeeper_record (by simp [depth]) fun m hm => within_record (List.mem_filter.1 hm).1
  | list items =>
    cases items with
    | nil => simp [tagged?] at h
    | cons tag items =>
      obtain ⟨_, _, h⟩ := Option.map_eq_some_iff.1 h
      obtain ⟨-, rfl⟩ := Prod.mk.inj h
      exact noDeeper_list (by simp [depth]) fun a ha => within_list (List.mem_cons_of_mem _ ha)
  | _ => simp [tagged?] at h

/-! ## Readers and writers -/

/-- What is written for what was read is no deeper, and sound if its doubles were finite. -/
def Keeps (read : Json → Option α) (write : α → Json) : Prop :=
  ∀ j a, read j = some a → NoDeeper IsSound (write a) j

section
variable {read : Json → Option α} {write : α → Json} (hk : Keeps read write)
include hk

theorem keeps_list : Keeps (listOf? read) fun as => .list (as.map write) := by
  intro j as h
  obtain ⟨items, hitems, h⟩ := Option.bind_eq_some_iff.1 h
  cases j with
  | list items' =>
    obtain rfl : items' = items := Option.some.inj hitems
    refine noDeeper_list (by simp [depth]) fun x hx => ?_
    obtain ⟨a, ha, rfl⟩ := List.mem_map.1 hx
    obtain ⟨b, hb, hread⟩ := (mapM_spec h).2 a ha
    exact (hk _ _ hread).within (within_list hb)
  | _ => simp [list?] at hitems

variable {j : Json}

theorem within_required {a : α} (h : ReadsField (required? read) j a) :
    Within IsSound (write a) j := by
  obtain ⟨v, hv, h⟩ := h
  cases v with
  | none => simp [required?] at h
  | some x => exact (hk _ _ h).within (hv x rfl)

theorem allWithin_optional {name : String} {o : Option α} (h : ReadsField (optional? read) j o) :
    AllWithin IsSound (Query.optionalMember name write o) j := by
  obtain ⟨v, hv, h⟩ := h
  cases o with
  | none => exact .nil
  | some a =>
    refine .cons ?_ .nil
    unfold optional? at h
    split at h
    · simp at h
    · simp at h
    · rename_i x _
      obtain ⟨a', ha', h⟩ := Option.map_eq_some_iff.1 h
      obtain rfl := Option.some.inj h
      exact (hk _ _ ha').within (hv x rfl)

theorem allWithin_clauses {name : String} {as : List α}
    (h : ReadsField (defaulted? [] (listOf? read)) j as) :
    AllWithin IsSound (Query.clauseMember name (as.map write)) j := by
  obtain ⟨v, hv, h⟩ := h
  cases as with
  | nil => exact .nil
  | cons a as =>
    cases v with
    | none => simp [defaulted?] at h
    | some x => exact .cons ((keeps_list hk _ _ h).within (hv x rfl)) .nil

end

theorem keeps_text : Keeps text? .text := by
  intro j s h
  cases j with
  | text t => exact ⟨Nat.le_refl _, fun _ => by simp [Each, numbers]⟩
  | _ => simp [text?] at h

theorem each_int {n : Int} (h : IsSound (.int n)) : (Json.int n).Each IsSound := by
  simp only [Each, numbers, List.mem_singleton, forall_eq]
  exact h

theorem each_float {x : Float} : (Json.float x).Each p ↔ p (.float x) := by
  simp only [Each, numbers, List.mem_singleton, forall_eq]

theorem keeps_word32 : Keeps word32? fun n => .int n.toNat := by
  intro j n _
  have h : n.toNat < UInt64.size := Nat.lt_trans n.toNat_lt_size (by decide)
  exact ⟨Nat.zero_le _, fun _ => each_int (isSound_natural h)⟩

theorem keeps_float : Keeps float? .float := by
  intro j x h
  refine ⟨Nat.zero_le _, fun hj => each_float.2 ?_⟩
  cases j with
  | float y =>
    obtain rfl := Option.some.inj h
    exact (each_float (p := IsFinite)).1 hj
  | int n =>
    obtain rfl := Option.some.inj h
    exact isFinite_roundInt n
  | _ => simp [float?] at h

end Json

open Json (NoDeeper Within AllWithin Keeps keeps_text keeps_float keeps_word32 keeps_list
  of_fields₃ of_fields₄ within_text within_required allWithin_optional allWithin_clauses
  noDeeper_record noDeeper_tagged)

/-! ## Values -/

theorem Scalar.keeps : Keeps Scalar.ofJson? Scalar.toJson := by
  intro j v h
  refine ⟨by cases v <;> exact Nat.zero_le _, fun hj => ?_⟩
  cases v with
  | int n =>
    exact Json.each_int ⟨n.minValue_le_toInt, Int.lt_of_le_of_lt n.toInt_le (by decide)⟩
  | float x =>
    refine Json.each_float.2 ?_
    cases j with
    | float y =>
      obtain rfl := Scalar.float.inj (Option.some.inj h)
      exact (Json.each_float (p := Json.IsFinite)).1 hj
    | int n =>
      simp only [ofJson?] at h
      split at h
      · simp at h
      · obtain rfl := Scalar.float.inj (Option.some.inj h)
        exact Json.isFinite_roundInt n
    | _ => simp [ofJson?] at h
  | _ => simp [Json.Each, Json.numbers, toJson]

theorem Bounds.keeps : Keeps Bounds.ofJson? Query.boundsJson := by
  intro j b h
  obtain ⟨gt, gte, lt, lte, hj, hgt, hgte, hlt, hlte, rfl⟩ := of_fields₄ h fun _ _ _ _ => rfl
  refine noDeeper_record hj (((AllWithin.append ?_ ?_).append ?_).append ?_)
  · exact allWithin_optional Scalar.keeps hgt
  · exact allWithin_optional Scalar.keeps hgte
  · exact allWithin_optional Scalar.keeps hlt
  · exact allWithin_optional Scalar.keeps hlte

theorem FieldFactor.keeps : Keeps FieldFactor.ofJson? Query.factorJson := by
  intro j f h
  obtain ⟨field, factor, missing, hj, -, hfactor, hmissing, rfl⟩ := of_fields₃ h fun _ _ _ => rfl
  refine noDeeper_record hj (.cons (within_text hj _) (.cons ?_ ?_))
  · exact within_required keeps_float hfactor
  · exact allWithin_optional keeps_float hmissing

theorem KeyedMap.mem_ofList {β : Type} {es : List (String × β)} {e : String × β}
    (h : e ∈ (KeyedMap.ofList es).entries) : e ∈ es := by
  have hfold : ∀ (es : List (String × β)) (m : KeyedMap β),
      e ∈ (es.foldl (fun m e => m.insert e.1 e.2) m).entries → e ∈ m.entries ∨ e ∈ es := by
    intro es
    induction es with
    | nil => exact fun m h => Or.inl h
    | cons a es ih =>
      intro m h
      rcases ih _ h with h | h
      · rcases Keyed.mem_put h with rfl | h
        · exact Or.inr (by simp)
        · exact Or.inl h
      · exact Or.inr (List.mem_cons_of_mem _ h)
  exact (hfold es .empty h).resolve_left List.not_mem_nil

theorem Weights.keeps : Keeps Weights.ofJson? Query.weightsJson := by
  intro j w h
  cases j with
  | record members =>
    obtain ⟨es, hes, rfl⟩ := Option.map_eq_some_iff.1 h
    refine noDeeper_record (by simp [Json.depth]) fun m hm => ?_
    obtain ⟨⟨k, x⟩, he, rfl⟩ := List.mem_map.1 hm
    obtain ⟨m', hm', hread⟩ := (Json.mapM_spec hes).2 _ (KeyedMap.mem_ofList he)
    obtain ⟨y, hy, hread⟩ := Option.map_eq_some_iff.1 hread
    obtain ⟨-, rfl⟩ := Prod.mk.inj hread
    exact (keeps_float _ _ hy).within (Json.within_record hm')
  | _ => simp [ofJson?] at h

theorem keeps_texts : Keeps textsOfJson? Query.textsJson :=
  keeps_list keeps_text

theorem allWithin_mode {j : Json} (hj : 0 < j.depth) {name : String}
    (mode : Option CombineMode) : AllWithin IsSound (Query.optionalMember name Query.modeJson mode) j := by
  cases mode with
  | none => exact .nil
  | some m => exact .cons (within_text hj _) .nil

end Merchandising

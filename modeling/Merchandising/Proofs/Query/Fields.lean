/-
  Reading the fields that were written.

  * `only` is what the members of one name hold, and `member?` is `only` of these members;
  * `member?_optional` and `member?_clauses` read members that are left out if they are not set;
  * `tagged?_kindRecord` takes the kind off a condition;
  * `optional?_map`, `listOf?_map` and the others lift a reader that undoes a writer.
-/
import Merchandising.Query.Envelope

namespace Merchandising

namespace Json

variable {α : Type}

/-! ## Members -/

/-- What the members of one name hold. -/
def only : List (String × Json) → Option (Option Json)
  | [] => some none
  | [(_, j)] => some (some j)
  | _ => none

theorem member?_eq (members : List (String × Json)) (name : String) :
    member? members name = only (members.filter fun m => decide (m.1 = name)) := rfl

@[simp] theorem only_nil : only [] = some none := rfl

@[simp] theorem only_single (m : String × Json) : only [m] = some (some m.2) := rfl

@[simp] theorem filter_optionalMember (name key : String) (write : α → Json) (o : Option α) :
    (Query.optionalMember name write o).filter (fun m => decide (m.1 = key)) =
      if name = key then Query.optionalMember name write o else [] := by
  cases o <;> by_cases h : name = key <;> simp [Query.optionalMember, h]

@[simp] theorem filter_clauseMember (name key : String) (js : List Json) :
    (Query.clauseMember name js).filter (fun m => decide (m.1 = key)) =
      if name = key then Query.clauseMember name js else [] := by
  cases js <;> by_cases h : name = key <;> simp [Query.clauseMember, h]

@[simp] theorem only_optionalMember (name : String) (write : α → Json) (o : Option α) :
    only (Query.optionalMember name write o) = some (o.map write) := by
  cases o <;> rfl

/-- A list of clauses, or nothing if there is none. -/
def clauses? : List Json → Option Json
  | [] => none
  | js => some (.list js)

@[simp] theorem only_clauseMember (name : String) (js : List Json) :
    only (Query.clauseMember name js) = some (clauses? js) := by
  cases js <;> rfl

/-! ## Depth -/

theorem depth_lt_list {j : Json} {items : List Json} (h : j ∈ items) :
    j.depth < (Json.list items).depth := by
  rw [depth]
  induction items with
  | nil => simp at h
  | cons a r ih =>
    rw [listDepth]
    rcases List.mem_cons.1 h with rfl | h
    · omega
    · have := ih h
      omega

theorem depth_lt_record {name : String} {j : Json} {members : List (String × Json)}
    (h : (name, j) ∈ members) : j.depth < (Json.record members).depth := by
  rw [depth]
  induction members with
  | nil => simp at h
  | cons a r ih =>
    obtain ⟨k, v⟩ := a
    rw [membersDepth]
    rcases List.mem_cons.1 h with h | h
    · obtain ⟨-, rfl⟩ := Prod.mk.inj h
      omega
    · have := ih h
      omega

theorem mem_clauseMember {name : String} {j : Json} {js : List Json} (h : j ∈ js) :
    (name, Json.list js) ∈ Query.clauseMember name js := by
  cases js with
  | nil => simp at h
  | cons a r => simp [Query.clauseMember]

theorem mem_optionalMember {name : String} {write : α → Json} {o : Option α} {a : α}
    (h : a ∈ o) : (name, write a) ∈ Query.optionalMember name write o := by
  obtain rfl : o = some a := h
  simp [Query.optionalMember]

/-! ## Readers that undo writers -/

@[simp] theorem required?_some (read : Json → Option α) (j : Json) :
    required? read (some j) = read j := rfl

@[simp] theorem text?_text (s : String) : text? (.text s) = some s := rfl

@[simp] theorem float?_float (x : Float) : float? (.float x) = some x := rfl

theorem optional?_map {read : Json → Option α} {write : α → Json} {o : Option α}
    (hread : ∀ a ∈ o, read (write a) = some a) (hnull : ∀ a, write a ≠ .null) :
    optional? read (o.map write) = some o := by
  cases o with
  | none => rfl
  | some a =>
    have hn := hnull a
    have hr := hread a rfl
    rw [Option.map_some]
    unfold optional?
    split
    · rename_i h
      simp at h
    · rename_i h
      exact absurd (Option.some.inj h) hn
    · rename_i h
      rw [← Option.some.inj h, hr]
      rfl

theorem mapM_map {β : Type} {read : β → Option α} {write : α → β} {as : List α}
    (hread : ∀ a ∈ as, read (write a) = some a) : (as.map write).mapM read = some as := by
  induction as with
  | nil => rfl
  | cons a as ih =>
    rw [List.map_cons, List.mapM_cons, hread a (by simp), ih fun x hx => hread x (by simp [hx])]
    rfl

theorem listOf?_map {read : Json → Option α} {write : α → Json} {as : List α}
    (hread : ∀ a ∈ as, read (write a) = some a) :
    listOf? read (.list (as.map write)) = some as :=
  mapM_map hread

theorem defaulted?_clauses {read : Json → Option α} {write : α → Json} {as : List α}
    (hread : ∀ a ∈ as, read (write a) = some a) :
    defaulted? [] (listOf? read) (clauses? (as.map write)) = some as := by
  cases as with
  | nil => rfl
  | cons a as => exact listOf?_map hread

@[simp] theorem word32?_int (n : UInt32) : word32? (.int n.toNat) = some n := by
  have h : (n.toNat : Int) < UInt32.size := Int.ofNat_lt.2 n.toNat_lt_size
  rw [word32?, if_pos ⟨Int.natCast_nonneg _, h⟩, Int.toNat_natCast, UInt32.ofNat_toNat]

@[simp] theorem word64?_int (n : UInt64) : word64? (.int n.toNat) = some n := by
  have h : (n.toNat : Int) < UInt64.size := Int.ofNat_lt.2 n.toNat_lt_size
  rw [word64?, if_pos ⟨Int.natCast_nonneg _, h⟩, Int.toNat_natCast, UInt64.ofNat_toNat]

/-- The kind of a condition, and its fields. -/
theorem tagged?_kindRecord {place : Place} {kind : String} {k : QueryKind}
    {fields : List (String × Json)} (hk : QueryKind.names.lookup kind = some k)
    (hfields : fields.filter (fun m => decide (m.1 = "type")) = []) :
    tagged? place "type" QueryKind.names (Query.kindRecord kind fields) =
      some (k, .record fields) := by
  have hkeep : fields.filter (fun m => decide (m.1 ≠ "type")) = fields := by
    rw [List.filter_eq_self]
    intro m hm
    have := List.filter_eq_nil_iff.1 hfields m hm
    simpa using this
  have htag : member? (("type", Json.text kind) :: fields) "type" = some (some (.text kind)) := by
    rw [member?_eq, List.filter_cons_of_pos (by simp), hfields]
    rfl
  rw [Query.kindRecord, tagged?, htag]
  simp only [Option.bind_eq_bind, Option.bind_some, tag?, hk]
  rw [List.filter_cons_of_neg (by simp), hkeep]
  rfl

end Json

end Merchandising

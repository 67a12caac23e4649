/-
  Reading the parts of a JSON value.

  A record with declared fields is written with their names, in any order and among others that
  are ignored, or as a list of their values in the order of declaration (`slots?`).  One of several
  kinds of record names its kind in a member of its own, or as the first item (`tagged?`).  A name
  out of a fixed choice is written as a text (`choice?`).

  Inside a tagged record the format is more liberal: there a kind may also be given by its
  position in the list of kinds, and a choice by a record with its name as only member.
-/
import Merchandising.Json.Numeral

namespace Merchandising.Json

/-! ## Plain values -/

/-- A truth value. -/
def bool? : Json → Option Bool
  | .bool b => some b
  | _ => none

/-- A text. -/
def text? : Json → Option String
  | .text s => some s
  | _ => none

/-- The items of a list. -/
def list? : Json → Option (List Json)
  | .list items => some items
  | _ => none

/-- A whole number. -/
def int? : Json → Option Int
  | .int n => some n
  | _ => none

/-- A word of 64 bits. -/
def word64? : Json → Option UInt64
  | .int n => if 0 ≤ n ∧ n < UInt64.size then some (UInt64.ofNat n.toNat) else none
  | _ => none

/-- A word of 32 bits. -/
def word32? : Json → Option UInt32
  | .int n => if 0 ≤ n ∧ n < UInt32.size then some (UInt32.ofNat n.toNat) else none
  | _ => none

/-- The double next to a whole number of a text. -/
def roundInt (n : Int) : Float :=
  if n < 0 then -Numeral.roundNat n.natAbs else Numeral.roundNat n.natAbs

/-- A double; a whole number is rounded to one. -/
def float? : Json → Option Float
  | .float x => some x
  | .int n => some (roundInt n)
  | _ => none

/-- A list of which every item is read by `read`. -/
def listOf? {α : Type} (read : Json → Option α) (j : Json) : Option (List α) :=
  j.list?.bind (·.mapM read)

/-! ## Fields -/

/-- A field that has to be there. -/
def required? {α : Type} (read : Json → Option α) : Option Json → Option α
  | none => none
  | some j => read j

/-- A field that may be absent or null. -/
def optional? {α : Type} (read : Json → Option α) : Option Json → Option (Option α)
  | none | some .null => some none
  | some j => (read j).map some

/-- A field that may be absent, and then has the value `d`. -/
def defaulted? {α : Type} (d : α) (read : Json → Option α) : Option Json → Option α
  | none => some d
  | some j => read j

/-! ## Records with declared fields -/

/-- A declared field. -/
structure Slot where
  name : String
  /-- Whether a list of values may end before this field. -/
  omittable : Bool
  deriving DecidableEq, Repr

/-- A field that a list of values has to hold. -/
def Slot.needed (name : String) : Slot := ⟨name, false⟩

/-- A field that a list of values may leave out at its end. -/
def Slot.omitted (name : String) : Slot := ⟨name, true⟩

/-- The only member of a name: nothing if it is repeated. -/
def member? (members : List (String × Json)) (name : String) : Option (Option Json) :=
  match members.filter (·.1 = name) with
  | [] => some none
  | [(_, j)] => some (some j)
  | _ => none

/-- The values of a list, one per field. -/
def listSlots? : List Slot → List Json → Option (List (Option Json))
  | [], [] => some []
  | [], _ :: _ => none
  | slot :: slots, [] => if slot.omittable then (listSlots? slots []).map (none :: ·) else none
  | _ :: slots, j :: r => (listSlots? slots r).map (some j :: ·)

/-- What a record holds for each of its declared fields. -/
def slots? (slots : List Slot) : Json → Option (List (Option Json))
  | .record members => slots.mapM fun slot => member? members slot.name
  | .list items => listSlots? slots items
  | _ => none

/-! ## Choices and tags -/

/-- Where a value stands: inside a tagged record, or not. -/
inductive Place where
  | outer
  | tagged
  deriving DecidableEq, Repr

/-- A value that says no more than that a choice was made. -/
def isEmptyChoice (place : Place) : Json → Bool
  | .null => true
  | .record [] => place == .tagged
  | _ => false

/-- One of the named values of `names`. -/
def choice? {α : Type} (place : Place) (names : List (String × α)) : Json → Option α
  | .text s => names.lookup s
  | .record [(s, j)] => if isEmptyChoice place j then names.lookup s else none
  | _ => none

/-- The kind that a tag names, or, inside a tagged record, gives by its position. -/
def tag? {α : Type} (place : Place) (kinds : List (String × α)) : Json → Option α
  | .text s => kinds.lookup s
  | .int n =>
    if place = .tagged ∧ 0 ≤ n then (kinds[n.toNat]?).map Prod.snd else none
  | _ => none

/-- The kind of a tagged record, and the record without its tag. -/
def tagged? {α : Type} (place : Place) (key : String) (kinds : List (String × α)) :
    Json → Option (α × Json)
  | .record members => do
    let tag ← (← member? members key)
    let kind ← tag? place kinds tag
    return (kind, .record (members.filter (·.1 ≠ key)))
  | .list (tag :: items) => (tag? place kinds tag).map fun kind => (kind, .list items)
  | _ => none

end Merchandising.Json

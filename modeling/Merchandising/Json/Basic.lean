/-
  JSON values.

  A record keeps its members in the order in which they are written, repeated names included; what
  a repeated name means is up to the reader of the record.
-/

namespace Merchandising

/-- A JSON value.  Whole numbers are told apart from floating-point ones. -/
inductive Json where
  | null
  | bool (b : Bool)
  | int (n : Int)
  | float (x : Float)
  | text (s : String)
  | list (items : List Json)
  | record (members : List (String × Json))

namespace Json

instance : Inhabited Json := ⟨.null⟩

mutual

/-- How deep lists and records nest in a value. -/
def depth : Json → Nat
  | .list items => listDepth items + 1
  | .record members => membersDepth members + 1
  | _ => 0

/-- The depth of the deepest item. -/
def listDepth : List Json → Nat
  | [] => 0
  | j :: r => max (depth j) (listDepth r)

/-- The depth of the deepest member. -/
def membersDepth : List (String × Json) → Nat
  | [] => 0
  | (_, j) :: r => max (depth j) (membersDepth r)

end

mutual

/-- The value in which of several members of one name only the last is left, at every level. -/
def lastWins : Json → Json
  | .list items => .list (lastWinsList items)
  | .record members => .record (lastWinsMembers members)
  | j => j

/-- `lastWins` of each item. -/
def lastWinsList : List Json → List Json
  | [] => []
  | j :: r => lastWins j :: lastWinsList r

/-- `lastWins` of each member that no later one repeats. -/
def lastWinsMembers : List (String × Json) → List (String × Json)
  | [] => []
  | (k, j) :: r =>
    if (r.map Prod.fst).contains k then lastWinsMembers r else (k, lastWins j) :: lastWinsMembers r

end

end Json

end Merchandising

/-
  JSON texts as trees of what is written.

  * `Literal` is a tree of tokens: numbers are not yet evaluated and quoted texts may be without a
    value;
  * `Builder` is the machine that builds a tree from tokens, one step per token, with the lists
    and records that are still open on a stack;
  * `Literal.value?` is the value of a tree that nests at most as deep as allowed;
  * `parse?` reads a text; `maxDepth` lists and records may stand inside each other.
-/
import Merchandising.Json.Token

namespace Merchandising.Json

/-- A JSON text as a tree. -/
inductive Literal where
  | null
  | bool (b : Bool)
  | number (n : Numeral)
  | quoted (s : Option String)
  | list (items : List Literal)
  | record (members : List (Option String × Literal))

instance : Inhabited Literal := ⟨.null⟩

/-! ## From tokens to a tree -/

/-- A list or record that is still open, its parts in reverse order. -/
inductive Frame where
  | list (items : List Literal)
  | record (members : List (Option String × Literal)) (key : Option String)

/-- What may come next. -/
inductive Expected where
  /-- A value. -/
  | value
  /-- The first item of a list, or its end. -/
  | firstItem
  /-- The first name of a record, or its end. -/
  | firstName
  /-- A name of a record with these members. -/
  | name (members : List (Option String × Literal))
  /-- The colon after a name of a record with these members. -/
  | colon (members : List (Option String × Literal)) (key : Option String)
  /-- A comma, or the end of the innermost list or record. -/
  | separator
  /-- Nothing: this is the whole tree. -/
  | done (tree : Literal)

/-- The state of the machine. -/
structure Builder where
  stack : List Frame
  expected : Expected

namespace Builder

/-- Nothing read yet. -/
def start : Builder := ⟨[], .value⟩

/-- A complete value goes into the innermost list or record. -/
def accept (v : Literal) : List Frame → Builder
  | [] => ⟨[], .done v⟩
  | .list items :: stack => ⟨.list (v :: items) :: stack, .separator⟩
  | .record members key :: stack => ⟨.record ((key, v) :: members) none :: stack, .separator⟩

/-- The first token of a value. -/
def openValue (stack : List Frame) : Token → Option Builder
  | .null => some (accept .null stack)
  | .bool b => some (accept (.bool b) stack)
  | .number n => some (accept (.number n) stack)
  | .quoted s => some (accept (.quoted s) stack)
  | .openList => some ⟨.list [] :: stack, .firstItem⟩
  | .openRecord => some ⟨stack, .firstName⟩
  | _ => none

/-- One token. -/
def step (b : Builder) (t : Token) : Option Builder :=
  match b.expected, b.stack, t with
  | .value, stack, t => openValue stack t
  | .firstItem, .list _ :: stack, .closeList => some (accept (.list []) stack)
  | .firstItem, stack, t => openValue stack t
  | .firstName, stack, .closeRecord => some (accept (.record []) stack)
  | .firstName, stack, .quoted key => some ⟨stack, .colon [] key⟩
  | .name members, stack, .quoted key => some ⟨stack, .colon members key⟩
  | .colon members key, stack, .colon => some ⟨.record members key :: stack, .value⟩
  | .separator, .list items :: stack, .comma => some ⟨.list items :: stack, .value⟩
  | .separator, .list items :: stack, .closeList => some (accept (.list items.reverse) stack)
  | .separator, .record members _ :: stack, .comma => some ⟨stack, .name members⟩
  | .separator, .record members _ :: stack, .closeRecord =>
    some (accept (.record members.reverse) stack)
  | _, _, _ => none

/-- The tree, if it is complete. -/
def tree? (b : Builder) : Option Literal :=
  match b.expected with
  | .done tree => some tree
  | _ => none

end Builder

/-- The tree of a text: blanks around its tokens, and nothing after it. -/
def literal? (cs : List Char) : Option Literal := do
  let tokens ← lex? cs
  let b ← tokens.foldlM Builder.step Builder.start
  b.tree?

/-! ## From a tree to a value -/

namespace Literal

mutual

/-- The value of a tree in which lists and records nest at most `depth` deep. -/
def value? : Nat → Literal → Option Json
  | _, .null => some .null
  | _, .bool b => some (.bool b)
  | _, .number n => n.value?
  | _, .quoted s => s.map .text
  | 0, .list _ | 0, .record _ => none
  | depth + 1, .list items => (values? depth items).map .list
  | depth + 1, .record members => (memberValues? depth members).map .record

/-- The values of the items of a list. -/
def values? : Nat → List Literal → Option (List Json)
  | _, [] => some []
  | depth, l :: r => do
    let j ← value? depth l
    let js ← values? depth r
    return j :: js

/-- The values of the members of a record. -/
def memberValues? : Nat → List (Option String × Literal) → Option (List (String × Json))
  | _, [] => some []
  | depth, (key, l) :: r => do
    let key ← key
    let j ← value? depth l
    let js ← memberValues? depth r
    return (key, j) :: js

end

/-- The tree without the members of other names than `names`: a reader that skips a member does not
    look into it, so it may nest deeper than allowed and hold what has no value. -/
def keep (names : List String) : Literal → Literal
  | .record members => .record (members.filter fun (key, _) => key.all names.contains)
  | l => l

end Literal

/-- How many lists and records may stand inside each other. -/
def maxDepth : Nat := 127

/-- The value of a text. -/
def parse? (s : String) : Option Json := do
  let l ← literal? s.toList
  l.value? maxDepth

end Merchandising.Json

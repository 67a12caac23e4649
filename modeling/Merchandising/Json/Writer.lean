/-
  Writing JSON: no blanks, members in their order.

  In a quoted text only the quote, the backslash and the control characters below U+0020 are
  escaped.  A double has the shortest digits that stand for it, the even neighbour of two equally
  short and near ones; it is written without an exponent if its leading digit weighs between
  `10 ^ -5` and `10 ^ 15`, and always with a point or an exponent, so that it is read back as a
  double.  A double that is no number is written as `null`.

  * `write` puts the characters of a value in front of a rest, so that each is written once;
  * `print` is the text of a value.
-/
import Merchandising.Json.Basic
import Merchandising.Decimal.Layout

namespace Merchandising.Json

/-- The digits of a double in JSON. -/
def floatLayout : Decimal.Layout where
  tie := .even
  positional e := -5 ≤ e && e ≤ 15
  whole := ['.', '0']

/-- A double. -/
def writeFloat (x : Float) : List Char :=
  if x.isFinite then Decimal.finiteText floatLayout x else ['n', 'u', 'l', 'l']

/-- A whole number. -/
def writeInt (n : Int) : List Char :=
  if n < 0 then '-' :: Decimal.digits n.natAbs else Decimal.digits n.natAbs

/-- A hexadecimal digit. -/
def hexDigit (n : Nat) : Char :=
  if n < 10 then Char.ofNat ('0'.toNat + n) else Char.ofNat ('a'.toNat + (n - 10))

/-- One character of a quoted text. -/
def writeChar (c : Char) : List Char :=
  if c = '"' then ['\\', '"']
  else if c = '\\' then ['\\', '\\']
  else if c = '\x08' then ['\\', 'b']
  else if c = '\x0c' then ['\\', 'f']
  else if c = '\n' then ['\\', 'n']
  else if c = '\r' then ['\\', 'r']
  else if c = '\t' then ['\\', 't']
  else if c.toNat < 0x20 then
    ['\\', 'u', '0', '0', hexDigit (c.toNat / 16), hexDigit (c.toNat % 16)]
  else [c]

/-- A quoted text. -/
def writeText (s : String) : List Char :=
  '"' :: s.toList.flatMap writeChar ++ ['"']

mutual

/-- The characters of a value in front of `rest`. -/
def write : Json → List Char → List Char
  | .null, rest => ['n', 'u', 'l', 'l'] ++ rest
  | .bool true, rest => ['t', 'r', 'u', 'e'] ++ rest
  | .bool false, rest => ['f', 'a', 'l', 's', 'e'] ++ rest
  | .int n, rest => writeInt n ++ rest
  | .float x, rest => writeFloat x ++ rest
  | .text s, rest => writeText s ++ rest
  | .list [], rest => '[' :: ']' :: rest
  | .list (j :: r), rest => '[' :: write j (writeItems r rest)
  | .record [], rest => '{' :: '}' :: rest
  | .record ((k, j) :: r), rest => '{' :: (writeText k ++ ':' :: write j (writeMembers r rest))

/-- The items of a list after the first one, and its end, in front of `rest`. -/
def writeItems : List Json → List Char → List Char
  | [], rest => ']' :: rest
  | j :: r, rest => ',' :: write j (writeItems r rest)

/-- The members of a record after the first one, and its end, in front of `rest`. -/
def writeMembers : List (String × Json) → List Char → List Char
  | [], rest => '}' :: rest
  | (k, j) :: r, rest => ',' :: (writeText k ++ ':' :: write j (writeMembers r rest))

end

/-- The text of a value. -/
def print (j : Json) : String :=
  String.ofList (write j [])

end Merchandising.Json

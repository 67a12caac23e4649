/-
  The tokens of a JSON text.

  * `Token` are the symbols, the three words, the numbers and the quoted texts;
  * `lex?` splits a text into its tokens, the longest one first, with blanks between them.

  A quoted text that names half of a surrogate pair is a token without a value: such a text is
  well-formed, but nothing can hold it.
-/
import Merchandising.Json.Numeral

namespace Merchandising.Json

/-- A token of a JSON text. -/
inductive Token where
  | openList
  | closeList
  | openRecord
  | closeRecord
  | comma
  | colon
  | null
  | bool (b : Bool)
  | number (n : Numeral)
  | quoted (s : Option String)
  deriving DecidableEq, Repr

/-- Whether a character may stand between two tokens. -/
def isGap (c : Char) : Bool :=
  c == ' ' || c == '\n' || c == '\r' || c == '\t'

/-! ## Numbers -/

/-- The leading decimal digits of a text, and what follows them. -/
def spanDigits : List Char → List Nat × List Char
  | [] => ([], [])
  | c :: r =>
    match Text.digit? c with
    | some d => let (ds, rest) := spanDigits r; (d :: ds, rest)
    | none => ([], c :: r)

/-- The fraction of a number, if a point follows: then at least one digit must follow it. -/
def spanFraction? : List Char → Option (List Nat × List Char)
  | '.' :: r =>
    match spanDigits r with
    | ([], _) => none
    | found => some found
  | cs => some ([], cs)

/-- One or more digits of an exponent. -/
def spanExponentDigits? (sign : Int) (cs : List Char) : Option (Option Int × List Char) :=
  match spanDigits cs with
  | ([], _) => none
  | (ds, rest) => some (some (sign * Text.ofDigits ds), rest)

/-- The exponent of a number, if the letter `e` follows. -/
def spanExponent? : List Char → Option (Option Int × List Char)
  | c :: r =>
    if c = 'e' ∨ c = 'E' then
      match r with
      | '+' :: r => spanExponentDigits? 1 r
      | '-' :: r => spanExponentDigits? (-1) r
      | r => spanExponentDigits? 1 r
    else some (none, c :: r)
  | [] => some (none, [])

/-- The digits in front of the point: a zero alone, or digits that start with another one. -/
def spanWhole? (cs : List Char) : Option (List Nat × List Char) :=
  match cs with
  | '0' :: r => some ([0], r)
  | cs =>
    match spanDigits cs with
    | ([], _) => none
    | found => some found

/-- A number without its sign, and what follows it. -/
def spanNumeral? (negative : Bool) (cs : List Char) : Option (Numeral × List Char) := do
  let (whole, cs) ← spanWhole? cs
  let (fraction, cs) ← spanFraction? cs
  let (exponent, cs) ← spanExponent? cs
  return (⟨negative, whole, fraction, exponent⟩, cs)

/-! ## Quoted texts -/

/-- The value of a hexadecimal digit. -/
def hexDigit? (c : Char) : Option Nat :=
  if '0' ≤ c ∧ c ≤ '9' then some (c.toNat - '0'.toNat)
  else if 'a' ≤ c ∧ c ≤ 'f' then some (c.toNat - 'a'.toNat + 10)
  else if 'A' ≤ c ∧ c ≤ 'F' then some (c.toNat - 'A'.toNat + 10)
  else none

/-- The number that four hexadecimal digits spell. -/
def hex4? (a b c d : Char) : Option Nat := do
  let a ← hexDigit? a
  let b ← hexDigit? b
  let c ← hexDigit? c
  let d ← hexDigit? d
  return ((a * 16 + b) * 16 + c) * 16 + d

/-- The character that a letter after a backslash stands for. -/
def escape? : Char → Option Char
  | '"' => some '"'
  | '\\' => some '\\'
  | '/' => some '/'
  | 'b' => some '\x08'
  | 'f' => some '\x0c'
  | 'n' => some '\n'
  | 'r' => some '\r'
  | 't' => some '\t'
  | _ => none

/-- One unit of a quoted text: a character, or a code of sixteen bits that is written as such. -/
inductive Piece where
  | char (c : Char)
  | code (n : Nat)
  deriving DecidableEq, Repr

/-- The units of a quoted text up to its closing quote, and what follows that. -/
def spanQuoted? : List Char → Option (List Piece × List Char)
  | [] => none
  | '"' :: r => some ([], r)
  | '\\' :: 'u' :: a :: b :: c :: d :: r => do
    let n ← hex4? a b c d
    let (pieces, rest) ← spanQuoted? r
    return (.code n :: pieces, rest)
  | '\\' :: c :: r => do
    let e ← escape? c
    let (pieces, rest) ← spanQuoted? r
    return (.char e :: pieces, rest)
  | c :: r => do
    if c.toNat < 0x20 then none
    let (pieces, rest) ← spanQuoted? r
    return (.char c :: pieces, rest)

/-- The characters that units stand for: a code in the upper half of a pair needs its lower half
    right after it. -/
def charsOfPieces? : List Piece → Option (List Char)
  | [] => some []
  | .char c :: r => (charsOfPieces? r).map (c :: ·)
  | .code n :: r =>
    if n < 0xD800 ∨ 0xDFFF < n then (charsOfPieces? r).map (Char.ofNat n :: ·)
    else match r with
      | .code m :: r =>
        if n < 0xDC00 ∧ 0xDC00 ≤ m ∧ m ≤ 0xDFFF then
          (charsOfPieces? r).map (Char.ofNat (0x10000 + (n - 0xD800) * 0x400 + (m - 0xDC00)) :: ·)
        else none
      | _ => none

/-- The text that units stand for. -/
def textOfPieces? (pieces : List Piece) : Option String :=
  (charsOfPieces? pieces).map String.ofList

/-! ## The lexer -/

/-- The token at the start of a text that starts with no gap, and what follows it. -/
def spanToken? : List Char → Option (Token × List Char)
  | '[' :: r => some (.openList, r)
  | ']' :: r => some (.closeList, r)
  | '{' :: r => some (.openRecord, r)
  | '}' :: r => some (.closeRecord, r)
  | ',' :: r => some (.comma, r)
  | ':' :: r => some (.colon, r)
  | 'n' :: 'u' :: 'l' :: 'l' :: r => some (.null, r)
  | 't' :: 'r' :: 'u' :: 'e' :: r => some (.bool true, r)
  | 'f' :: 'a' :: 'l' :: 's' :: 'e' :: r => some (.bool false, r)
  | '"' :: r => (spanQuoted? r).map fun (pieces, rest) => (.quoted (textOfPieces? pieces), rest)
  | '-' :: r => (spanNumeral? true r).map fun (n, rest) => (.number n, rest)
  | cs => (spanNumeral? false cs).map fun (n, rest) => (.number n, rest)

/-- The tokens of a text, found in at most `fuel` steps. -/
def lexWithin : Nat → List Char → Option (List Token)
  | _, [] => some []
  | 0, _ :: _ => none
  | fuel + 1, c :: r =>
    if isGap c then lexWithin fuel r
    else do
      let (token, rest) ← spanToken? (c :: r)
      let tokens ← lexWithin fuel rest
      return token :: tokens

/-- The tokens of a text; every step takes at least one character, so there are enough steps. -/
def lex? (cs : List Char) : Option (List Token) :=
  lexWithin cs.length cs

end Merchandising.Json

/-
  Search queries, whichever engine runs them.

  * `Query` is a condition on documents, with fourteen kinds; `Fragment` is a condition with an
    optional label, which has no influence on what it matches;
  * `==` compares fragments with their labels, values as `Scalar` does;
  * the builders below `Fragment` make the common shapes; `allOf?` and `anyOf?` leave a single
    clause as it is and make nothing of no clause;
  * `matchNothing` is a condition that no document satisfies, since no id is zero.
-/
import Merchandising.Query.Scalar
import Merchandising.Keyed

namespace Merchandising

/-- The ends of a range; an end that is not set is open. -/
structure Bounds where
  gt : Option Scalar
  gte : Option Scalar
  lt : Option Scalar
  lte : Option Scalar
  deriving BEq

/-- The range without ends. -/
def Bounds.none : Bounds := ⟨.none, .none, .none, .none⟩

/-- A score that is read from a numeric field. -/
structure FieldFactor where
  field : String
  factor : Float
  missing : Option Float
  deriving BEq

/-- How scores are combined. -/
inductive CombineMode where
  | multiply
  | sum
  | avg
  | first
  | max
  | min
  | replace
  deriving DecidableEq, Repr

/-- Weights of properties. -/
abbrev Weights := KeyedMap Float

mutual

/-- A condition with an optional label. -/
inductive Fragment where
  | mk (name : Option String) (query : Query)

/-- A condition on documents. -/
inductive Query where
  /-- All of `must` hold, none of `mustNot`, and at least `minimum` of `should`. -/
  | bool (must should mustNot : List Fragment) (minimum : Option UInt32)
  /-- The field has the value. -/
  | term (field : String) (value : Scalar)
  /-- The field has one of the values. -/
  | terms (field : String) (values : List Scalar)
  /-- The field has a value within bounds. -/
  | range (field : String) (bounds : Bounds)
  /-- One of the documents nested under `path` satisfies the condition. -/
  | nested (path : String) (inner : Fragment)
  /-- The condition does not hold. -/
  | not (inner : Fragment)
  /-- The field has a value. -/
  | present (field : String)
  /-- The field has no value. -/
  | absent (field : String)
  /-- The field matches a text after analysis. -/
  | words (field text : String) (fuzziness minimum : Option String)
  /-- Weighted properties match a text after analysis. -/
  | weighted (fields : Weights) (text : String) (fuzziness minimum : Option String)
  /-- The condition, with scores adjusted by functions. -/
  | scored (inner : Fragment) (functions : List ScoreFunction)
      (scoreMode boostMode : Option CombineMode)
  /-- The document resembles texts. -/
  | similar (fields like : List String) (minimum : Option String)
  /-- The field starts with a text. -/
  | startsWith (field value : String)
  /-- The field matches a regular expression. -/
  | pattern (field value : String)

/-- A function that adjusts the scores of the documents that satisfy its filter. -/
inductive ScoreFunction where
  | mk (filter : Option Fragment) (weight : Option Float) (factor : Option FieldFactor)

end

instance : Inhabited Query := ⟨.present ""⟩

instance : Inhabited Fragment := ⟨.mk none default⟩

/-- The label of a fragment. -/
def Fragment.name : Fragment → Option String
  | .mk name _ => name

/-- The condition of a fragment. -/
def Fragment.query : Fragment → Query
  | .mk _ query => query

/-! ## Equality -/

/-- Equality of weights: the same names with equal weights. -/
def Weights.same (v w : Weights) : Bool :=
  v.entries == w.entries

mutual

/-- Equality of fragments. -/
def Fragment.same : Fragment → Fragment → Bool
  | .mk n q, .mk n' q' => n == n' && q.same q'

/-- Equality of conditions. -/
def Query.same : Query → Query → Bool
  | .bool m s n k, .bool m' s' n' k' =>
    sameFragments m m' && sameFragments s s' && sameFragments n n' && k == k'
  | .term f v, .term f' v' => f == f' && v == v'
  | .terms f vs, .terms f' vs' => f == f' && vs == vs'
  | .range f b, .range f' b' => f == f' && b == b'
  | .nested p i, .nested p' i' => p == p' && i.same i'
  | .not i, .not i' => i.same i'
  | .present f, .present f' => f == f'
  | .absent f, .absent f' => f == f'
  | .words f t z m, .words f' t' z' m' => f == f' && t == t' && z == z' && m == m'
  | .weighted w t z m, .weighted w' t' z' m' => Weights.same w w' && t == t' && z == z' && m == m'
  | .scored i fs s b, .scored i' fs' s' b' =>
    i.same i' && sameFunctions fs fs' && s == s' && b == b'
  | .similar fs l m, .similar fs' l' m' => fs == fs' && l == l' && m == m'
  | .startsWith f v, .startsWith f' v' => f == f' && v == v'
  | .pattern f v, .pattern f' v' => f == f' && v == v'
  | _, _ => false

/-- Equality of lists of fragments. -/
def sameFragments : List Fragment → List Fragment → Bool
  | [], [] => true
  | f :: fs, f' :: fs' => f.same f' && sameFragments fs fs'
  | _, _ => false

/-- Equality of lists of score functions. -/
def sameFunctions : List ScoreFunction → List ScoreFunction → Bool
  | [], [] => true
  | .mk none w f :: fs, .mk none w' f' :: fs' => w == w' && f == f' && sameFunctions fs fs'
  | .mk (some c) w f :: fs, .mk (some c') w' f' :: fs' =>
    c.same c' && w == w' && f == f' && sameFunctions fs fs'
  | _, _ => false

end

instance : BEq Fragment := ⟨Fragment.same⟩

/-! ## Builders -/

namespace Fragment

/-- A condition without a label. -/
def unnamed (q : Query) : Fragment := .mk none q

/-- The condition under another label. -/
def named (f : Fragment) (name : String) : Fragment := .mk (some name) f.query

/-- The field has the value. -/
def term (field : String) (value : Scalar) : Fragment := unnamed (.term field value)

/-- The field has one of the values. -/
def terms (field : String) (values : List Scalar) : Fragment := unnamed (.terms field values)

/-- The field has a value within bounds. -/
def range (field : String) (bounds : Bounds) : Fragment := unnamed (.range field bounds)

/-- One of the documents nested under `path` satisfies the condition. -/
def nested (path : String) (inner : Fragment) : Fragment := unnamed (.nested path inner)

/-- The field matches a text after analysis. -/
def words (field text : String) (fuzziness : Option String) : Fragment :=
  unnamed (.words field text fuzziness none)

/-- Weighted properties match a text after analysis. -/
def weighted (fields : Weights) (text : String) : Fragment :=
  unnamed (.weighted fields text none none)

/-- All clauses hold. -/
def all (clauses : List Fragment) : Fragment := unnamed (.bool clauses [] [] none)

/-- At least one clause holds. -/
def any (clauses : List Fragment) : Fragment := unnamed (.bool [] clauses [] (some 1))

/-- No clause holds. -/
def noneOf (clauses : List Fragment) : Fragment := unnamed (.bool [] [] clauses none)

/-- The condition does not hold. -/
def negate (f : Fragment) : Fragment := unnamed (.not f)

/-- The condition, negated if `negated`. -/
def negateIf (f : Fragment) (negated : Bool) : Fragment := if negated then f.negate else f

/-- Clauses under one composition: nothing of none, and a single clause as it is. -/
def compose? (compose : List Fragment → Fragment) : List Fragment → Option Fragment
  | [] => none
  | [f] => some f
  | fs => some (compose fs)

/-- All clauses hold, if there is one. -/
def allOf? : List Fragment → Option Fragment := compose? all

/-- At least one clause holds, if there is one. -/
def anyOf? : List Fragment → Option Fragment := compose? any

/-- The label of the condition that no document satisfies. -/
def nothingName : String := "match_nothing"

/-- A condition that no document satisfies: its id is zero. -/
def matchNothing (idField : String) : Fragment := (term idField (.int 0)).named nothingName

/-- Whether a fragment is one that `matchNothing` makes. -/
def isMatchNothing : Fragment → Bool
  | .mk name (.term _ (.int 0)) => name == some nothingName
  | _ => false

end Fragment

end Merchandising

import GraphQLEngine.Numeric.Number
import GraphQLEngine.OrderedMap

/-!
# JSON values

Objects keep the order in which their members were written; equality of values ignores it.
-/

namespace GraphQLEngine

inductive Json where
  | null
  | bool (value : Bool)
  | num (value : Number)
  | str (value : String)
  | arr (items : List Json)
  | obj (members : List (String × Json))
deriving Inhabited

namespace Json

def int (n : Int) : Json := .num (.int n)

def nat (n : Nat) : Json := .num (.int n)

/-- The object of a list of members; of a repeated key the last value counts. -/
def object (members : List (String × Json)) : Json := .obj (OrderedMap.ofEntries members)

def ofOption (encode : α → Json) : Option α → Json
  | none => .null
  | some a => encode a

def ofStrings (ss : List String) : Json := .arr (ss.map .str)

/-! ## Parts -/

def isNull : Json → Bool
  | .null => true
  | _ => false

def isObject : Json → Bool
  | .obj _ => true
  | _ => false

def string? : Json → Option String
  | .str s => some s
  | _ => none

def bool? : Json → Option Bool
  | .bool b => some b
  | _ => none

def int? : Json → Option Int
  | .num (.int n) => some n
  | _ => none

def nat? : Json → Option Nat
  | .num (.int n) => if 0 ≤ n then some n.toNat else none
  | _ => none

/-- An integer that fits into 64 bits with a sign. -/
def int64? : Json → Option Int
  | .num (.int n) => if n < 9223372036854775808 then some n else none
  | _ => none

def members? : Json → Option (List (String × Json))
  | .obj members => some members
  | _ => none

def items? : Json → Option (List Json)
  | .arr items => some items
  | _ => none

/-- The member `key` of an object. -/
def get? (j : Json) (key : String) : Option Json :=
  match j with
  | .obj members => members.lookup key
  | _ => none

/-- The item at `index` of an array. -/
def item? (j : Json) (index : Nat) : Option Json :=
  match j with
  | .arr items => items[index]?
  | _ => none

/-- The member `key` of an object; null for all else. -/
def member (j : Json) (key : String) : Json := (j.get? key).getD .null

/-! ## Equality -/

mutual

/-- Equality of values, whatever the order of the members of objects. -/
def sameValue : Json → Json → Bool
  | .null, .null => true
  | .bool a, .bool b => a == b
  | .num a, .num b => a.sameValue b
  | .str a, .str b => a == b
  | .arr xs, .arr ys => sameItems xs ys
  | .obj xs, .obj ys => xs.length == ys.length && sameMembers xs ys
  | _, _ => false

def sameItems : List Json → List Json → Bool
  | [], [] => true
  | x :: xs, y :: ys => sameValue x y && sameItems xs ys
  | _, _ => false

/-- Whether every member of the first object has the same value in the second. -/
def sameMembers : List (String × Json) → List (String × Json) → Bool
  | [], _ => true
  | (key, x) :: xs, ys =>
    (match ys.lookup key with
      | some y => sameValue x y
      | none => false) && sameMembers xs ys

end

/-- Equality of maps of values, whatever the order of their keys. -/
def sameMap (xs ys : OrderedMap Json) : Bool := xs.length == ys.length && sameMembers xs ys

end Json

end GraphQLEngine

-- SUMMARY: JSON values, with integers and fractions apart and members in order.

/-!
# JSON values

The values of a store file. Whole numbers are exact; a number written with a point
or an exponent is a double. The members of an object keep the order in which their
names first came, and of two members with one name the later value stands.
-/

namespace Devicetree

/-- A JSON value. -/
inductive Json where
  | null
  | bool (b : Bool)
  | int (n : Int)
  | real (x : Float)
  | str (s : String)
  | arr (items : List Json)
  | obj (members : List (String × Json))
deriving Inhabited

namespace Json

/-- Give `key` the value `v`: in place if it has one, behind all others if not. -/
def put (key : String) (v : Json) : List (String × Json) → List (String × Json)
  | [] => [(key, v)]
  | (k, w) :: rest => if k = key then (k, v) :: rest else (k, w) :: put key v rest

/-- The value of a member of an object; `none` for every other value too. -/
def member? (key : String) : Json → Option Json
  | obj members => members.lookup key
  | _ => none

/-- Whether a value counts as set: everything but null, false, zero and what is empty. -/
def isSet : Json → Bool
  | null => false
  | bool b => b
  | int n => n != 0
  | real x => x != 0.0
  | str s => !s.isEmpty
  | arr items => !items.isEmpty
  | obj members => !members.isEmpty

end Json

end Devicetree

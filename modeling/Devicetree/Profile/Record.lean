-- SUMMARY: Saved comparisons, and their records as JSON.
import Devicetree.Filter
import Devicetree.Json.Label
import Devicetree.Text.Numeral

/-!
# Records of profiles

A profile is a named comparison of two files. Its record has seven members; the last
three may be missing. Names and paths may be any value and are taken by their labels,
switches count as on or off like any value, and the time of creation may be a number
or a numeral. A fault says which of these did not fit.
-/

namespace Devicetree

/-- A saved comparison. -/
structure Profile where
  id : String
  name : String
  left : String
  right : String
  filter : Filter
  autoRefresh : Bool := false
  /-- When the profile was created, in seconds since 1970. -/
  created : Float := 0.0
deriving Inhabited, Repr

namespace Profile

-- ---------------------------------------------------------------------------
-- Faults
-- ---------------------------------------------------------------------------

/-- Why a value is no record of a profile. -/
inductive Fault where
  /-- A member is missing. -/
  | missing (key : String)
  /-- The value has no members. -/
  | noRecord (v : Json)
  /-- The switches have no names. -/
  | noSwitches (v : Json)
  /-- The time of creation is neither a number nor a text. -/
  | noNumber (v : Json)
  /-- The time of creation is a text but no numeral. -/
  | noNumeral (s : String)
  /-- The time of creation is past every double. -/
  | tooLarge
  /-- The value has no members among which records could be looked for. -/
  | noCollection (v : Json)
  /-- The value has no elements to be read as records. -/
  | noElements (v : Json)
deriving Inhabited

/-- The wording of a fault. -/
def Fault.message : Fault → String
  | missing key => quote key
  | noRecord (.arr _) => "list indices must be integers or slices, not str"
  | noRecord (.str _) => "string indices must be integers, not 'str'"
  | noRecord v => s!"'{v.typeName}' object is not subscriptable"
  | noSwitches v => s!"'{v.typeName}' object has no attribute 'items'"
  | noNumber v => s!"float() argument must be a string or a real number, not '{v.typeName}'"
  | noNumeral s => "could not convert string to float: " ++ quote s
  | tooLarge => "int too large to convert to float"
  | noCollection v => s!"'{v.typeName}' object has no attribute 'get'"
  | noElements v => s!"'{v.typeName}' object is not iterable"


-- ---------------------------------------------------------------------------
-- Reading records
-- ---------------------------------------------------------------------------

/-- Read a filter: what is not set is the standard filter, members that are no switches
    are passed over. -/
def readFilter (v : Json) : Except Fault Filter :=
  if !v.isSet then .ok {}
  else match v with
    | .obj members => .ok (Filter.ofSettings fun name => (members.lookup name).map Json.isSet)
    | v => .error (.noSwitches v)

/-- Read a time of creation. -/
def readCreated : Json → Except Fault Float
  | .bool b => .ok (if b then 1.0 else 0.0)
  | .int n =>
    let x := Decimal.toFloat n.natAbs 0
    if x.isInf then .error .tooLarge else .ok (if n < 0 then -x else x)
  | .real x => .ok x
  | .str s =>
    match Numeral.float? s.toList with
    | some x => .ok x
    | none => .error (.noNumeral s)
  | v => .error (.noNumber v)

/-- The label of a member that must be there. -/
def readLabel (v : Json) (key : String) : Except Fault String :=
  match v with
  | .obj members =>
    match members.lookup key with
    | some w => .ok w.label
    | none => .error (.missing key)
  | v => .error (.noRecord v)

/-- Read the record of a profile. -/
def ofJson (v : Json) : Except Fault Profile := do
  let id ← readLabel v "id"
  let name ← readLabel v "name"
  let left ← readLabel v "left"
  let right ← readLabel v "right"
  let filter ← readFilter ((v.member? "options").getD .null)
  let created ← readCreated ((v.member? "created").getD (.real 0.0))
  return { id, name, left, right, filter, created
           autoRefresh := ((v.member? "auto_refresh").getD (.bool false)).isSet }

/-- The elements of a value: of an array its items, of a text its characters, of an
    object the names of its members. -/
def elements? : Json → Option (List Json)
  | .arr items => some items
  | .str s => some (s.toList.map fun c => .str (String.singleton c))
  | .obj members => some (members.map fun (key, _) => .str key)
  | _ => none

/-- Read a collection of profiles: an object with the records under one name. -/
def listOfJson : Json → Except Fault (List Profile)
  | .obj members =>
    match members.lookup "profiles" with
    | none => .ok []
    | some v =>
      match elements? v with
      | none => .error (.noElements v)
      | some items => items.mapM ofJson
  | v => .error (.noCollection v)


-- ---------------------------------------------------------------------------
-- Writing records
-- ---------------------------------------------------------------------------

/-- The switches of a filter as members. -/
def filterMembers (f : Filter) : Json :=
  .obj (f.switches.map fun (name, on) => (name, .bool on))

/-- The record of a profile. -/
def toJson (p : Profile) : Json :=
  .obj
    [ ("id", .str p.id),
      ("name", .str p.name),
      ("left", .str p.left),
      ("right", .str p.right),
      ("options", filterMembers p.filter),
      ("auto_refresh", .bool p.autoRefresh),
      ("created", .real p.created) ]

/-- A collection of profiles. -/
def listToJson (ps : List Profile) : Json :=
  .obj [("profiles", .arr (ps.map toJson))]

end Profile

end Devicetree

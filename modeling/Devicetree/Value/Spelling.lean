-- SUMMARY: The canonical spelling of the values in a property.
import Devicetree.Filter
import Devicetree.Value.CellArray
import Devicetree.Value.HexLiteral
import Devicetree.Value.StringList

/-!
# Spelling of values

Two rules give a property one spelling: one for hexadecimal literals, one for cell
arrays and string lists. Each applies only where the filter asks for it.
-/

namespace Devicetree

namespace Value

/-- Space cell arrays and then assigned string lists canonically. -/
def normalizeLists (t : Text) : Text :=
  StringList.normalize (CellArray.normalize t)

/-- The spelling that a filter asks for. -/
def spell (f : Filter) (t : Text) : Text :=
  let t := if f.normalizeHexValues then HexLiteral.normalize t else t
  if f.normalizeArrays then normalizeLists t else t

end Value

end Devicetree

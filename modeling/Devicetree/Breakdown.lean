-- SUMMARY: Faults that no command has words for, which end a program.
import Devicetree.Blob.Tree
import Devicetree.Calendar
import Devicetree.Files.Obstacle
import Devicetree.Json.Reader
import Devicetree.Text.Utf8

/-!
# Breakdowns

Most faults are expected where they can arise and are worded for the reader there.
The rest break a program off, wherever it was.
-/

namespace Devicetree

/-- What is read by calls inside calls. -/
inductive Nesting where
  | array
  | object
  | node
deriving DecidableEq, Repr

namespace Nesting

/-- An array, or an object of a JSON text. -/
def ofJson (isArray : Bool) : Nesting :=
  if isArray then array else object

/-- The wording for what is nested too deeply. -/
def message : Nesting → String
  | array => Json.Fault.message [] (.tooDeep true)
  | object => Json.Fault.message [] (.tooDeep false)
  | node => Blob.Failure.overflow.message

end Nesting

/-- A fault that breaks a program off. -/
inductive Breakdown where
  /-- Octets that were to be a text are none. -/
  | notText (fault : Utf8.Fault)
  /-- A whole number has more digits than are converted. -/
  | tooManyDigits (count : Nat)
  /-- Arrays, objects or nodes are nested too deeply. -/
  | tooDeep (nesting : Nesting)
  /-- A whole number is past every double. -/
  | tooLarge
  /-- A point in time has no date. -/
  | noDate (fault : Calendar.Fault)
  /-- An obstacle is met where none was expected. -/
  | obstructed (fault : FileFault)
  /-- A path with a zero character is to be asked for. -/
  | zeroInPath
deriving DecidableEq, Repr

/-- The wording of a breakdown. -/
def Breakdown.message : Breakdown → String
  | notText fault => fault.message
  | tooManyDigits count => Json.Fault.message [] (.tooManyDigits count)
  | tooDeep nesting => nesting.message
  | tooLarge => "int too large to convert to float"
  | noDate fault => fault.message
  | obstructed fault => fault.message
  | zeroInPath => "embedded null byte"

end Devicetree

-- SUMMARY: What programs note about their work, for those who look into it.
import Devicetree.Comparison
import Devicetree.Source.Load
import Devicetree.Source.Trace

/-!
# Notes

A program notes what it does; the lines of a note are worked out only when somebody
asks for them.
-/

namespace Devicetree

/-- A step that is worth a note. -/
inductive Note where
  | decompiling (p : Path)
  | processing (f : Filter) (source : Text)
  | compared (c : Comparison)

namespace Note

/-- What starts a line about comparisons. -/
def mark : String :=
  "DEBUG dtsdiff.comparator: "

/-- The line about a finished comparison. -/
def comparedLine (c : Comparison) : Text :=
  let verdict := if c.identical then "True" else "False"
  let left := s!"{c.leftLabel} ({c.leftText.length} chars)"
  let right := s!"{c.rightLabel} ({c.rightText.length} chars)"
  s!"{mark}Compared {left} with {right}: identical={verdict}".toList

/-- The lines of a note. -/
def lines : Note → List Text
  | decompiling p => [s!"{mark}Decompiling {p.string} as DTB".toList]
  | processing f source => Source.trace f source
  | compared c => [comparedLine c]

/-- What is noted about a comparison. -/
def ofComparison (f : Filter) (left right : Text) (c : Comparison) : List Note :=
  [.processing f left, .processing f right, .compared c]

end Note

/-- What is noted about loading a source. -/
def Loaded.notes (l : Loaded) : List Note :=
  if l.fromBlob then [.decompiling l.path] else []

end Devicetree

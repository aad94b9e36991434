-- SUMMARY: What there is to tell about the ordering of a document.
import Devicetree.Source.Document
import Devicetree.Text.Quoted

/-!
# Traces

A trace tells how a document was ordered: for each outermost block the lines it spans
and the blocks inside it that lie too deep to be parsed, and in the end the keys of the
outermost blocks in their order.
-/

namespace Devicetree

namespace Document

/-- What starts a line of a trace. -/
def traceMark : Text :=
  "DEBUG dtsdiff.dts.normalizer: ".toList

/-- The line for an outermost block. -/
def spanLine (b : Block) (first : Nat) : Text :=
  let last := first + b.rest.length
  traceMark ++ "Top-level node ".toList ++ Text.quoted (Text.trim b.opening)
    ++ s!" spans lines {first}-{last}".toList

/-- The line for a block that lies too deep to be parsed. -/
def depthLine (depth : Int) (opening : Line) : Text :=
  traceMark ++ s!"Depth {depth} exceeds ceiling, keeping ".toList ++ Text.quoted opening
    ++ " verbatim".toList

/-- The lines for the segments from some line on. -/
def traceFrom : (line : Nat) → Outline → List Text
  | _, [] => []
  | line, .free _ :: o => traceFrom (line + 1) o
  | line, .block b :: o =>
    let tooDeep := Node.tooDeep (Node.levelsFrom 0) 0 b
    spanLine b line :: (tooDeep.map fun (depth, opening) => depthLine depth opening)
      ++ traceFrom (line + b.lines.length) o

/-- The trace of a document that is ordered under a filter. -/
def trace (f : Filter) (t : Text) : List Text :=
  if f.sortProperties then
    let outline := Outline.ofLines (Text.lines t)
    let keys := (orderedNodes f outline).map Node.key
    traceFrom 0 outline ++ [traceMark ++ "Top-level order: ".toList ++ Text.quotedList keys]
  else []

end Document

namespace Source

/-- The trace of a source. -/
def trace (f : Filter) (t : Text) : List Text :=
  if f.semanticComparison then Document.trace f (clean f t) else []

end Source

end Devicetree

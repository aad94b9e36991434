-- SUMMARY: Whole sources in canonical order, and the canonical text of a source under a filter.
import Devicetree.Source.Clean
import Devicetree.Source.Node

/-!
# Documents

The outermost blocks of a source are put in the order of their keys. Free lines
keep their place: those before the first block come first, and those behind the
`k`-th block come behind whichever block is `k`-th in the end.
-/

namespace Devicetree

namespace Document

/-- The outermost blocks of an outline as nodes, in the order of their keys. -/
def orderedNodes (f : Filter) (o : Outline) : List Node :=
  Node.sortByKey Node.key (o.blocks.map (Node.ofBlock f 0))

/-- Write an outline with the nodes in place of its blocks, one after the other. -/
def fill : List Node → Outline → List Line
  | _, [] => []
  | nodes, .free l :: o => l :: fill nodes o
  | n :: nodes, .block _ :: o => n.lines ++ fill nodes o
  | [], .block _ :: o => fill [] o

/-- The lines of a document in canonical order. -/
def canonicalLines (f : Filter) (ls : List Line) : List Line :=
  let outline := Outline.ofLines ls
  fill (orderedNodes f outline) outline

/-- A document in canonical order, if the filter sorts; as it is, if not. -/
def normalize (f : Filter) (t : Text) : Text :=
  if f.sortProperties then Text.unlines (canonicalLines f (Text.lines t)) else t

end Document

namespace Source

/-- The canonical text of a source: cleaned, and ordered if the filter compares meanings. -/
def process (f : Filter) (t : Text) : Text :=
  if f.semanticComparison then Document.normalize f (clean f t) else clean f t

end Source

end Devicetree

-- SUMMARY: Cleaning a source: comments dropped, white space evened out.
import Devicetree.Source.BlankLines
import Devicetree.Source.Scanner

/-!
# Cleaning

Cleaning is the lexical half of a comparison: the comment scanner, then the
reduction of blank lines. An unclosed block comment reaches to the end.
-/

namespace Devicetree

namespace Source

/-- The source without what the lexical switches of the filter drop. -/
def clean (f : Filter) (t : Text) : Text :=
  BlankLines.reduce (Scanner.run f Scanner.State.start t)

end Source

end Devicetree

-- SUMMARY: The comparison of two sources after filtering.
import Devicetree.Diff.Unified
import Devicetree.Source.Document

/-!
# Comparisons

Both sources are brought into canonical form under one filter and compared as
texts. Where they differ, their lines are shown as a unified diff. Texts may differ
in their line breaks alone; then they are not identical and the diff is empty.
-/

namespace Devicetree

/-- What came of comparing two sources. -/
structure Comparison where
  leftLabel : String
  rightLabel : String
  leftText : Text
  rightText : Text
  filter : Filter
  diff : List Line
deriving DecidableEq, Repr

namespace Comparison

/-- How a side is called in a diff. -/
def filteredLabel (label : String) : Text :=
  label.toList ++ " (filtered)".toList

/-- Compare two sources under a filter. -/
def ofTexts (filter : Filter) (context : Int) (left right : Text)
    (leftLabel rightLabel : String) : Comparison :=
  let leftText := Source.process filter left
  let rightText := Source.process filter right
  { leftLabel, rightLabel, leftText, rightText, filter
    diff :=
      if leftText = rightText then []
      else Unified.lines (filteredLabel leftLabel) (filteredLabel rightLabel) context
        (Text.rows leftText) (Text.rows rightText) }

/-- Whether both sources have the same canonical form. -/
def identical (c : Comparison) : Bool :=
  c.leftText == c.rightText

/-- How many lines of the diff count as changes. -/
def changedLines (c : Comparison) : Nat :=
  Unified.changeCount c.diff

end Comparison

end Devicetree

-- SUMMARY: Unified diffs: hunks with their headers, under the labels of the two sides.
import Devicetree.Diff.Span
import Devicetree.Text.Blank

/-!
# Unified diffs

A group of spans is shown as a hunk: a header with the two ranges, then the lines,
each behind a sign that says which side it is on. A header counts lines from one,
leaves out a length of one, and names for an empty range the line before it.
-/

namespace Devicetree

/-- A hunk of a unified diff. -/
structure Hunk where
  header : Line
  lines : List Line
deriving DecidableEq, Repr

namespace Hunk

/-- Where a bound lies in a list of `size` elements; a negative bound counts from the end. -/
def bound (size : Nat) (i : Int) : Nat :=
  if i < 0 then (i + size).toNat else i.toNat

/-- The elements between two bounds. -/
def slice {α : Type} (xs : List α) (start stop : Int) : List α :=
  (xs.take (bound xs.length stop)).drop (bound xs.length start)

/-- The range between two bounds, as a header states it. -/
def range (start stop : Int) : Text :=
  let length := stop - start
  if length = 1 then (toString (start + 1)).toList
  else
    let first := if length = 0 then start else start + 1
    (toString first).toList ++ ',' :: (toString length).toList

/-- The lines of a span behind their signs: first those of the left side alone, then
    those of the right. -/
def spanLines (left right : List Line) (s : Span) : List Line :=
  if s.same then (slice left s.leftStart s.leftStop).map (' ' :: ·)
  else (slice left s.leftStart s.leftStop).map ('-' :: ·)
    ++ (slice right s.rightStart s.rightStop).map ('+' :: ·)

/-- The header of the group from its first to its last span. -/
def headerOf (first last : Span) : Line :=
  "@@ -".toList ++ range first.leftStart last.leftStop
    ++ " +".toList ++ range first.rightStart last.rightStop ++ " @@".toList

/-- A group of spans as a hunk. -/
def ofGroup (left right : List Line) : List Span → Hunk
  | [] => ⟨[], []⟩
  | first :: rest =>
    { header := headerOf first ((first :: rest).getLast (by simp))
      lines := (first :: rest).flatMap (spanLines left right) }

end Hunk

namespace Unified

/-- The hunks between two lists of lines. -/
def hunks (context : Int) (left right : List Line) : List Hunk :=
  (Span.groups context (Span.ofLists left right)).map (Hunk.ofGroup left right)

/-- The lines of a diff: nothing if it has no hunk, else the labels of both sides and
    the hunks. -/
def lines (leftLabel rightLabel : Text) (context : Int) (left right : List Line) : List Line :=
  match hunks context left right with
  | [] => []
  | hs =>
    ("--- ".toList ++ leftLabel) :: ("+++ ".toList ++ rightLabel)
      :: hs.flatMap fun h => h.header :: h.lines

/-- Whether a line of a diff counts as a change: one sign in front, not three. -/
def isChange (l : Line) : Bool :=
  match l with
  | '+' :: rest => rest.take 2 != ['+', '+']
  | '-' :: rest => rest.take 2 != ['-', '-']
  | _ => false

/-- How many lines of a diff count as changes. -/
def changeCount (diff : List Line) : Nat :=
  diff.countP isChange

end Unified

end Devicetree

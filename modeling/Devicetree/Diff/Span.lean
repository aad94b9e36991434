-- SUMMARY: An alignment as alternating spans of what two lists share and where they differ.
import Devicetree.Diff.Matching

/-!
# Spans

The alignment of two lists is a row of spans that covers both from start to end:
what they share alternates with where they differ. For display, spans are put into
groups with some elements of context around each difference; a long span of equal
elements ends one group and starts the next.

Bounds are integers, and the arithmetic of the context is followed to the letter
for a negative context too, where the bounds of a span may come to lie in the wrong
order or before the first element.
-/

namespace Devicetree

/-- A stretch of both lists, either equal or differing. -/
structure Span where
  same : Bool
  leftStart : Int
  leftStop : Int
  rightStart : Int
  rightStop : Int
deriving DecidableEq, Repr

namespace Span

-- ---------------------------------------------------------------------------
-- From runs to spans
-- ---------------------------------------------------------------------------

/-- The spans behind elements `i` and `j`, up to the ends of both lists. Runs that touch
    make one span. -/
def behind (leftSize rightSize : Nat) (i j : Nat) : List Run → List Span
  | [] => if i < leftSize || j < rightSize then [⟨false, i, leftSize, j, rightSize⟩] else []
  | r :: rs =>
    let rest := behind leftSize rightSize (r.left + r.size) (r.right + r.size) rs
    let shared : Span := ⟨true, r.left, r.left + r.size, r.right, r.right + r.size⟩
    let joined := match rest with
      | next :: others => if next.same then { shared with
          leftStop := next.leftStop, rightStop := next.rightStop } :: others else shared :: rest
      | [] => [shared]
    if i < r.left || j < r.right then ⟨false, i, r.left, j, r.right⟩ :: joined else joined

/-- The spans of two lists. -/
def ofLists {α : Type} [BEq α] (as bs : List α) : List Span :=
  behind as.length bs.length 0 0 (Matching.runs as bs)


-- ---------------------------------------------------------------------------
-- Context
-- ---------------------------------------------------------------------------

/-- Keep the last `context` elements of a span. -/
def keepEnd (context : Int) (s : Span) : Span :=
  { s with leftStart := max s.leftStart (s.leftStop - context)
           rightStart := max s.rightStart (s.rightStop - context) }

/-- Keep the first `context` elements of a span. -/
def keepStart (context : Int) (s : Span) : Span :=
  { s with leftStop := min s.leftStop (s.leftStart + context)
           rightStop := min s.rightStop (s.rightStart + context) }

/-- Cut what two lists share at their start down to the context. -/
def cutFirst (context : Int) : List Span → List Span
  | [] => []
  | s :: rest => (if s.same then s.keepEnd context else s) :: rest

/-- Cut what two lists share at their end down to the context. -/
def cutLast (context : Int) : List Span → List Span
  | [] => []
  | [s] => [if s.same then s.keepStart context else s]
  | s :: rest => s :: cutLast context rest

/-- Whether a group shows no difference. -/
def showsNothing : List Span → Bool
  | [] => true
  | [s] => s.same
  | _ => false

/-- Put spans into groups; `group` is what the current one holds. -/
def groupFrom (context : Int) (group : List Span) : List Span → List (List Span)
  | [] => if showsNothing group then [] else [group]
  | s :: rest =>
    if s.same && 2 * context < s.leftStop - s.leftStart then
      (group ++ [s.keepStart context]) :: groupFrom context [s.keepEnd context] rest
    else groupFrom context (group ++ [s]) rest

/-- Put the spans of two lists into groups. Two empty lists count as sharing one
    element. -/
def groups (context : Int) (spans : List Span) : List (List Span) :=
  let spans := if spans.isEmpty then [⟨true, 0, 1, 0, 1⟩] else spans
  groupFrom context [] (cutLast context (cutFirst context spans))

end Span

end Devicetree

-- SUMMARY: Cutting texts into lines, at line feeds only or at every line break.
import Devicetree.Text.Blank

/-!
# Lines

Two notions of line are in use. A source is edited line by line between line
feeds, and nothing is lost: `unlines (lines t) = t`. What a reader is shown and
what a comparison counts are the lines between any line breaks, where a break at
the very end of a text opens no further line.
-/

namespace Devicetree

namespace Text

-- ---------------------------------------------------------------------------
-- Between line feeds
-- ---------------------------------------------------------------------------

/-- Cut a text at its line feeds; there is one line more than there are line feeds. -/
def lines : Text → List Line
  | [] => [[]]
  | c :: cs =>
    if c = '\n' then [] :: lines cs
    else match lines cs with
      | [] => [[c]]
      | l :: ls => (c :: l) :: ls

/-- Put a line feed between each two lines. -/
def unlines : List Line → Text
  | [] => []
  | [l] => l
  | l :: ls => l ++ '\n' :: unlines ls

theorem lines_ne_nil (t : Text) : lines t ≠ [] := by
  cases t with
  | nil => simp [lines]
  | cons c cs =>
    rw [lines]
    split
    · simp
    · split <;> simp

/-- Cutting at line feeds loses nothing. -/
theorem unlines_lines (t : Text) : unlines (lines t) = t := by
  induction t with
  | nil => rfl
  | cons c cs ih =>
    rw [lines]
    split
    · rename_i h
      cases hl : lines cs with
      | nil => exact absurd hl (lines_ne_nil cs)
      | cons l ls => simp [unlines, ← hl, ih, h]
    · cases hl : lines cs with
      | nil => exact absurd hl (lines_ne_nil cs)
      | cons l ls =>
        rw [hl] at ih
        cases ls <;> simp_all [unlines]


-- ---------------------------------------------------------------------------
-- Between any line breaks
-- ---------------------------------------------------------------------------

/-- The characters that break a line: the ASCII line and page breaks, the
    information separators above the unit separator, NEL, and the two Unicode
    separators. -/
def isBreak (c : Char) : Bool :=
  let n := c.toNat
  (10 ≤ n && n ≤ 13) || (28 ≤ n && n ≤ 30) || n == 0x85 || n == 0x2028 || n == 0x2029

/-- Cut a text at every line break. A carriage return and the line feed behind it
    are one break, and a break at the end of the text opens no line. -/
def rows : Text → List Line
  | [] => []
  | '\r' :: '\n' :: cs => [] :: rows cs
  | c :: cs =>
    if isBreak c then [] :: rows cs
    else match rows cs with
      | [] => [[c]]
      | l :: ls => (c :: l) :: ls

/-- Turn every carriage return, alone or before a line feed, into a line feed. -/
def universalNewlines : Text → Text
  | [] => []
  | '\r' :: '\n' :: cs => '\n' :: universalNewlines cs
  | c :: cs => (if c = '\r' then '\n' else c) :: universalNewlines cs

end Text

end Devicetree

-- SUMMARY: Texts as lists of characters; which characters are blank; trimming and words.

/-!
# Blanks

A text is a list of characters. Files and streams are decoded into texts at the
boundary and encoded again when they are written, so that everything in between
is list processing. This file fixes what counts as white space, and the three
ways of cutting it away: at either end of a text and between words.
-/

namespace Devicetree

/-- A text: the characters of a document, a label or a message in order. -/
abbrev Text := List Char

/-- A text that stands for one line, without the break that ends it. -/
abbrev Line := List Char


-- ---------------------------------------------------------------------------
-- White space
-- ---------------------------------------------------------------------------

/-- The white space of the Unicode bidirectional classes and of category Zs: the
    ASCII blanks and separators, NEL, the no-break and ogham spaces, the typographic
    spaces, the line and paragraph separators and the ideographic space. -/
def isBlank (c : Char) : Bool :=
  let n := c.toNat
  (9 ≤ n && n ≤ 13) || (28 ≤ n && n ≤ 32) || n == 0x85 || n == 0xA0 || n == 0x1680
    || (0x2000 ≤ n && n ≤ 0x200A) || n == 0x2028 || n == 0x2029 || n == 0x202F
    || n == 0x205F || n == 0x3000

/-- A gap is a tab or a space: the blanks that indent and separate within a line. -/
def isGap (c : Char) : Bool :=
  c == ' ' || c == '\t'

theorem isBlank_of_isGap {c : Char} (h : isGap c) : isBlank c := by
  simp only [isGap, Bool.or_eq_true, beq_iff_eq] at h
  obtain rfl | rfl := h <;> decide


-- ---------------------------------------------------------------------------
-- Trimming
-- ---------------------------------------------------------------------------

namespace Text

/-- Drop the blanks a text starts with. -/
def trimStart (t : Text) : Text :=
  t.dropWhile isBlank

/-- Drop the blanks a text ends with. -/
def trimEnd : Text → Text
  | [] => []
  | c :: cs =>
    match trimEnd cs with
    | [] => if isBlank c then [] else [c]
    | rest => c :: rest

/-- Drop the blanks at both ends of a text. -/
def trim (t : Text) : Text :=
  trimEnd (trimStart t)

/-- The maximal runs of characters that are not blank, in order. -/
def words : Text → List Text
  | [] => []
  | c :: cs =>
    if isBlank c then words cs
    else match cs, words cs with
      | d :: _, w :: ws => if isBlank d then [c] :: w :: ws else (c :: w) :: ws
      | _, ws => [c] :: ws

/-- Whether a text holds the character somewhere. -/
def holds (c : Char) (t : Text) : Bool :=
  t.any (· == c)

end Text

end Devicetree

-- SUMMARY: Blocks by brace balance, and the outline of a row of lines into blocks and free lines.
import Devicetree.Source.Line

/-!
# Outlines

A block is a line that opens one and the lines behind it up to where its braces are
balanced, or to the end. The outline of a row of lines lists its outermost blocks
and the free lines around them in order; written out, it is those lines again.
-/

namespace Devicetree

-- ---------------------------------------------------------------------------
-- Blocks
-- ---------------------------------------------------------------------------

/-- A block: its opening line, and the lines behind it. -/
structure Block where
  opening : Line
  rest : List Line
deriving DecidableEq, Repr

namespace Block

/-- The lines of a block. -/
def lines (b : Block) : List Line :=
  b.opening :: b.rest

/-- The last line, which is the opening line if there is no other. -/
def closing (b : Block) : Line :=
  b.rest.getLast?.getD b.opening

/-- The lines between the opening and the closing one. -/
def body (b : Block) : List Line :=
  b.rest.dropLast

/-- A row of lines as a block, if there is a line to open it. -/
def ofLines? : List Line → Option Block
  | [] => none
  | l :: ls => some ⟨l, ls⟩

/-- How many of the lines belong to a block of which `balance` braces are open. -/
def extent (balance : Int) : List Line → Nat
  | [] => 0
  | l :: ls => if balance ≤ 0 then 0 else extent (balance + Line.braceBalance l) ls + 1

/-- The block that a line opens in front of others. -/
def openedBy (l : Line) (ls : List Line) : Block :=
  ⟨l, ls.take (extent (Line.braceBalance l) ls)⟩

/-- A block is followed by what its opening line leaves over. -/
theorem rest_append_drop (l : Line) (ls : List Line) :
    (openedBy l ls).rest ++ ls.drop (openedBy l ls).rest.length = ls := by
  simp only [openedBy, List.length_take]
  rcases Nat.le_total (extent (Line.braceBalance l) ls) ls.length with h | h
  · simp [Nat.min_eq_left h]
  · simp [Nat.min_eq_right h, List.take_of_length_le h]

/-- Where the block that starts at a line ends: the number of the line behind it. -/
def endOf? (ls : List Line) (start : Nat) : Option Nat :=
  match ls.drop start with
  | [] => none
  | l :: rest => some (start + (Block.openedBy l rest).lines.length)

end Block


-- ---------------------------------------------------------------------------
-- Outlines
-- ---------------------------------------------------------------------------

/-- A free line, or an outermost block. -/
inductive Segment where
  | free (l : Line)
  | block (b : Block)
deriving DecidableEq, Repr

namespace Segment

/-- The lines of a segment. -/
def lines : Segment → List Line
  | free l => [l]
  | block b => b.lines

/-- The block of a segment, if it is one. -/
def block? : Segment → Option Block
  | free _ => none
  | block b => some b

/-- The free line of a segment, if it is one. -/
def free? : Segment → Option Line
  | free l => some l
  | block _ => none

end Segment

/-- The segments of a row of lines in order. -/
abbrev Outline := List Segment

namespace Outline

/-- Outline lines of which the first `covered` belong to a block already. -/
def ofLinesFrom : (covered : Nat) → List Line → Outline
  | _, [] => []
  | covered + 1, _ :: ls => ofLinesFrom covered ls
  | 0, l :: ls =>
    match Line.kind l with
    | .opener => .block (Block.openedBy l ls) :: ofLinesFrom (Block.openedBy l ls).rest.length ls
    | _ => .free l :: ofLinesFrom 0 ls

/-- The outline of a row of lines. -/
def ofLines (ls : List Line) : Outline :=
  ofLinesFrom 0 ls

/-- The lines of an outline. -/
def lines (o : Outline) : List Line :=
  o.flatMap Segment.lines

/-- The outermost blocks in order. -/
def blocks (o : Outline) : List Block :=
  o.filterMap Segment.block?

/-- The free lines in order. -/
def freeLines (o : Outline) : List Line :=
  o.filterMap Segment.free?

theorem ofLinesFrom_eq_drop (n : Nat) (ls : List Line) :
    ofLinesFrom n ls = ofLines (ls.drop n) := by
  induction n generalizing ls with
  | zero => simp [ofLines]
  | succ n ih => cases ls <;> simp [ofLinesFrom, ofLines, ih]

theorem lines_ofLinesFrom (n : Nat) (ls : List Line) : lines (ofLinesFrom n ls) = ls.drop n := by
  induction ls generalizing n with
  | nil => simp [ofLinesFrom, lines]
  | cons l ls ih =>
    cases n with
    | succ n => simpa [ofLinesFrom] using ih n
    | zero =>
      rw [ofLinesFrom]
      split
      · have h := ih (Block.openedBy l ls).rest.length
        simp only [lines] at h ⊢
        rw [List.flatMap_cons, h]
        simp only [Segment.lines, Block.lines, List.cons_append, List.drop_zero]
        rw [Block.rest_append_drop]
        rfl
      · have h := ih 0
        simp only [lines] at h ⊢
        simp [h, Segment.lines]

/-- An outline loses no line and keeps their order. -/
theorem lines_ofLines (ls : List Line) : lines (ofLines ls) = ls := by
  rw [ofLines, lines_ofLinesFrom, List.drop_zero]

end Outline

end Devicetree

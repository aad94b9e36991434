-- SUMMARY: Cell arrays in one spelling: one space inside each bracket and between cells.
import Devicetree.Text.Pieces

/-!
# Cell arrays

A cell array is what stands between an opening angle bracket and the next closing
one, if anything does. Its cells are the words inside. They are written with one
space between them and one inside each bracket, and an array of blanks alone keeps
a single space.
-/

namespace Devicetree

namespace CellArray

/-- The content of an array at the start of a text. -/
def find : Text → Option (Text × Nat)
  | '<' :: cs =>
    match cs.takeWhile (· != '>'), cs.dropWhile (· != '>') with
    | [], _ => none
    | _, [] => none
    | content, _ => some (content, content.length + 2)
  | _ => none

/-- The cells, with a space in front of each. -/
def cells (content : Text) : Text :=
  (Text.words content).flatMap (' ' :: ·)

/-- An array with one space on either side of each cell. -/
def canonical (content : Text) : Text :=
  '<' :: (cells content ++ [' ', '>'])

/-- Space every cell array canonically. -/
def normalize (t : Text) : Text :=
  Piece.replaceMatches find canonical t

end CellArray

end Devicetree

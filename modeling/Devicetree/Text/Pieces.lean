-- SUMMARY: Cutting a text at the leftmost matches of a pattern, and replacing the matches.
import Devicetree.Text.Blank

/-!
# Pieces

A pattern answers for a text whether it matches at its very start, with what, and
over how many characters. A text is cut at the leftmost matches that do not
overlap; what lies between them stays as it is. Whatever respells values is a cut
followed by a new spelling of each match.
-/

namespace Devicetree

/-- A piece of a text that was cut at the matches of a pattern. -/
inductive Piece (α : Type) where
  | plain (c : Char)
  | found (a : α)
deriving DecidableEq, Repr

namespace Piece

variable {α : Type}

/-- Cut a text. The first `covered` characters belong to a match already. -/
def cutFrom (find : Text → Option (α × Nat)) : (covered : Nat) → Text → List (Piece α)
  | _, [] => []
  | covered + 1, _ :: cs => cutFrom find covered cs
  | 0, c :: cs =>
    match find (c :: cs) with
    | some (a, n) => found a :: cutFrom find (n - 1) cs
    | none => plain c :: cutFrom find 0 cs

/-- Cut a text at the leftmost matches that do not overlap. -/
def cut (find : Text → Option (α × Nat)) (t : Text) : List (Piece α) :=
  cutFrom find 0 t

/-- Spell a piece, given a spelling of matches. -/
def spell (write : α → Text) : Piece α → Text
  | plain c => [c]
  | found a => write a

/-- Replace each match of a pattern. -/
def replaceMatches (find : Text → Option (α × Nat)) (write : α → Text) (t : Text) : Text :=
  (cut find t).flatMap (spell write)

theorem cutFrom_eq_cut_drop (find : Text → Option (α × Nat)) (n : Nat) (t : Text) :
    cutFrom find n t = cut find (t.drop n) := by
  induction n generalizing t with
  | zero => simp [cut]
  | succ n ih => cases t <;> simp [cutFrom, cut, ih]

@[simp] theorem cut_nil (find : Text → Option (α × Nat)) : cut find [] = [] := rfl

/-- Where the pattern does not match, one character is passed over. -/
theorem cut_cons_of_none {find : Text → Option (α × Nat)} {c : Char} {cs : Text}
    (h : find (c :: cs) = none) : cut find (c :: cs) = plain c :: cut find cs := by
  simp [cut, cutFrom, h]

/-- Where the pattern matches, the cut goes on behind the match. -/
theorem cut_cons_of_some {find : Text → Option (α × Nat)} {c : Char} {cs : Text} {a : α}
    {n : Nat} (h : find (c :: cs) = some (a, n)) :
    cut find (c :: cs) = found a :: cut find (cs.drop (n - 1)) := by
  rw [cut, cutFrom, h]
  simp [cutFrom_eq_cut_drop]

end Piece

end Devicetree

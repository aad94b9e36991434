-- SUMMARY: Trailing blanks and runs of blank lines are reduced.
import Devicetree.Text.Lines

/-!
# Blank lines

Lines lose their trailing blanks. A line that is then empty stays only beside a
line with text or at either end of the source, and at most two line feeds are left
in a row.
-/

namespace Devicetree

namespace BlankLines

/-- Drop the empty lines that have an empty line on either side. `edge` holds if the
    line before has text or is missing. -/
def thin (edge : Bool) : List Line → List Line
  | [] => []
  | l :: ls =>
    if l.isEmpty && !edge && ls.head?.any List.isEmpty then thin false ls
    else l :: thin (!l.isEmpty) ls

/-- Write at most two line feeds of each run; `behind` line feeds stand right behind. -/
def squeeze (behind : Nat) : Text → Text
  | [] => []
  | c :: cs =>
    if c = '\n' then if 2 ≤ behind then squeeze behind cs else c :: squeeze (behind + 1) cs
    else c :: squeeze 0 cs

/-- Cut trailing blanks and reduce runs of blank lines. -/
def reduce (t : Text) : Text :=
  squeeze 0 (Text.unlines (thin true ((Text.lines t).map Text.trimEnd)))

end BlankLines

end Devicetree

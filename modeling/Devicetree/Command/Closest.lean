-- SUMMARY: The names that come closest to a mistyped one.
import Devicetree.Diff.Matching
import Devicetree.Text.Blank

/-!
# Closest names

How close two names come is measured by how many of their characters are matched, out
of all. Names come close enough from three fifths on, and the three closest count.
-/

namespace Devicetree

namespace Closest

/-- How close a candidate comes: matched characters of both, and all characters of both. -/
structure Score where
  matched : Nat
  total : Nat
  candidate : String
deriving DecidableEq, Repr

/-- The score of a candidate for a mistyped name. -/
def score (name : Text) (candidate : String) : Score where
  matched := 2 * Matching.matchedCount candidate.toList name
  total := candidate.length + name.length
  candidate

/-- Whether a candidate comes close enough. -/
def isClose (s : Score) : Bool :=
  s.total == 0 || 3 * s.total ≤ 5 * s.matched

/-- Whether one candidate comes before another: it is closer, or as close and later in
    the order of names. -/
def before (a b : Score) : Bool :=
  let left := a.matched * b.total
  let right := b.matched * a.total
  right < left || (left == right && b.candidate ≤ a.candidate)

/-- The closest candidates, in the order of names. -/
def among (candidates : List String) (name : Text) : List String :=
  let close := (candidates.map (score name)).filter isClose
  let best := (close.mergeSort before).take 3
  (best.map Score.candidate).mergeSort fun a b => decide (a ≤ b)

/-- The wording of a suggestion, which follows the wording of a fault. -/
def message : List String → String
  | [] => ""
  | [name] => s!" Did you mean '{name}'?"
  | names =>
    let listed := ", ".intercalate (names.map fun name => s!"'{name}'")
    s!" (Did you mean one of: {listed}?)"

end Closest

end Devicetree
